import GitHistory.Proofs.Files.Names

/-! Normal paths, and that making a path absolute gives such a path and leaves such a path as it is.
They are the paths that are put together from names. -/
namespace GitHistory.Files

variable {route : List String} {path : String}

/-- An absolute path by its names, each of which leads somewhere, with one slash or two in front
and maybe another one at the end. -/
structure AbsolutePath where
  doubled : Bool
  names : List String
  named : ∀ name ∈ names, IsPart name
  trailing : Bool

namespace AbsolutePath

variable (place : AbsolutePath)

/-- The path without the slash at its end, unless there is nothing else. -/
def stem : String := slashes place.doubled ++ joinNames place.names

def text : String := closed place.trailing place.stem

theorem names_stem : Files.names place.stem = place.names := by
  rw [stem, names_slashes, names_joinNames place.named]

theorem endsWithSlash_stem : endsWithSlash place.stem = place.names.isEmpty := by
  rw [stem]
  cases names : place.names with
  | nil => cases place.doubled <;> rfl
  | cons name rest =>
    have named := names ▸ place.named
    rw [endsWithSlash_append _ (joinNames_ne_empty named nofun), endsWithSlash_joinNames named]
    rfl

theorem names_text : Files.names place.text = place.names := by
  rw [text, names_closed, names_stem]

theorem endsWithSlash_text :
    endsWithSlash place.text = (place.trailing || endsWithSlash place.stem) :=
  endsWithSlash_closed place.trailing place.stem

/-- What stands behind the slashes in front starts without one. -/
theorem exists_behind :
    ∃ rest, place.text = slashes place.doubled ++ rest ∧ isAbsolute rest = false := by
  have relative := isAbsolute_joinNames place.named
  rcases closed_cases place.trailing place.stem with same | ⟨longer, bare⟩
  · exact ⟨joinNames place.names, same, relative⟩
  · have some : place.names ≠ [] := by
      rw [endsWithSlash_stem] at bare
      simpa using bare
    refine ⟨joinNames place.names ++ "/", ?_, ?_⟩
    · rw [text, longer, stem, String.append_assoc]
    · rwa [isAbsolute_append (joinNames_ne_empty place.named some)]

theorem rootOf_text : rootOf place.text = slashes place.doubled := by
  obtain ⟨rest, text, relative⟩ := place.exists_behind
  rw [text, rootOf_slashes _ relative]

theorem isAbsolute_text : isAbsolute place.text = true := by
  obtain ⟨rest, text, -⟩ := place.exists_behind
  rw [text, isAbsolute_slashes]

/-- The path of a place further in, with or without a slash at the end. -/
def within (named : ∀ name ∈ route, IsPart name) (trailing : Bool) : AbsolutePath where
  doubled := place.doubled
  names := place.names ++ route
  named := by
    intro name member
    exact (List.mem_append.mp member).elim (place.named name) (named name)
  trailing := trailing

theorem stem_within (named : ∀ name ∈ route, IsPart name) (some : route ≠ []) (trailing : Bool) :
    (place.within named trailing).stem = closed true place.stem ++ joinNames route := by
  change slashes place.doubled ++ joinNames (place.names ++ route) = _
  rw [closed, endsWithSlash_stem, stem]
  cases place.names with
  | nil =>
    rw [List.isEmpty_nil, joinNames_nil, String.append_empty, List.nil_append]
    rfl
  | cons name rest =>
    have joined : joinNames (name :: rest ++ route) =
        joinNames (name :: rest) ++ "/" ++ joinNames route :=
      String.intercalate_append_of_ne_nil (List.cons_ne_nil name rest) some
    rw [joined, List.isEmpty_cons, Bool.not_false, Bool.and_self, if_pos rfl]
    simp only [String.append_assoc]

end AbsolutePath

/-! Making a path absolute. -/

theorem ne_empty_of_isAbsolute (rooted : isAbsolute path = true) : path ≠ "" := by
  rintro rfl
  cases rooted

theorem isAbsolute_inside {root : String} (rooted : isAbsolute root = true) (path : String) :
    isAbsolute (inside root path) = true := by
  have some := ne_empty_of_isAbsolute rooted
  rw [inside]
  split
  · assumption
  · split
    · rwa [isAbsolute_append some]
    · rwa [String.append_assoc, isAbsolute_append some]

theorem inside_eq {directory : String} (named : directory ≠ "")
    (relative : isAbsolute path = false) :
    inside directory path = closed true directory ++ path := by
  have some : directory.isEmpty = false := by simpa using named
  rw [inside, relative, some, closed]
  cases endsWithSlash directory <;> rfl

theorem AbsolutePath.inside_text (place : AbsolutePath) (named : ∀ name ∈ route, IsPart name)
    (some : route ≠ []) (trailing : Bool) :
    inside place.text (joinNames route) = (place.within named trailing).stem := by
  rw [inside_eq (ne_empty_of_isAbsolute place.isAbsolute_text) (isAbsolute_joinNames named), text,
    closed_closed, Bool.true_or, place.stem_within named some]

theorem absolute_eq (named : path ≠ "") (current : String) :
    absolute current path = .ok (closed (endsWithSlash path)
      (if isAbsolute path then rootOf path ++ joinNames (names path)
      else if (joinNames (names path)).isEmpty then current
      else inside current (joinNames (names path)))) := by
  rw [absolute, if_neg (by simpa using named)]
  rfl

theorem exists_absolute (current : String) (some : path ≠ "") :
    ∃ root, absolute current path = .ok root :=
  ⟨_, absolute_eq some current⟩

theorem ne_empty_of_absolute {current root : String} (rooted : absolute current path = .ok root) :
    path ≠ "" := by
  rintro rfl
  cases rooted

theorem AbsolutePath.absolute_text (current : String) (place : AbsolutePath) :
    absolute current place.text = .ok place.text := by
  have rooted := place.isAbsolute_text
  have stem : rootOf place.text ++ joinNames (Files.names place.text) = place.stem := by
    rw [place.rootOf_text, place.names_text, AbsolutePath.stem]
  rw [absolute_eq (ne_empty_of_isAbsolute rooted), if_pos rooted, stem, place.endsWithSlash_text,
    closed_or_ends]
  rfl

theorem exists_text_of_absolute {root : String} (current : AbsolutePath)
    (rooted : absolute current.text path = .ok root) :
    ∃ place : AbsolutePath, place.text = root := by
  have some := ne_empty_of_absolute rooted
  have named : ∀ name ∈ names path, IsPart name := fun _ => isPart_of_mem_names
  rw [absolute_eq some] at rooted
  obtain rfl := Except.ok.inj rooted
  split
  · rename_i alone
    obtain ⟨doubled, front⟩ := exists_rootOf alone
    rw [front]
    exact ⟨⟨doubled, names path, named, endsWithSlash path⟩, rfl⟩
  · split
    -- nothing in the path leads away from the current directory
    · exact ⟨{ current with trailing := endsWithSlash path || current.trailing },
        (closed_closed current.trailing (endsWithSlash path) current.stem).symm⟩
    · rename_i further
      have some : names path ≠ [] := by
        intro nothing
        exact further (by rw [nothing]; rfl)
      rw [current.inside_text named some (endsWithSlash path)]
      exact ⟨current.within named (endsWithSlash path), rfl⟩

/-! Normal paths. -/

/-- A path from the root in which no part is a single dot, and no slash stands behind another
but for the second of two in front. -/
structure IsNormal (path : String) : Prop where
  rooted : isAbsolute path = true
  noDot : "." ∉ parts path
  spread : ∀ ahead rest, path.toList = ahead ++ '/' :: '/' :: rest → ahead = []

/-- Between two slashes that stand together there is an empty part. -/
theorem mem_parts_of_slashes {ahead rest : List Char}
    (text : path.toList = ahead ++ '/' :: '/' :: rest) : "" ∈ parts path := by
  simp [parts, text, Text.splitOn_append_cons, Text.splitOn]

namespace AbsolutePath

variable (place : AbsolutePath)

theorem mem_parts_stem {part : String} (member : part ∈ parts place.stem) :
    part = "" ∨ part ∈ place.names := by
  rw [stem, parts_slashes] at member
  rcases List.mem_append.mp member with ahead | behind
  · left
    split at ahead <;> simpa using ahead
  · cases names : place.names with
    | nil =>
      rw [names] at behind
      exact .inl (List.mem_singleton.mp behind)
    | cons name rest =>
      rw [parts_joinNames place.named (by simp [names]), names] at behind
      exact .inr behind

theorem noDot : "." ∉ parts place.text := by
  intro member
  have stem : "." ∈ parts place.stem := (mem_parts_closed member).resolve_right (by decide)
  have name : "." ∈ place.names := (place.mem_parts_stem stem).resolve_left (by decide)
  exact (place.named "." name).ne_dot rfl

/-- Slashes stand together in front only. -/
theorem spread_stem {ahead rest : List Char}
    (text : place.stem.toList = ahead ++ '/' :: '/' :: rest) : ahead = [] := by
  have relative := isAbsolute_joinNames place.named
  have apart : ∀ ahead rest, (joinNames place.names).toList ≠ ahead ++ '/' :: '/' :: rest := by
    intro ahead rest text
    have empty := mem_parts_of_slashes text
    cases names : place.names with
    | nil => simp [names, joinNames_nil] at text
    | cons name others =>
      rw [parts_joinNames place.named (by simp [names])] at empty
      exact (place.named "" empty).ne_empty rfl
  have single : ∀ ahead, '/' :: (joinNames place.names).toList = ahead ++ '/' :: '/' :: rest →
      ahead = [] := by
    intro ahead text
    cases ahead with
    | nil => rfl
    | cons c behind => exact absurd (List.cons.inj text).2 (apart behind rest)
  rw [stem, slashes, String.toList_append] at text
  split at text
  · cases ahead with
    | nil => rfl
    | cons c behind =>
      -- behind the first slash there is a path with one slash in front
      have text := (List.cons.inj text).2
      obtain rfl := single behind text
      have first : (joinNames place.names).toList = '/' :: rest := (List.cons.inj text).2
      simp [isAbsolute, first] at relative
  · exact single ahead text

theorem spread {ahead rest : List Char}
    (text : place.text.toList = ahead ++ '/' :: '/' :: rest) : ahead = [] := by
  rw [AbsolutePath.text] at text
  rcases closed_cases place.trailing place.stem with same | ⟨longer, bare⟩
  · exact place.spread_stem (same ▸ text)
  · rw [longer] at text
    -- the slash at the end is the second of the two, or they stand before it
    rcases List.eq_nil_or_concat rest with rfl | ⟨inner, last, rfl⟩
    · have whole : place.stem.toList ++ ['/'] = ahead ++ ['/'] ++ ['/'] := by simpa using text
      simp [endsWithSlash, List.append_cancel_right whole] at bare
    · have whole : place.stem.toList ++ ['/'] = ahead ++ '/' :: '/' :: inner ++ [last] := by
        simpa using text
      exact place.spread_stem (List.append_inj_left' whole rfl)

theorem isNormal_text : IsNormal place.text where
  rooted := place.isAbsolute_text
  noDot := place.noDot
  spread := fun _ _ => place.spread

end AbsolutePath

theorem isPart_of_solid {name : List Char} (solid : '/' ∉ name) (some : name ≠ [])
    (noDot : "." ∉ parts (String.ofList name)) : IsPart (String.ofList name) := by
  have alone : parts (String.ofList name) = [String.ofList name] := by
    simp [parts, Text.splitOn_of_not_mem solid]
  have other : String.ofList name ≠ "." := by
    rintro dot
    exact noDot (by rw [alone, dot]; exact List.mem_singleton_self _)
  exact ⟨by simp [isName, other, some], by simpa using solid⟩

/-- A text is names with slashes between them, and maybe one at the end, if it starts without a
slash, no two slashes in it stand together and no part is a single dot. -/
theorem exists_names {text : List Char} (relative : text.head? ≠ some '/')
    (noDot : "." ∉ parts (String.ofList text))
    (apart : ∀ ahead rest, text ≠ ahead ++ '/' :: '/' :: rest) :
    ∃ (names : List String) (trailing : Bool), (∀ name ∈ names, IsPart name) ∧
      (trailing = true → names ≠ []) ∧
      String.ofList text = joinNames names ++ if trailing then "/" else "" := by
  induction size : text.length using Nat.strongRecOn generalizing text with
  | _ count ih =>
    subst size
    by_cases cut : '/' ∈ text
    · obtain ⟨name, rest, rfl, solid⟩ := List.eq_append_cons_of_mem cut
      have text : String.ofList (name ++ '/' :: rest) =
          String.ofList name ++ "/" ++ String.ofList rest := by simp [String.ext_iff]
      rw [text, parts_slash, List.mem_append, not_or] at noDot
      have some : name ≠ [] := by
        rintro rfl
        exact relative rfl
      have first := isPart_of_solid solid some noDot.1
      have unled : rest.head? ≠ .some '/' := by
        intro led
        obtain ⟨others, rfl⟩ := List.head?_eq_some_iff.mp led
        exact apart name others rfl
      obtain ⟨names, trailing, named, ends, joined⟩ := ih rest.length (by simp; omega) unled
        noDot.2 (fun ahead behind text => apart (name ++ '/' :: ahead) behind (by simp [text])) rfl
      cases names with
      | nil =>
        have bare : trailing = false := by simpa using ends
        have nothing : String.ofList rest = "" := by rw [joined, bare]; rfl
        refine ⟨[String.ofList name], true, List.forall_mem_singleton.mpr first, by simp, ?_⟩
        rw [text, nothing, joinNames_singleton, String.append_empty]
        rfl
      | cons next more =>
        refine ⟨String.ofList name :: next :: more, trailing,
          List.forall_mem_cons.mpr ⟨first, named⟩, by simp, ?_⟩
        rw [text, joined, joinNames_cons_cons, String.append_assoc, String.append_assoc,
          String.append_assoc]
    · by_cases empty : text = []
      · refine ⟨[], false, nofun, by simp, ?_⟩
        rw [empty]
        rfl
      · refine ⟨[String.ofList text], false,
          List.forall_mem_singleton.mpr (isPart_of_solid cut empty noDot), by simp, ?_⟩
        rw [joinNames_singleton, if_neg Bool.false_ne_true, String.append_empty]

theorem IsNormal.exists_front (normal : IsNormal path) :
    ∃ doubled text, path = slashes doubled ++ String.ofList text ∧ text.head? ≠ some '/' := by
  obtain ⟨behind, text⟩ := List.head?_eq_some_iff.mp (beq_iff_eq.mp normal.rooted)
  by_cases led : behind.head? = some '/'
  · obtain ⟨rest, rfl⟩ := List.head?_eq_some_iff.mp led
    refine ⟨true, rest, by simp [String.ext_iff, text, slashes], fun third => ?_⟩
    obtain ⟨others, rfl⟩ := List.head?_eq_some_iff.mp third
    exact absurd (normal.spread ['/'] others text) (List.cons_ne_nil _ _)
  · exact ⟨false, behind, by simp [String.ext_iff, text, slashes], led⟩

/-- The normal paths are those of names. -/
theorem isNormal_iff : IsNormal path ↔ ∃ place : AbsolutePath, place.text = path := by
  constructor
  · intro normal
    obtain ⟨doubled, text, rfl, relative⟩ := normal.exists_front
    have noDot : "." ∉ parts (String.ofList text) := by
      intro dot
      apply normal.noDot
      rw [parts_slashes]
      exact List.mem_append_right _ dot
    have apart : ∀ ahead rest, text ≠ ahead ++ '/' :: '/' :: rest := by
      rintro ahead rest rfl
      have nothing := normal.spread ((slashes doubled).toList ++ ahead) rest (by simp)
      exact slashes_ne_empty doubled (by simpa using (List.append_eq_nil_iff.mp nothing).1)
    obtain ⟨names, trailing, named, ends, joined⟩ := exists_names relative noDot apart
    refine ⟨⟨doubled, names, named, trailing⟩, ?_⟩
    rw [joined, AbsolutePath.text, closed, AbsolutePath.endsWithSlash_stem, AbsolutePath.stem]
    cases trailing with
    | false => simp
    | true => simp [ends rfl, String.append_assoc]
  · rintro ⟨place, rfl⟩
    exact place.isNormal_text

/-- A normal path is left as it is, whatever the current directory. -/
theorem absolute_of_isNormal (current : String) (normal : IsNormal path) :
    absolute current path = .ok path := by
  obtain ⟨place, rfl⟩ := isNormal_iff.mp normal
  exact place.absolute_text current

/-- A path is made into a normal one in a directory that has such a path. -/
theorem isNormal_of_absolute {current root : String} (normal : IsNormal current)
    (rooted : absolute current path = .ok root) : IsNormal root := by
  obtain ⟨place, rfl⟩ := isNormal_iff.mp normal
  exact isNormal_iff.mpr (exists_text_of_absolute place rooted)

end GitHistory.Files
