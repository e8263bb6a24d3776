import Mathlib.Data.List.Basic
import GitHistory.Files.Path
import GitHistory.Proofs.Text.Fields

/-! The names in a path and the slashes around them: what is cut at the slashes of a path that was
put together from names, with slashes in front and at the end. -/
namespace GitHistory.Files

variable {route : List String} {path : String}

theorem parts_slash (front rest : String) :
    parts (front ++ "/" ++ rest) = parts front ++ parts rest := by
  have text : (front ++ "/" ++ rest).toList = front.toList ++ '/' :: rest.toList := by simp
  rw [parts, text, Text.splitOn_append_cons, List.map_append]
  rfl

theorem names_slash (front rest : String) :
    names (front ++ "/" ++ rest) = names front ++ names rest := by
  rw [names, parts_slash, List.filter_append]
  rfl

theorem parts_empty : parts "" = [""] := rfl

/-- A part that leads somewhere and holds no slash. -/
structure IsPart (name : String) : Prop where
  leads : isName name = true
  solid : '/' ∉ name.toList

theorem IsPart.ne_empty {name : String} (isPart : IsPart name) : name ≠ "" := by
  rintro rfl
  exact absurd isPart.leads (by decide)

theorem IsPart.ne_dot {name : String} (isPart : IsPart name) : name ≠ "." := by
  rintro rfl
  exact absurd isPart.leads (by decide)

theorem isPart_of_mem_names {name : String} (member : name ∈ names path) : IsPart name := by
  obtain ⟨inside, leads⟩ := List.mem_filter.mp member
  obtain ⟨field, split, rfl⟩ := List.mem_map.mp inside
  exact ⟨leads, by simpa using Text.not_mem_of_mem_splitOn split⟩

/-! Names with slashes between them. -/

theorem joinNames_nil : joinNames [] = "" :=
  String.intercalate_nil

theorem joinNames_singleton (name : String) : joinNames [name] = name :=
  String.intercalate_singleton

theorem joinNames_cons_cons (name next : String) (rest : List String) :
    joinNames (name :: next :: rest) = name ++ "/" ++ joinNames (next :: rest) :=
  String.intercalate_cons_cons

theorem parts_joinNames (named : ∀ name ∈ route, IsPart name) (some : route ≠ []) :
    parts (joinNames route) = route := by
  have solid : ∀ part ∈ route.map String.toList, '/' ∉ part := by
    intro part member
    obtain ⟨name, inside, rfl⟩ := List.mem_map.mp member
    exact (named name inside).solid
  have slash : "/".toList = ['/'] := rfl
  rw [parts, joinNames, String.toList_intercalate, slash, Text.splitOn_eq,
    List.splitOn_intercalate '/' solid (by simpa using some)]
  simp

theorem names_joinNames (named : ∀ name ∈ route, IsPart name) :
    names (joinNames route) = route := by
  cases route with
  | nil => rfl
  | cons name rest =>
    rw [names, parts_joinNames named nofun, List.filter_eq_self]
    exact fun other member => (named other member).leads

theorem isAbsolute_append (some : path ≠ "") (rest : String) :
    isAbsolute (path ++ rest) = isAbsolute path := by
  have text : path.toList ≠ [] := by simpa using some
  rw [isAbsolute, String.toList_append, List.head?_append_of_ne_nil _ text]
  rfl

theorem isAbsolute_joinNames (named : ∀ name ∈ route, IsPart name) :
    isAbsolute (joinNames route) = false := by
  cases route with
  | nil => rfl
  | cons name rest =>
    have isPart := named name List.mem_cons_self
    have relative : isAbsolute name = false := by
      simpa [isAbsolute] using fun first => isPart.solid (List.mem_of_head? first)
    cases rest with
    | nil => rwa [joinNames_singleton]
    | cons next more =>
      rw [joinNames_cons_cons, String.append_assoc, isAbsolute_append isPart.ne_empty, relative]

theorem endsWithSlash_append (front : String) (some : path ≠ "") :
    endsWithSlash (front ++ path) = endsWithSlash path := by
  have text : path.toList ≠ [] := by simpa using some
  rw [endsWithSlash, String.toList_append, List.getLast?_append_of_ne_nil _ text]
  rfl

theorem joinNames_ne_empty (named : ∀ name ∈ route, IsPart name) (some : route ≠ []) :
    joinNames route ≠ "" := by
  intro empty
  have nothing := names_joinNames named
  rw [empty] at nothing
  exact some nothing.symm

theorem endsWithSlash_joinNames (named : ∀ name ∈ route, IsPart name) :
    endsWithSlash (joinNames route) = false := by
  induction route with
  | nil => rfl
  | cons name rest ih =>
    have later : ∀ other ∈ rest, IsPart other := by
      intro other member
      exact named other (List.mem_cons_of_mem name member)
    cases rest with
    | nil =>
      have solid := (named name List.mem_cons_self).solid
      simpa [endsWithSlash, joinNames_singleton] using fun last => solid (List.mem_of_getLast? last)
    | cons next more =>
      rw [joinNames_cons_cons, endsWithSlash_append _ (joinNames_ne_empty later nofun), ih later]

/-! A slash at the end. -/

/-- A path with a slash at the end, if it is asked for. -/
def closed (slash : Bool) (path : String) : String :=
  if slash && !endsWithSlash path then path ++ "/" else path

theorem closed_cases (slash : Bool) (path : String) :
    closed slash path = path ∨ closed slash path = path ++ "/" ∧ endsWithSlash path = false := by
  rw [closed]
  split
  · rename_i missing
    exact .inr ⟨rfl, by simp_all⟩
  · exact .inl rfl

theorem endsWithSlash_closed (slash : Bool) (path : String) :
    endsWithSlash (closed slash path) = (slash || endsWithSlash path) := by
  rw [closed]
  split
  · rename_i missing
    have asked : slash = true := by simp_all
    rw [endsWithSlash_append path (by decide), asked]
    rfl
  · cases slash <;> simp_all

theorem closed_closed (first second : Bool) (path : String) :
    closed second (closed first path) = closed (second || first) path := by
  rw [closed, endsWithSlash_closed, closed]
  cases first <;> cases second <;> cases ending : endsWithSlash path <;> simp [closed, ending]

theorem closed_or_ends (slash : Bool) (path : String) :
    closed (slash || endsWithSlash path) path = closed slash path := by
  cases slash <;> cases ending : endsWithSlash path <;> simp [closed, ending]

theorem names_closed (slash : Bool) (path : String) : names (closed slash path) = names path := by
  rcases closed_cases slash path with same | ⟨longer, -⟩
  · rw [same]
  · have nothing : names "" = [] := rfl
    rw [longer, ← String.append_empty (s := path ++ "/"), names_slash, nothing, List.append_nil]

theorem mem_parts_closed {part : String} {slash : Bool}
    (member : part ∈ parts (closed slash path)) : part ∈ parts path ∨ part = "" := by
  rcases closed_cases slash path with same | ⟨longer, -⟩
  · exact .inl (same ▸ member)
  · rw [longer, ← String.append_empty (s := path ++ "/"), parts_slash, parts_empty] at member
    simpa using member

/-! Slashes in front. -/

/-- The slashes that an absolute path can start with. -/
def slashes (doubled : Bool) : String := if doubled then "//" else "/"

theorem slashes_ne_empty (doubled : Bool) : slashes doubled ≠ "" := by
  cases doubled <;> decide

theorem parts_slashes (doubled : Bool) (rest : String) :
    parts (slashes doubled ++ rest) = (if doubled then ["", ""] else [""]) ++ parts rest := by
  cases doubled <;> simp [slashes, parts, Text.splitOn]

theorem names_slashes (doubled : Bool) (rest : String) :
    names (slashes doubled ++ rest) = names rest := by
  rw [names, parts_slashes, List.filter_append]
  cases doubled <;> rfl

theorem isAbsolute_slashes (doubled : Bool) (rest : String) :
    isAbsolute (slashes doubled ++ rest) = true := by
  rw [isAbsolute_append (slashes_ne_empty doubled)]
  cases doubled <;> decide

theorem rootOf_slashes (doubled : Bool) {rest : String} (relative : isAbsolute rest = false) :
    rootOf (slashes doubled ++ rest) = slashes doubled := by
  cases text : rest.toList with
  | nil => cases doubled <;> simp [slashes, rootOf, text]
  | cons c others =>
    have different : c ≠ '/' := by simpa [isAbsolute, text] using relative
    cases doubled <;> simp [slashes, rootOf, text, different]

theorem exists_rootOf (rooted : isAbsolute path = true) :
    ∃ doubled, rootOf path = slashes doubled := by
  rw [rootOf]
  split
  · exact ⟨false, rfl⟩
  · exact ⟨true, rfl⟩
  · exact ⟨false, rfl⟩
  · rename_i relative
    cases text : path.toList with
    | nil => simp [isAbsolute, text] at rooted
    | cons c rest =>
      obtain rfl : c = '/' := by simpa [isAbsolute, text] using rooted
      exact absurd text (relative rest)

end GitHistory.Files
