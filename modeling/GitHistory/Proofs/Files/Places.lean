import GitHistory.Proofs.Files.Walks

/-! Directories by their own routes, and lookups right inside a directory: whatever path leads
there, what is found depends on the directory alone, as long as the path and the links on the way
stay within the limits. -/
namespace GitHistory

theorem Text.utf8Size_append (front rest : List Char) :
    utf8Size (front ++ rest) = utf8Size front + utf8Size rest := by
  induction front with
  | nil => exact (Nat.zero_add _).symm
  | cons c front ih => rw [List.cons_append, utf8Size, utf8Size, ih, Nat.add_assoc]

namespace Files

/-- The names of a path that is made absolute. -/
theorem names_absolute {current : AbsolutePath} {path full : String}
    (rooted : absolute current.text path = .ok full) :
    names full = (if isAbsolute path then [] else current.names) ++ names path := by
  have named : ∀ name ∈ names path, IsPart name := fun _ => isPart_of_mem_names
  rw [absolute_eq (ne_empty_of_absolute rooted)] at rooted
  obtain rfl := Except.ok.inj rooted
  rw [names_closed]
  split
  · rename_i alone
    obtain ⟨doubled, front⟩ := exists_rootOf alone
    rw [front, names_slashes, names_joinNames named, List.nil_append]
  · split
    · rename_i further
      have nothing : names path = [] := by
        by_contra some
        exact joinNames_ne_empty named some (String.isEmpty_iff.mp further)
      rw [current.names_text, nothing, List.append_nil]
    · rename_i further
      have some : names path ≠ [] := by
        intro nothing
        exact further (by rw [nothing]; rfl)
      rw [current.inside_text named some false, AbsolutePath.names_stem]
      rfl

theorem exists_closed (directory : String) : ∃ front, closed true directory = front ++ "/" := by
  have ends := endsWithSlash_closed true directory
  rw [Bool.true_or, endsWithSlash, beq_iff_eq, List.getLast?_eq_some_iff] at ends
  obtain ⟨front, text⟩ := ends
  exact ⟨String.ofList front, by simp [String.ext_iff, text]⟩

theorem IsPart.relative {name : String} (isPart : IsPart name) : isAbsolute name = false := by
  simpa [isAbsolute] using fun first => isPart.solid (List.mem_of_head? first)

/-- Inside a directory a name is the last part, behind the names of the directory. -/
theorem parts_inside {directory name : String} (some : directory ≠ "") (isPart : IsPart name) :
    ∃ ahead, parts (inside directory name) = ahead ++ [name] ∧
      ahead.filter isName = names directory := by
  have alone : parts name = [name] := by
    simp [parts, Text.splitOn_of_not_mem isPart.solid]
  obtain ⟨front, ends⟩ := exists_closed directory
  have same : names front = names directory := by
    rw [← names_closed true directory, ends, ← String.append_empty (s := front ++ "/"),
      names_slash]
    exact (List.append_nil _).symm
  refine ⟨parts front, ?_, same⟩
  rw [inside_eq some isPart.relative, ends, parts_slash, alone]

theorem isAbsolute_inside_name {directory name : String} (some : directory ≠ "")
    (isPart : IsPart name) : isAbsolute (inside directory name) = isAbsolute directory := by
  rw [inside_eq some isPart.relative]
  rcases closed_cases true directory with same | ⟨longer, -⟩
  · rw [same, isAbsolute_append some]
  · rw [longer, String.append_assoc, isAbsolute_append some]

theorem inside_ne_empty {directory name : String} (some : directory ≠ "") (isPart : IsPart name) :
    inside directory name ≠ "" := by
  rw [inside_eq some isPart.relative]
  simp [isPart.ne_empty]

end Files

namespace FileTree

variable {tree : FileTree} {current other directory place : Route} {follow : Bool}
variable {links left : Nat} {path full name : String}

/-- A directory by its own route, down which no link is met. -/
inductive IsPlace (tree : FileTree) : Route → Prop where
  | root : IsPlace tree []
  | within {directory : Route} {name : String} (around : IsPlace tree directory)
      (isStep : IsStep name) (solid : '/' ∉ name.toList)
      (stands : tree.entry? (directory ++ [name]) = some .directory) :
      IsPlace tree (directory ++ [name])

theorem IsPlace.named (isPlace : IsPlace tree place) : ∀ name ∈ place, Files.IsPart name := by
  induction isPlace with
  | root => nofun
  | within _ isStep solid _ ih =>
    intro name member
    rcases List.mem_append.mp member with ahead | last
    · exact ih name ahead
    · rw [List.mem_singleton.mp last]
      exact ⟨isStep.isName, solid⟩

theorem IsPlace.dropLast (isPlace : IsPlace tree place) : IsPlace tree place.dropLast := by
  cases isPlace with
  | root => exact .root
  | within around => rwa [List.dropLast_concat]

theorem IsPlace.mono {before after : FileTree}
    (kept : ∀ route entry, before.entry? route = some entry → after.entry? route = some entry)
    (isPlace : IsPlace before place) : IsPlace after place := by
  induction isPlace with
  | root => exact .root
  | within _ isStep solid stands ih => exact .within ih isStep solid (kept _ _ stands)

theorem IsPlace.leads (isPlace : IsPlace tree place) (links : Nat) :
    Leads tree links [] place links place := by
  induction isPlace with
  | root => exact .done
  | within _ isStep _ stands ih => exact ih.trans (.down isStep stands .done)

theorem solid_of_mem_parts {part : String} (member : part ∈ Files.parts path) :
    '/' ∉ part.toList := by
  obtain ⟨field, split, rfl⟩ := List.mem_map.mp member
  simpa using Text.not_mem_of_mem_splitOn split

theorem Leads.isPlace {parts : List String} (leads : Leads tree links directory parts left place)
    (start : IsPlace tree directory) (solid : ∀ part ∈ parts, '/' ∉ part.toList) :
    IsPlace tree place := by
  induction leads with
  | done => exact start
  | skip _ _ ih => exact ih start fun part member => solid part (List.mem_cons_of_mem _ member)
  | up _ ih =>
    exact ih start.dropLast fun part member => solid part (List.mem_cons_of_mem _ member)
  | down isStep stands _ ih =>
    exact ih (.within start isStep (solid _ List.mem_cons_self) stands)
      fun part member => solid part (List.mem_cons_of_mem _ member)
  | through isStep stands _ ih =>
    refine ih ?_ fun part member => ?_
    · split
      · exact .root
      · exact start
    · rcases List.mem_append.mp member with inside | behind
      · exact solid_of_mem_parts inside
      · exact solid part (List.mem_cons_of_mem _ behind)

/-- A path leads to a directory, and some links are left there. -/
structure Arrives (tree : FileTree) (current : Route) (path : String) (left : Nat)
    (place : Route) : Prop where
  named : path ≠ ""
  leads : Leads tree linkLimit (if Files.isAbsolute path then [] else current)
    (Files.parts path) left place

theorem isUsable_of_locate {found : Place} (led : tree.locate current follow path = .ok found) :
    IsUsable path := by
  rw [locate] at led
  split_ifs at led with nul empty long <;>
    exact ⟨by simpa using empty, by simpa using nul, Nat.lt_of_not_le long⟩

theorem Arrives.locate_eq (arrives : Arrives tree current path left place)
    (usable : IsUsable path) :
    tree.locate current true path = .ok (.present place .directory) := by
  rw [FileTree.locate_eq usable, arrives.leads.walk_eq]

theorem exists_arrives
    (led : tree.locate current follow path = .ok (.present place .directory)) :
    ∃ left, Arrives tree current path left place := by
  obtain ⟨left, leads⟩ := exists_leads_of_walk (walk_of_locate led)
  exact ⟨left, by simpa using (isUsable_of_locate led).named, leads⟩

theorem Arrives.isPlace (arrives : Arrives tree current path left place)
    (start : IsPlace tree current) : IsPlace tree place := by
  refine arrives.leads.isPlace ?_ fun _ => solid_of_mem_parts
  split
  · exact .root
  · exact start

/-- A name in a directory is looked up there, whatever the path of the directory. -/
theorem Arrives.locate_inside (arrives : Arrives tree current path left place)
    (isName : IsName name) (usable : IsUsable (Files.inside path name)) (follow : Bool) :
    tree.locate current follow (Files.inside path name) =
      tree.walk follow left place [name] := by
  obtain ⟨ahead, parts, same⟩ := Files.parts_inside arrives.named isName.isPart
  rw [FileTree.locate_eq usable, Files.isAbsolute_inside_name arrives.named isName.isPart, parts]
  exact (arrives.leads.of_filter_eq same).walk_append (.inl (List.cons_ne_nil _ _))

theorem IsPlace.filter_isName (isPlace : IsPlace tree place) :
    place.filter Files.isName = place :=
  List.filter_eq_self.mpr fun name member => (isPlace.named name member).leads

/-- What is found at a name inside a path is found from the directory that the path leads to. -/
theorem exists_arrives_of_inside {found : Place} (isName : IsName name) (named : path ≠ "")
    (led : tree.locate current follow (Files.inside path name) = .ok found) :
    ∃ left place, Arrives tree current path left place ∧
      tree.walk follow left place [name] = .ok found := by
  obtain ⟨ahead, parts, same⟩ := Files.parts_inside named isName.isPart
  have walked := walk_of_locate led
  rw [Files.isAbsolute_inside_name named isName.isPart, parts] at walked
  obtain ⟨left, place, leads, ended⟩ := exists_leads_of_concat isName.isStep walked
  exact ⟨left, place, ⟨named, leads.of_filter_eq same.symm⟩, ended⟩

theorem Arrives.mono {before after : FileTree}
    (kept : ∀ route entry, before.entry? route = some entry → after.entry? route = some entry)
    (arrives : Arrives before current path left place) : Arrives after current path left place :=
  ⟨arrives.named, arrives.leads.mono kept⟩

/-- The path that is made absolute leads to where the path led. -/
theorem Arrives.absolute (arrives : Arrives tree current path left place)
    (start : IsPlace tree current) (rooted : Files.absolute current.text path = .ok full)
    (other : Route) : Arrives tree other full left place := by
  let working : Files.AbsolutePath := ⟨false, current, start.named, false⟩
  have fromRoot : Files.isAbsolute full = true := by
    obtain ⟨text, rfl⟩ := Files.exists_text_of_absolute working rooted
    exact text.isAbsolute_text
  have whole : Leads tree linkLimit []
      ((if Files.isAbsolute path then [] else current) ++ Files.parts path) left place := by
    have leads := arrives.leads
    split
    · rename_i alone
      rwa [if_pos alone] at leads
    · rename_i relative
      rw [if_neg relative] at leads
      exact (start.leads linkLimit).trans leads
  have names : (Files.parts full).filter Files.isName =
      ((if Files.isAbsolute path then [] else current) ++ Files.parts path).filter
        Files.isName := by
    have same := @Files.names_absolute working _ _ rooted
    rw [List.filter_append]
    refine same.trans (congrArg (· ++ Files.names path) ?_)
    split
    · rfl
    · exact start.filter_isName.symm
  refine ⟨Files.ne_empty_of_isAbsolute fromRoot, ?_⟩
  rw [if_pos fromRoot]
  exact whole.of_filter_eq names

/-- The route of a directory is the way to it. -/
theorem IsPlace.arrives (isPlace : IsPlace tree place) (current : Route) :
    Arrives tree current place.text linkLimit place := by
  have text : place.text = Files.slashes false ++ Files.joinNames place := rfl
  have fromRoot : Files.isAbsolute place.text = true := Files.isAbsolute_slashes false _
  have names : (Files.parts place.text).filter Files.isName = place.filter Files.isName := by
    rw [isPlace.filter_isName]
    exact (congrArg Files.names text).trans
      ((Files.names_slashes false _).trans (Files.names_joinNames isPlace.named))
  refine ⟨Files.ne_empty_of_isAbsolute fromRoot, ?_⟩
  rw [if_pos fromRoot]
  exact (isPlace.leads linkLimit).of_filter_eq names

theorem IsPlace.inside_text (isPlace : IsPlace tree place) (isPart : Files.IsPart name) :
    Files.inside place.text name = (place ++ [name]).text := by
  have named : ∀ part ∈ [name], Files.IsPart part := by
    intro part member
    rwa [List.mem_singleton.mp member]
  have inside := Files.AbsolutePath.inside_text ⟨false, place, isPlace.named, false⟩ named
    (List.cons_ne_nil _ _) false
  rw [Files.joinNames_singleton] at inside
  exact inside

/-- A name in a directory by its route is found where the walk along it ends. -/
theorem IsPlace.locate_name (isPlace : IsPlace tree place) (isName : IsName name)
    (usable : IsUsable (place ++ [name]).text) (current : Route) (follow : Bool) :
    tree.locate current follow (place ++ [name]).text =
      tree.walk follow linkLimit place [name] := by
  rw [← isPlace.inside_text isName.isPart] at usable ⊢
  exact (isPlace.arrives current).locate_inside isName usable follow

theorem IsPlace.walk_name {found : Place} (isPlace : IsPlace tree place) (isName : IsName name)
    (led : tree.locate current follow (place ++ [name]).text = .ok found) :
    tree.walk follow linkLimit place [name] = .ok found :=
  (isPlace.locate_name isName (isUsable_of_locate led) current follow).symm.trans led

theorem find_eq_ok_iff {route : Route} {entry : Entry} :
    tree.find current follow path = .ok (route, entry) ↔
      tree.locate current follow path = .ok (.present route entry) := by
  rw [find]
  rcases tree.locate current follow path with error | place | place
  · simp [bind, Except.bind]
  · simp [bind, Except.bind, pure, Except.pure]
  · simp [bind, Except.bind, throw, throwThe, MonadExceptOf.throw]

theorem isDirectory_iff :
    tree.isDirectory current path = true ↔
      ∃ route, tree.locate current true path = .ok (.present route .directory) := by
  simp only [← find_eq_ok_iff]
  rw [isDirectory]
  split
  · rename_i route found
    exact iff_of_true rfl ⟨route, found⟩
  · rename_i other
    refine iff_of_false Bool.false_ne_true ?_
    rintro ⟨route, found⟩
    exact other route found

theorem isFile_iff :
    tree.isFile current path = true ↔ ∃ route content executable,
      tree.locate current true path = .ok (.present route (.file content executable)) := by
  simp only [← find_eq_ok_iff]
  rw [isFile]
  split
  · rename_i route content executable found
    exact iff_of_true rfl ⟨route, content, executable, found⟩
  · rename_i other
    refine iff_of_false Bool.false_ne_true ?_
    rintro ⟨route, content, executable, found⟩
    exact other route content executable found

/-! What is at a name in a directory. -/

theorem IsStep.walk_last_free (isStep : IsStep name)
    (free : tree.entry? (directory ++ [name]) = none) (follow : Bool) (links : Nat) :
    tree.walk follow links directory [name] = .ok (.free directory name) := by
  rw [isStep.walk_cons, free]
  rfl

/-- An entry under a name is come to if it is no link, or if no link is followed. -/
theorem IsStep.walk_last {entry : Entry} (isStep : IsStep name)
    (stands : tree.entry? (directory ++ [name]) = some entry)
    (plain : follow = false ∨ ∀ target, entry ≠ .link target) (links : Nat) :
    tree.walk follow links directory [name] = .ok (.present (directory ++ [name]) entry) := by
  rw [isStep.walk_cons, stands]
  cases entry with
  | directory => exact walk.eq_1 ..
  | file content executable => rfl
  | link target =>
    obtain rfl := plain.resolve_right fun other => other target rfl
    rfl

/-- A directory found under a name stands there, unless it was made where the name was free. -/
theorem stands_of_walk {found : Place} (isStep : IsStep name)
    (walked : tree.walk follow links directory [name] = .ok found) :
    found = .free directory name ∨ (tree.entry? (directory ++ [name])).isSome := by
  cases free : tree.entry? (directory ++ [name]) with
  | none =>
    rw [isStep.walk_last_free free] at walked
    exact .inl (Except.ok.inj walked).symm
  | some entry => exact .inr rfl

theorem contains_inside (isName : IsName name) (named : path ≠ "") :
    '\x00' ∈ (Files.inside path name).toList ↔ '\x00' ∈ path.toList := by
  have last := isName.plain
  rw [Files.inside_eq named isName.isPart.relative]
  rcases Files.closed_cases true path with same | ⟨longer, -⟩
  · simp [same, last]
  · simp [longer, last]

theorem utf8Size_inside (isName : IsName name) (named : path ≠ "") :
    Text.utf8Size path.toList ≤ Text.utf8Size (Files.inside path name).toList ∧
      Text.utf8Size (Files.inside path name).toList ≤
        Text.utf8Size path.toList + 1 + Text.utf8Size name.toList := by
  have slash : Text.utf8Size ("/" : String).toList = 1 := by decide
  rw [Files.inside_eq named isName.isPart.relative, String.toList_append, Text.utf8Size_append]
  rcases Files.closed_cases true path with same | ⟨longer, -⟩
  · rw [same]
    omega
  · rw [longer, String.toList_append, Text.utf8Size_append, slash]
    omega

theorem isUsable_inside (isName : IsName name) (named : path ≠ "") (plain : '\x00' ∉ path.toList)
    (short : Text.utf8Size (Files.inside path name).toList < pathLimit) :
    IsUsable (Files.inside path name) where
  named := by simpa using Files.inside_ne_empty named isName.isPart
  plain := by simpa [contains_inside isName named] using plain
  short := short

theorem isUsable_of_inside (isName : IsName name) (named : path ≠ "")
    (usable : IsUsable (Files.inside path name)) : IsUsable path where
  named := by simpa using named
  plain := by simpa [contains_inside isName named] using usable.plain
  short := Nat.lt_of_le_of_lt (utf8Size_inside isName named).1 usable.short

/-! Names that metadata goes by. -/

theorem isName_git : IsName ".git" :=
  ⟨by decide, by decide, by decide, by decide, by decide⟩

theorem isName_head : IsName "HEAD" :=
  ⟨by decide, by decide, by decide, by decide, by decide⟩

theorem isName_objects : IsName "objects" :=
  ⟨by decide, by decide, by decide, by decide, by decide⟩

theorem isName_refs : IsName "refs" :=
  ⟨by decide, by decide, by decide, by decide, by decide⟩

end FileTree

end GitHistory
