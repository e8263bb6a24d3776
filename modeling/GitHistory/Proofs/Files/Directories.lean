import Mathlib.Data.List.Basic
import Mathlib.Data.List.TakeWhile
import GitHistory.Files.Tree
import GitHistory.Proofs.Text.Fields

/-! Making directories leaves everything that there was as it was: all that a tree gains are
directories at routes under which nothing stood, and it gains none if the path leads to a
directory already. -/
namespace GitHistory

namespace Text

/-- A text is what is left after trimming and, behind that, what was trimmed. -/
theorem exists_trimmed (c : Char) (text : List Char) :
    ∃ count, text = trimEnd (· == c) text ++ List.replicate count c := by
  have trimmed : text.reverse.takeWhile (· == c) =
      List.replicate (text.reverse.takeWhile (· == c)).length c := by
    apply List.eq_replicate_of_mem
    intro other member
    simpa using List.mem_takeWhile_imp member
  refine ⟨(text.reverse.takeWhile (· == c)).length, ?_⟩
  have parts := congrArg List.reverse (List.takeWhile_append_dropWhile (p := (· == c))
    (l := text.reverse))
  rw [List.reverse_append, trimmed, List.reverse_replicate, List.reverse_reverse] at parts
  exact parts.symm

theorem splitOn_replicate (separator : Char) (text : List Char) (count : Nat) :
    splitOn separator (text ++ List.replicate count separator) =
      splitOn separator text ++ List.replicate count [] := by
  induction count generalizing text with
  | zero => simp
  | succ count ih =>
    rw [List.replicate_succ, List.append_cons, ih, splitOn_append_cons, List.append_assoc]
    rfl

end Text

namespace FileTree

variable {tree : FileTree} {current : Route} {route other : Route} {entry : Entry} {path : String}

theorem ne_root_of_free (free : tree.entry? route = none) : route ≠ [] := by
  rintro rfl
  cases free

theorem stands_of_ne_root (proper : route ≠ []) :
    tree.entry? route = tree.entries.lookup route := by
  rw [FileTree.entry?, if_neg (by simpa using proper)]

theorem stands_insert_same (proper : route ≠ []) :
    FileTree.entry? (tree.insert route entry) route = some entry := by
  rw [stands_of_ne_root proper, insert, List.lookup_cons_self]

theorem lookup_filter_ne {α : Type} (different : other ≠ route) (entries : List (Route × α)) :
    (entries.filter (·.1 != route)).lookup other = entries.lookup other := by
  induction entries with
  | nil => rfl
  | cons first rest ih =>
    obtain ⟨name, value⟩ := first
    by_cases dropped : name = route
    · subst dropped
      have passed : (other == name) = false := by simpa using different
      simpa [List.lookup_cons, passed] using ih
    · simp [List.lookup_cons, dropped, ih]

theorem stands_insert_other (different : other ≠ route) :
    FileTree.entry? (tree.insert route entry) other = tree.entry? other := by
  by_cases root : other = []
  · subst root
    rfl
  · have passed : (other == route) = false := by simpa using different
    rw [stands_of_ne_root root, stands_of_ne_root root, insert, List.lookup_cons, passed]
    exact lookup_filter_ne different tree.entries

/-- Directories where there was nothing are all that one tree has more than another. -/
def GainsDirectories (before after : FileTree) : Prop :=
  ∀ route, after.entry? route = before.entry? route ∨
    before.entry? route = none ∧ after.entry? route = some .directory

/-- One tree is made from another by putting entries where nothing stood. -/
inductive Adds (fits : Entry → Prop) (before : FileTree) : FileTree → Prop where
  | none : Adds fits before before
  | more {after : FileTree} {route : Route} {entry : Entry} (adds : Adds fits before after)
      (free : after.entry? route = Option.none) (fitting : fits entry) :
      Adds fits before (after.insert route entry)

section
variable {fits : Entry → Prop} {before middle after : FileTree}

theorem Adds.trans (first : Adds fits before middle) (second : Adds fits middle after) :
    Adds fits before after := by
  induction second with
  | none => exact first
  | more _ free fitting ih => exact .more ih free fitting

theorem Adds.mono {fitsToo : Entry → Prop} (adds : Adds fits before after)
    (implies : ∀ entry, fits entry → fitsToo entry) : Adds fitsToo before after := by
  induction adds with
  | none => exact .none
  | more _ free fitting ih => exact .more ih free (implies _ fitting)

/-- What stands somewhere stays, and what comes where nothing stood fits. -/
theorem Adds.stands (adds : Adds fits before after) (route : Route) :
    after.entry? route = before.entry? route ∨ before.entry? route = Option.none ∧
      ∃ entry, fits entry ∧ after.entry? route = some entry := by
  induction adds with
  | none => exact .inl rfl
  | @more middle place entry _ free fitting ih =>
    by_cases here : route = place
    · subst here
      rcases ih with same | ⟨missing, _⟩
      · exact .inr ⟨same ▸ free, entry, fitting, stands_insert_same (ne_root_of_free free)⟩
      · exact .inr ⟨missing, entry, fitting, stands_insert_same (ne_root_of_free free)⟩
    · rw [stands_insert_other here]
      exact ih

theorem Adds.kept (adds : Adds fits before after) (route : Route) (entry : Entry)
    (there : before.entry? route = some entry) : after.entry? route = some entry := by
  rcases adds.stands route with same | ⟨free, _⟩
  · exact same.trans there
  · cases free.symm.trans there

theorem Adds.gainsDirectories (adds : Adds (· = .directory) before after) :
    before.GainsDirectories after := by
  intro route
  rcases adds.stands route with same | ⟨free, entry, rfl, present⟩
  · exact .inl same
  · exact .inr ⟨free, present⟩

theorem insert_of_free (free : tree.entry? route = none) :
    tree.insert route entry = ⟨(route, entry) :: tree.entries⟩ := by
  rw [stands_of_ne_root (ne_root_of_free free)] at free
  rw [insert, List.filter_eq_self.mpr]
  intro other member
  rw [bne_comm]
  exact List.lookup_eq_none_iff.mp free other member

/-- Each entry counts, so that none was put anywhere or there are more than before. -/
theorem Adds.eq_or_lt (adds : Adds fits before after) :
    after = before ∨ before.entries.length < after.entries.length := by
  induction adds with
  | none => exact .inl rfl
  | more _ free _ ih =>
    rw [insert_of_free free]
    rcases ih with rfl | fewer
    · exact .inr (Nat.lt_succ_self _)
    · exact .inr (Nat.lt_succ_of_lt fewer)

theorem Adds.antisymm {fitsToo : Entry → Prop} (adds : Adds fits before after)
    (back : Adds fitsToo after before) : after = before := by
  rcases adds.eq_or_lt, back.eq_or_lt with ⟨same | fewer, again | less⟩
  · exact same
  · exact same
  · exact again.symm
  · omega

end

/-- Nothing stands under a name at which a walk ends because it is free. -/
theorem walk_free {follow : Bool} {links : Nat} {directory place : Route} {name : String}
    {parts : List String}
    (free : tree.walk follow links directory parts = .ok (.free place name)) :
    tree.entry? (place ++ [name]) = none := by
  fun_induction walk tree follow links directory parts <;> simp_all

/-- A walk that follows no link at the end and finds a free name finds it behind slashes too, and
when it follows links. -/
theorem walk_free_trailing {links : Nat} {directory place : Route} {name : String}
    {parts : List String} (count : Nat)
    (free : tree.walk false links directory parts = .ok (.free place name)) :
    tree.walk true links directory (parts ++ List.replicate count "") =
      .ok (.free place name) := by
  generalize follows : false = follow at free
  fun_induction walk tree follow links directory parts with
  | case5 links directory part rest plain down short nothing ended =>
    -- the one case that looks at what follows the name
    have trailing : (rest ++ List.replicate count "").all (· == "") = true := by
      simpa using ended
    rw [List.cons_append, walk, if_neg plain, if_neg down, if_neg short, nothing]
    simp only
    rw [if_pos trailing, free]
  | _ => simp_all [walk]

theorem locate_free {follow : Bool} {place : Route} {name : String}
    (free : tree.locate current follow path = .ok (.free place name)) :
    tree.entry? (place ++ [name]) = none := by
  rw [locate] at free
  split_ifs at free <;> exact walk_free free

/-- A name that leads down from a directory: neither a dot nor two, not too long, and made of
characters that can stand in a name. -/
structure IsName (name : String) : Prop where
  proper : ¬(name = "" ∨ name = ".")
  down : name ≠ ".."
  short : Text.utf8Size name.toList ≤ nameLimit
  solid : '/' ∉ name.toList
  plain : '\x00' ∉ name.toList

theorem walk_into {follow : Bool} {links : Nat} {directory : Route} {name : String}
    (isName : IsName name) (stands : tree.entry? (directory ++ [name]) = some .directory)
    (rest : List String) :
    tree.walk follow links directory (name :: rest) =
      tree.walk follow links (directory ++ [name]) rest := by
  rw [walk, if_neg isName.proper, if_neg isName.down, if_neg (Nat.not_lt_of_le isName.short),
    stands]

theorem walk_to_free {follow : Bool} {links : Nat} {directory : Route} {name : String}
    (isName : IsName name) (free : tree.entry? (directory ++ [name]) = none) :
    tree.walk follow links directory [name] = .ok (.free directory name) := by
  rw [walk, if_neg isName.proper, if_neg isName.down, if_neg (Nat.not_lt_of_le isName.short), free]
  rfl

/-- A path that is looked up at all. -/
structure IsUsable (path : String) : Prop where
  named : path.isEmpty = false
  plain : path.toList.contains '\x00' = false
  short : Text.utf8Size path.toList < pathLimit

theorem IsName.usable (isName : IsName path) : IsUsable path where
  named := by simpa using fun empty => isName.proper (.inl empty)
  plain := by simpa using isName.plain
  short := Nat.lt_of_le_of_lt isName.short (by decide)

theorem locate_eq (usable : IsUsable path) (follow : Bool) :
    tree.locate current follow path =
      tree.walk follow linkLimit (if Files.isAbsolute path then [] else current)
        (Files.parts path) := by
  rw [locate, usable.plain, usable.named, if_neg Bool.false_ne_true, if_neg Bool.false_ne_true,
    if_neg (Nat.not_le_of_lt usable.short)]

/-- A name by itself is looked up in the current directory. -/
theorem IsName.locate_eq (isName : IsName path) (follow : Bool) :
    tree.locate current follow path = tree.walk follow linkLimit current [path] := by
  have parts : Files.parts path = [path] := by
    simp [Files.parts, Text.splitOn_of_not_mem isName.solid]
  have relative : Files.isAbsolute path = false := by
    simpa [Files.isAbsolute] using fun first => isName.solid (List.mem_of_head? first)
  rw [FileTree.locate_eq isName.usable, parts, relative, if_neg Bool.false_ne_true]

theorem isDirectory_of_located
    (located : tree.locate current true path = .ok (.present route .directory)) :
    tree.isDirectory current path = true := by
  rw [isDirectory, find, located]
  rfl

/-- The path without the slashes at its end, unless it consists of slashes. -/
def trimmedPath (path : String) : String :=
  let plain := String.ofList (Text.trimEnd (· == '/') path.toList)
  if plain.isEmpty then path else plain

theorem IsName.trimmedPath_eq (isName : IsName path) : trimmedPath path = path := by
  have whole : Text.trimEnd (· == '/') path.toList = path.toList := by
    rw [Text.trimEnd, Text.dropWhile_eq_self, List.reverse_reverse]
    intro c member
    simpa using fun same : c = '/' => isName.solid (same ▸ List.mem_reverse.mp member)
  rw [trimmedPath, whole, String.ofList_toList, ite_self]

theorem exists_trimmedPath (path : String) :
    ∃ count, path.toList = (trimmedPath path).toList ++ List.replicate count '/' ∧
      Files.isAbsolute (trimmedPath path) = Files.isAbsolute path := by
  rw [trimmedPath]
  split
  · exact ⟨0, by simp, rfl⟩
  · rename_i solid
    obtain ⟨count, parts⟩ := Text.exists_trimmed '/' path.toList
    have left : Text.trimEnd (· == '/') path.toList ≠ [] := by simpa using solid
    refine ⟨count, by simpa using parts, ?_⟩
    have first : path.toList.head? = (Text.trimEnd (· == '/') path.toList).head? := by
      conv_lhs => rw [parts]
      exact List.head?_append_of_ne_nil _ left
    rw [Files.isAbsolute, Files.isAbsolute, String.toList_ofList, first]

theorem walk_of_locate {follow : Bool} {place : Place}
    (led : tree.locate current follow path = .ok place) :
    tree.walk follow linkLimit (if Files.isAbsolute path then [] else current)
      (Files.parts path) = .ok place := by
  rw [locate] at led
  split_ifs at led ⊢ <;> exact led

/-- Where a directory can be made there is none, however the path ends. -/
theorem isDirectory_of_free {place : Route} {name : String}
    (free : tree.locate current false (trimmedPath path) = .ok (.free place name)) :
    tree.isDirectory current path = false := by
  obtain ⟨count, ending, rooted⟩ := exists_trimmedPath path
  have parts : Files.parts path = Files.parts (trimmedPath path) ++ List.replicate count "" := by
    rw [Files.parts, ending, Text.splitOn_replicate]
    simp [Files.parts]
  have free := walk_free_trailing count (walk_of_locate free)
  rw [← parts, rooted] at free
  cases present : tree.isDirectory current path with
  | false => rfl
  | true =>
    rw [isDirectory, find] at present
    cases led : tree.locate current true path with
    | error error =>
      rw [led] at present
      cases present
    | ok found =>
      have same := (walk_of_locate led).symm.trans free
      rw [led, Except.ok.inj same] at present
      cases present

theorem makeDirectory_eq (tree : FileTree) (current : Route) (path : String) :
    tree.makeDirectory current path =
      match tree.locate current false (trimmedPath path) with
      | .error error => .error error
      | .ok (.present ..) => .error .alreadyExists
      | .ok (.free place name) => .ok (tree.insert (place ++ [name]) .directory) := by
  rw [makeDirectory, trimmedPath]
  simp only [bind, Except.bind]
  split <;> rename_i led <;> rw [led]
  rename_i found
  cases found <;> rfl

theorem makeDirectory_ok {after : FileTree} (made : tree.makeDirectory current path = .ok after) :
    ∃ place name, tree.locate current false (trimmedPath path) = .ok (.free place name) ∧
      after = tree.insert (place ++ [name]) .directory := by
  rw [makeDirectory_eq] at made
  split at made
  · cases made
  · cases made
  · rename_i place name led
    exact ⟨place, name, led, (Except.ok.inj made).symm⟩

/-- A directory is made where nothing stood, or is there, or there is an error. -/
theorem ensureDirectory_cases (tree : FileTree) (current : Route) (path : String) :
    (∃ route, tree.entry? route = none ∧ tree.isDirectory current path = false ∧
        tree.ensureDirectory current path = (.ok (), tree.insert route .directory)) ∨
      tree.isDirectory current path = true ∧ tree.ensureDirectory current path = (.ok (), tree) ∨
      tree.isDirectory current path = false ∧
        ∃ error, tree.ensureDirectory current path = (.error error, tree) := by
  cases made : tree.makeDirectory current path with
  | ok after =>
    obtain ⟨place, name, led, rfl⟩ := makeDirectory_ok made
    exact .inl ⟨_, locate_free led, isDirectory_of_free led, by rw [ensureDirectory, made]⟩
  | error error =>
    cases present : tree.isDirectory current path with
    | true => exact .inr (.inl ⟨rfl, by rw [ensureDirectory, made, present]; rfl⟩)
    | false => exact .inr (.inr ⟨rfl, error, by rw [ensureDirectory, made, present]; rfl⟩)

theorem ensureDirectory_adds (tree : FileTree) (current : Route) (path : String) :
    Adds (· = .directory) tree (tree.ensureDirectory current path).2 := by
  rcases ensureDirectory_cases tree current path with
    ⟨route, free, _, made⟩ | ⟨_, kept⟩ | ⟨_, error, refused⟩
  · rw [made]
    exact .more .none free rfl
  · rw [kept]
    exact .none
  · rw [refused]
    exact .none

theorem ensureFrom_adds (current : Route) (above : List String) (path : String)
    (tree : FileTree) : Adds (· = .directory) tree (ensureFrom current above path tree).2 := by
  induction above generalizing path tree with
  | nil => exact ensureDirectory_adds tree current path
  | cons next above ih =>
    have first := ensureDirectory_adds tree current path
    rw [ensureFrom]
    split
    · rename_i middle missing
      rw [missing] at first
      have around := ih next middle
      split
      · rename_i after made
        rw [made] at around
        exact (first.trans around).trans (ensureDirectory_adds after current path)
      · exact first.trans around
    · exact first

theorem makeDirectories_adds (tree : FileTree) (current : Route) (path : String) :
    Adds (· = .directory) tree (tree.makeDirectories current path).2 := by
  rw [makeDirectories]
  split
  · exact .none
  · exact ensureFrom_adds current (Files.around path) path tree

/-- A tree that was only added to is the one it was if a directory is there in the end and the tree
is the old one again. -/
theorem Adds.eq_of_ensureDirectory {fits : Entry → Prop} {before middle : FileTree}
    (adds : Adds fits before middle)
    (ended : middle.ensureDirectory current path = (.ok (), before)) :
    middle = before ∧ before.isDirectory current path = true := by
  have back := ensureDirectory_adds middle current path
  rw [ended] at back
  obtain rfl := adds.antisymm back
  rcases ensureDirectory_cases middle current path with
    ⟨route, free, _, made⟩ | ⟨present, _⟩ | ⟨_, error, refused⟩
  · have same := (Prod.mk.inj (made.symm.trans ended)).2
    rw [insert_of_free free] at same
    exact absurd (congrArg (·.entries.length) same) (Nat.succ_ne_self _)
  · exact ⟨rfl, present⟩
  · cases refused.symm.trans ended

theorem ensureDirectory_of_isDirectory (present : tree.isDirectory current path = true) :
    tree.ensureDirectory current path = (.ok (), tree) := by
  rcases ensureDirectory_cases tree current path with
    ⟨_, _, absent, _⟩ | ⟨_, kept⟩ | ⟨absent, _⟩
  · cases absent.symm.trans present
  · exact kept
  · cases absent.symm.trans present

/-- Nothing is done about the paths around one at which a directory can be had at once. -/
theorem ensureFrom_of_ensured {after : FileTree}
    (ensured : tree.ensureDirectory current path = (.ok (), after)) (above : List String) :
    ensureFrom current above path tree = (.ok (), after) := by
  cases above with
  | nil => exact ensured
  | cons next above => rw [ensureFrom, ensured]

theorem isDirectory_of_ensureFrom {above : List String}
    (same : ensureFrom current above path tree = (.ok (), tree)) :
    tree.isDirectory current path = true := by
  cases above with
  | nil => exact ((Adds.none : Adds (· = .directory) tree tree).eq_of_ensureDirectory same).2
  | cons next above =>
    rw [ensureFrom] at same
    split at same
    · rename_i middle missing
      have first := ensureDirectory_adds tree current path
      rw [missing] at first
      split at same
      · rename_i after made
        have around := ensureFrom_adds current above next middle
        rw [made] at around
        exact ((first.trans around).eq_of_ensureDirectory same).2
      · rename_i failed
        exact absurd same (failed tree)
    · exact ((Adds.none : Adds (· = .directory) tree tree).eq_of_ensureDirectory same).2

/-- Nothing has to be made just for the empty path and for one that leads to a directory. -/
theorem makeDirectories_eq_self_iff (tree : FileTree) (current : Route) (path : String) :
    tree.makeDirectories current path = (.ok (), tree) ↔
      path.isEmpty = true ∨ tree.isDirectory current path = true := by
  rw [makeDirectories]
  split
  · rename_i unnamed
    exact ⟨fun _ => .inl unnamed, fun _ => rfl⟩
  · rename_i named
    constructor
    · intro same
      exact .inr (isDirectory_of_ensureFrom same)
    · rintro (unnamed | present)
      · exact absurd unnamed named
      · exact ensureFrom_of_ensured (ensureDirectory_of_isDirectory present) (Files.around path)

theorem makeDirectories_of_free {place : Route} {name : String} (named : path.isEmpty = false)
    (free : tree.locate current false (trimmedPath path) = .ok (.free place name)) :
    tree.makeDirectories current path = (.ok (), tree.insert (place ++ [name]) .directory) := by
  have made : tree.ensureDirectory current path =
      (.ok (), tree.insert (place ++ [name]) .directory) := by
    rw [ensureDirectory, makeDirectory_eq, free]
  rw [makeDirectories, if_neg (by simp [named])]
  exact ensureFrom_of_ensured made (Files.around path)

theorem makeDirectories_of_name (isName : IsName path)
    (free : tree.entry? (current ++ [path]) = none) :
    tree.makeDirectories current path = (.ok (), tree.insert (current ++ [path]) .directory) := by
  refine makeDirectories_of_free isName.usable.named ?_
  rw [isName.trimmedPath_eq, isName.locate_eq]
  exact walk_to_free isName free

end FileTree

end GitHistory
