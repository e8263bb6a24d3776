import Mathlib.Data.List.TakeWhile
import GitHistory.Proofs.FileStats.Numstat

/-! A text in NUL-separated fields that is read in pieces. A record may take up three fields, yet
none of them is left to what comes behind: a text that is understood and ends with a NUL character
consists of whole records, and reading goes on behind it as if it had just begun. -/
namespace GitHistory.Numstat

/-- Fields that make up whole records, and the counts that these are. -/
inductive Gives : List (List Char) → List (String × FileStat) → Prop where
  | none : Gives [] []
  | blank {field : List Char} {fields : List (List Char)} {entries : List (String × FileStat)}
      (lineEnds : ∀ c ∈ field, c = '\n') (more : Gives fields entries) :
      Gives (field :: fields) entries
  | plain {field path : List Char} {stat : FileStat} {fields : List (List Char)}
      {entries : List (String × FileStat)}
      (recorded : record (field.dropWhile (· == '\n')) = .ok (stat, path)) (named : path ≠ [])
      (more : Gives fields entries) :
      Gives (field :: fields) ((String.ofList path, stat) :: entries)
  | rename {field old new : List Char} {stat : FileStat} {fields : List (List Char)}
      {entries : List (String × FileStat)}
      (recorded : record (field.dropWhile (· == '\n')) = .ok (stat, [])) (named : new ≠ [])
      (more : Gives fields entries) :
      Gives (field :: old :: new :: fields) ((String.ofList new, stat) :: entries)

variable {fields rest : List (List Char)} {field : List Char}
  {entries : List (String × FileStat)}

/-- Behind whole records reading goes on as if it had just begun. -/
theorem Gives.fieldEntries_append (gives : Gives fields entries) (rest : List (List Char)) :
    fieldEntries (fields ++ rest) = (fieldEntries rest).map (entries ++ ·) := by
  induction gives with
  | none =>
    rw [List.nil_append]
    cases fieldEntries rest <;> rfl
  | blank lineEnds _ ih => rw [List.cons_append, fieldEntries_blank lineEnds, ih]
  | plain recorded named _ ih =>
    rw [List.cons_append, fieldEntries_plain recorded named, ih]
    cases fieldEntries rest <;> rfl
  | rename recorded named _ ih =>
    rw [List.cons_append, List.cons_append, List.cons_append, fieldEntries_rename recorded named,
      ih]
    cases fieldEntries rest <;> rfl

theorem exists_of_map {α β : Type} {outcome : Except GitError α} {use : α → β} {result : β}
    (mapped : outcome.map use = .ok result) :
    ∃ found, outcome = .ok found ∧ result = use found := by
  cases outcome with
  | error => cases mapped
  | ok found => exact ⟨found, rfl, (Except.ok.inj mapped).symm⟩

/-- What the first field can be if the fields are understood. -/
theorem cases_of_fieldEntries (understood : fieldEntries (field :: rest) = .ok entries) :
    ((∀ c ∈ field, c = '\n') ∧ fieldEntries rest = .ok entries) ∨
    (∃ path stat more, record (field.dropWhile (· == '\n')) = .ok (stat, path) ∧ path ≠ [] ∧
      fieldEntries rest = .ok more ∧ entries = (String.ofList path, stat) :: more) ∨
    ∃ old new stat behind more, record (field.dropWhile (· == '\n')) = .ok (stat, []) ∧
      new ≠ [] ∧ rest = old :: new :: behind ∧ fieldEntries behind = .ok more ∧
      entries = (String.ofList new, stat) :: more := by
  by_cases lineEnds : ∀ c ∈ field, c = '\n'
  · rw [fieldEntries_blank lineEnds] at understood
    exact .inl ⟨lineEnds, understood⟩
  · have solid : (field.dropWhile (· == '\n')).isEmpty = false := by
      simpa using lineEnds
    cases recorded : record (field.dropWhile (· == '\n')) with
    | error error =>
      rw [fieldEntries, solid, recorded] at understood
      cases understood
    | ok counted =>
      obtain ⟨stat, path⟩ := counted
      by_cases named : path = []
      · subst named
        rcases rest with _ | ⟨old, _ | ⟨new, behind⟩⟩
        · rw [fieldEntries, solid, recorded] at understood
          cases understood
        · rw [fieldEntries, solid, recorded] at understood
          cases understood
        · by_cases named : new = []
          · rw [fieldEntries, solid, recorded, named] at understood
            cases understood
          · rw [fieldEntries_rename recorded named] at understood
            obtain ⟨more, read, listed⟩ := exists_of_map understood
            exact .inr (.inr ⟨old, new, stat, behind, more, rfl, named, rfl, read, listed⟩)
      · rw [fieldEntries_plain recorded named] at understood
        obtain ⟨more, read, listed⟩ := exists_of_map understood
        exact .inr (.inl ⟨path, stat, more, rfl, named, read, listed⟩)

/-- Fields that are understood, the last of them empty, are whole records before it. No rename takes
the last one: behind that there is no new path, and it is none itself. -/
theorem gives_of_fieldEntries (understood : fieldEntries (fields ++ [[]]) = .ok entries) :
    Gives fields entries := by
  induction size : fields.length using Nat.strongRecOn generalizing fields entries with
  | _ count ih =>
    subst size
    match fields with
    | [] =>
      cases understood
      exact .none
    | field :: rest =>
      rcases cases_of_fieldEntries understood with ⟨lineEnds, read⟩ |
        ⟨path, stat, more, recorded, named, read, rfl⟩ |
        ⟨old, new, stat, behind, more, recorded, named, parted, read, rfl⟩
      · exact .blank lineEnds (ih _ (by simp) read rfl)
      · exact .plain recorded named (ih _ (by simp) read rfl)
      · match rest with
        | [] => cases parted
        | [last] =>
          cases parted
          exact (named rfl).elim
        | first :: second :: others =>
          cases parted
          have fewer : others.length < (field :: old :: new :: others).length := by
            simp only [List.length_cons]
            omega
          exact .rename recorded named (ih _ fewer read rfl)

/-- A text that is empty or ends with a separator leaves nothing of it to be cut together with what
comes behind. -/
theorem exists_fields {separator : Char} {front : List Char}
    (ended : front = [] ∨ front.getLast? = some separator) :
    ∃ fields, ∀ rest, Text.splitOn separator (front ++ rest) =
      fields ++ Text.splitOn separator rest := by
  rcases ended with rfl | last
  · exact ⟨[], fun _ => rfl⟩
  · obtain ⟨before, rfl⟩ := List.getLast?_eq_some_iff.mp last
    refine ⟨Text.splitOn separator before, fun rest => ?_⟩
    rw [List.append_assoc, List.singleton_append, Text.splitOn_append_cons]

/-- What is understood up to a NUL character is read apart from what stands behind it: together they
are what the first part gives with the second recorded over it, or fail as the second does. -/
theorem parseFields_append {first : String} {stats : FileStats}
    (ended : first = "" ∨ first.toList.getLast? = some '\x00')
    (understood : parseFields first = .ok stats) (second : String) :
    (∀ more, parseFields second = .ok more →
      parseFields (first ++ second) = .ok (stats.insertAll more.entries) ∧
      ∀ path, (stats.insertAll more.entries).get? path = (more.get? path).or (stats.get? path)) ∧
    ∀ error, parseFields second = .error error →
      parseFields (first ++ second) = .error error := by
  have cut : first.toList = [] ∨ first.toList.getLast? = some '\x00' :=
    ended.imp (fun empty => by rw [empty]; rfl) id
  obtain ⟨fields, parted⟩ := exists_fields cut
  have whole := parted []
  rw [List.append_nil] at whole
  rw [parseFields, whole] at understood
  obtain ⟨entries, read, rfl⟩ := exists_of_map understood
  have joined : parseFields (first ++ second) =
      ((fieldEntries (Text.splitOn '\x00' second.toList)).map (entries ++ ·)).map
        FileStats.ofList := by
    rw [parseFields, String.toList_append, parted,
      (gives_of_fieldEntries read).fieldEntries_append]
  constructor
  · intro more reading
    obtain ⟨behind, found, rfl⟩ := exists_of_map reading
    refine ⟨?_, fun path => FileStats.get?_insertAll_entries path _ _⟩
    rw [joined, found, ← FileStats.ofList_append]
    rfl
  · intro error failing
    cases found : fieldEntries (Text.splitOn '\x00' second.toList) with
    | ok behind =>
      rw [parseFields, found] at failing
      cases failing
    | error cause =>
      rw [parseFields, found] at failing
      cases failing
      rw [joined, found]
      rfl

/-- A rename at the end of the first part, and behind it a whole record of its new path or the
beginning of another rename. -/
theorem parseFields_append_rename :
    let first := "3\t1\t\x00old\x00new\x00\n\x00"
    parseFields (first ++ "-\t-\tnew\x00") = .ok (.ofList [("new", .binary)]) ∧
    ∃ reason, parseFields (first ++ "3\t1\t\x00old") = .error (.decode reason) := by
  have understood : parseFields "3\t1\t\x00old\x00new\x00\n\x00" =
      .ok (.ofList [("new", .text 3 1)]) := by decide +kernel
  obtain ⟨read, -⟩ := parseFields_append (.inr (by decide)) understood "-\t-\tnew\x00"
  obtain ⟨-, failed⟩ := parseFields_append (.inr (by decide)) understood "3\t1\t\x00old"
  have replacing : parseFields "-\t-\tnew\x00" = .ok (.ofList [("new", .binary)]) := by
    decide +kernel
  have unfinished : parseFields "3\t1\t\x00old" =
      .error (.decode "rename record without paths: \"3\\t1\\t\"") := by decide +kernel
  refine ⟨(read _ replacing).1.trans ?_, _, failed _ unfinished⟩
  decide +kernel

end GitHistory.Numstat
