import GitHistory.FileStats.Steps
import GitHistory.Proofs.FileStats.Totals
import GitHistory.Proofs.ReadBack

/-! Statistics after any mixture of steps. Each path has what the last step about it recorded
since the last start from nothing, and that alone makes the statistics: steps that come to the
same counts come to the same entries in the same order, and to the same text. -/
namespace GitHistory.FileStats

variable {steps : List Step} {step : Step} {path : String} {stat : FileStat}

/-! What a step does to a path. -/

theorem toOption_eq_some_iff {ε α : Type} {outcome : Except ε α} {value : α} :
    outcome.toOption = some value ↔ outcome = .ok value := by
  cases outcome <;> simp [Except.toOption]

/-- A text is understood as the statistics that the parser of its form gives. -/
theorem read?_eq_some_iff (text : String) (batch : FileStats) :
    (Form.lines.read? text = some batch ↔ Numstat.parseLines text = .ok batch) ∧
    (Form.fields.read? text = some batch ↔ Numstat.parseFields text = .ok batch) ∧
    (Form.json.read? text = some batch ↔ FileStats.parse text = .ok batch) :=
  ⟨toOption_eq_some_iff, toOption_eq_some_iff, toOption_eq_some_iff⟩

/-- What a step records of a path. -/
inductive Writes : Step → String → FileStat → Prop where
  | insert (path : String) (stat : FileStat) : Writes (.insert path stat) path stat
  | batch {form : Form} {text path : String} {batch : FileStats} {stat : FileStat}
      (understood : form.read? text = some batch) (listed : (path, stat) ∈ batch.entries) :
      Writes (.batch form text) path stat

/-- Whether a step leaves a path alone. -/
def Spares (step : Step) (path : String) : Prop :=
  step ≠ .clear ∧ ∀ stat, ¬ Writes step path stat

theorem writes_insert_iff {key : String} {count : FileStat} :
    Writes (.insert path stat) key count ↔ key = path ∧ count = stat := by
  constructor
  · rintro ⟨⟩
    exact ⟨rfl, rfl⟩
  · rintro ⟨rfl, rfl⟩
    exact .insert key count

theorem writes_batch_iff {form : Form} {text : String} {batch : FileStats}
    (understood : form.read? text = some batch) :
    Writes (.batch form text) path stat ↔ batch.get? path = some stat := by
  rw [← mem_entries_iff]
  constructor
  · rintro (_ | ⟨read, listed⟩)
    cases read.symm.trans understood
    exact listed
  · exact .batch understood

theorem not_writes_batch {form : Form} {text : String} (misread : form.read? text = none) :
    ¬ Writes (.batch form text) path stat := by
  rintro (_ | ⟨read, -⟩)
  cases read.symm.trans misread

/-- A step is the last one about the paths that it is about, and leaves the others alone. -/
theorem get?_apply (stats : FileStats) (step : Step) (path : String) (stat : FileStat) :
    (stats.apply step).get? path = some stat ↔
      Writes step path stat ∨ stats.get? path = some stat ∧ Spares step path := by
  cases step with
  | insert key count =>
    rw [apply, get?_insert, writes_insert_iff]
    by_cases same : path = key
    · simp [Spares, writes_insert_iff, same, eq_comm]
    · simp [Spares, writes_insert_iff, same]
  | batch form text =>
    cases understood : form.read? text with
    | none => simp [apply, understood, Spares, not_writes_batch understood]
    | some batch =>
      simp only [apply, understood, get?_insertAll_entries, Spares, writes_batch_iff understood]
      cases batch.get? path <;> simp
  | clear =>
    have nothing : empty.get? path = none := rfl
    have unwritten : ¬ Writes .clear path stat := nofun
    simp [apply, nothing, unwritten, Spares]

/-! Whole runs. -/

/-- The count that the last step about a path records of it, if none has started anew since. -/
def IsLatest (steps : List Step) (path : String) (stat : FileStat) : Prop :=
  ∃ before step rest, steps = before ++ step :: rest ∧ Writes step path stat ∧
    ∀ later ∈ rest, Spares later path

theorem isLatest_concat :
    IsLatest (steps ++ [step]) path stat ↔
      Writes step path stat ∨ IsLatest steps path stat ∧ Spares step path := by
  constructor
  · rintro ⟨before, last, rest, parted, writes, spared⟩
    rcases List.eq_nil_or_concat rest with rfl | ⟨front, final, rfl⟩
    · obtain ⟨rfl, ends⟩ := List.append_inj' parted rfl
      cases ends
      exact .inl writes
    · rw [List.concat_eq_append] at spared
      rw [List.concat_eq_append, ← List.cons_append, ← List.append_assoc] at parted
      obtain ⟨rfl, ends⟩ := List.append_inj' parted rfl
      cases ends
      refine .inr ⟨⟨before, last, front, rfl, writes, fun later member => ?_⟩, ?_⟩
      · exact spared later (List.mem_append_left _ member)
      · exact spared step (List.mem_append_right _ List.mem_cons_self)
  · rintro (writes | ⟨⟨before, last, rest, rfl, writes, spared⟩, spares⟩)
    · exact ⟨steps, step, [], rfl, writes, fun later member => absurd member List.not_mem_nil⟩
    · refine ⟨before, last, rest ++ [step], by simp, writes, fun later member => ?_⟩
      rcases List.mem_append.mp member with inside | final
      · exact spared later inside
      · exact List.mem_singleton.mp final ▸ spares

theorem after_concat (steps : List Step) (step : Step) :
    after (steps ++ [step]) = (after steps).apply step := by
  rw [after, List.foldl_append]
  rfl

theorem get?_after (steps : List Step) (path : String) (stat : FileStat) :
    (after steps).get? path = some stat ↔ IsLatest steps path stat := by
  induction steps using List.reverseRecOn with
  | nil =>
    constructor
    · intro found
      cases found
    · rintro ⟨before, step, rest, parted, -⟩
      cases before <;> cases parted
  | append_singleton steps step ih => rw [after_concat, get?_apply, isLatest_concat, ih]

/-- A batch that is not understood might as well not be there. -/
theorem after_misread {form : Form} {text : String} (misread : form.read? text = none)
    (before rest : List Step) :
    after (before ++ .batch form text :: rest) = after (before ++ rest) := by
  have kept (stats : FileStats) : stats.apply (.batch form text) = stats := by
    rw [apply, misread]
  rw [after, after, List.foldl_append, List.foldl_append, List.foldl_cons, kept]

/-! What there is after a run. -/

/-- Statistics that hold what some steps recorded: every path once, in the order of its bytes, with
its latest count. -/
structure Keeps (steps : List Step) (stats : FileStats) : Prop where
  ascending : stats.entries.Pairwise fun first second => PathBefore first.1 second.1
  once : (stats.entries.map Prod.fst).Nodup
  entries : ∀ path stat, (path, stat) ∈ stats.entries ↔ IsLatest steps path stat
  get? : ∀ path stat, stats.get? path = some stat ↔ IsLatest steps path stat
  size : ∀ paths : List String, paths.Nodup →
    (∀ path, path ∈ paths ↔ ∃ stat, IsLatest steps path stat) → stats.size = paths.length
  isEmpty : stats.isEmpty = true ↔ ∀ path stat, ¬ IsLatest steps path stat
  binaryFiles : stats.binaryFiles.Pairwise PathBefore ∧
    ∀ path, path ∈ stats.binaryFiles ↔ IsLatest steps path .binary

theorem keeps_after (steps : List Step) : Keeps steps (after steps) := by
  have entries : ∀ path stat, (path, stat) ∈ (after steps).entries ↔ IsLatest steps path stat :=
    fun path stat => (mem_entries_iff _).trans (get?_after steps path stat)
  have once := nodup_paths_of_ascending (after steps).ascending
  refine ⟨(after steps).ascending, once, entries, get?_after steps, ?_, ?_,
    binaryFiles_ascending _, fun path => (mem_binaryFiles_iff _ path).trans
      (get?_after steps path .binary)⟩
  · intro paths distinct named
    have perm : ((after steps).entries.map Prod.fst).Perm paths := by
      refine (List.perm_ext_iff_of_nodup once distinct).mpr fun path => ?_
      simp [named, entries]
    rw [FileStats.size, ← perm.length_eq, List.length_map]
  · rw [FileStats.isEmpty, List.isEmpty_iff, List.eq_nil_iff_forall_not_mem]
    simp [entries]

theorem render_injective {first second : FileStats}
    (same : first.toJson.render = second.toJson.render) : first = second := by
  have read := roundTrips first _ (.same _)
  rw [same, roundTrips second _ (.same _)] at read
  exact (Except.ok.inj read).symm

/-- After any steps the statistics hold what these recorded and nothing else, and a batch that is
not understood, because the parser of its form refuses it, has no part in that. Two runs come to the
same statistics, and to the same text, just when they come to the same count of every path. -/
theorem after_canonical :
    (∀ text batch,
      (Form.lines.read? text = some batch ↔ Numstat.parseLines text = .ok batch) ∧
      (Form.fields.read? text = some batch ↔ Numstat.parseFields text = .ok batch) ∧
      (Form.json.read? text = some batch ↔ FileStats.parse text = .ok batch)) ∧
    (∀ steps, Keeps steps (after steps)) ∧
    (∀ before form text rest, form.read? text = none →
      after (before ++ .batch form text :: rest) = after (before ++ rest)) ∧
    ∀ first second,
      (after first = after second ↔ ∀ path, (after first).get? path = (after second).get? path) ∧
      ((after first).toJson.render = (after second).toJson.render ↔
        ∀ path, (after first).get? path = (after second).get? path) := by
  refine ⟨read?_eq_some_iff, keeps_after,
    fun before form text rest misread => after_misread misread before rest,
    fun first second => ⟨⟨fun same _ => by rw [same], eq_of_get?⟩, ?_, fun same => ?_⟩⟩
  · intro same path
    rw [render_injective same]
  · rw [eq_of_get? same]

/-- A line without tabs among other steps, and two orders in which two counts can come. -/
theorem after_canonical_samples :
    after [.insert "a" .binary, .batch .lines "3 1 a", .batch .json "\x7b\x7d"] =
      after [.insert "a" .binary, .batch .json "\x7b\x7d"] ∧
    (after [.batch .lines "-\t-\ta\n1\t2\tb\n", .insert "a" (.text 3 0)]).toJson.render =
      (after [.insert "c" .binary, .clear, .insert "a" (.text 3 0),
        .batch .fields "1\t2\tb\x00"]).toJson.render := by
  obtain ⟨-, -, misread, same⟩ := after_canonical
  have unread : Form.lines.read? "3 1 a" = none := by decide +kernel
  have first : after [.batch .lines "-\t-\ta\n1\t2\tb\n", .insert "a" (.text 3 0)] =
      ofList [("a", .text 3 0), ("b", .text 1 2)] := by decide +kernel
  have second : after [.insert "c" .binary, .clear, .insert "a" (.text 3 0),
      .batch .fields "1\t2\tb\x00"] = ofList [("a", .text 3 0), ("b", .text 1 2)] := by
    decide +kernel
  exact ⟨misread [.insert "a" .binary] .lines "3 1 a" [.batch .json "\x7b\x7d"] unread,
    (same _ _).2.mpr fun path => by rw [first, second]⟩

end GitHistory.FileStats
