import GitHistory.Commit.Fragment
import GitHistory.Proofs.Commit.Fragment
import GitHistory.Proofs.Text.Trimmed

/-! Streams of JSON values, each behind a separator of its own: decoding takes all of them as
fragments or none. -/
namespace GitHistory

open Json (Document Laid Gap writtenItems leadingComma)
open Json.Reader

/-- Values as git's output carries them, each with a separator behind it. -/
def streamOf (values : List (Laid Document)) : List Char :=
  values.flatMap fun value =>
    value.before.chars ++ (value.value.written ++ (value.after.chars ++ [fragmentSeparator]))

theorem separator_streamOf (values : List (Laid Document)) :
    fragmentSeparator :: streamOf values = writtenItems false values ++ [fragmentSeparator] := by
  induction values with
  | nil => simp [streamOf, writtenItems]
  | cons value rest ih =>
    simpa [streamOf, writtenItems, leadingComma, fragmentSeparator] using ih

/-- Without its last separator, a stream is the inside of a list. -/
theorem streamOf_cons (value : Laid Document) (rest : List (Laid Document)) :
    streamOf (value :: rest) = writtenItems true (value :: rest) ++ [fragmentSeparator] := by
  have separated := separator_streamOf (value :: rest)
  have leading : writtenItems false (value :: rest) =
      fragmentSeparator :: writtenItems true (value :: rest) := rfl
  rw [leading, List.cons_append] at separated
  exact (List.cons.inj separated).2

theorem isBlank_of_isLineEnd {c : Char} (lineEnd : isLineEnd c = true) :
    Text.isBlank c = true := by
  simp only [isLineEnd, Bool.or_eq_true, beq_iff_eq] at lineEnd
  rcases lineEnd with rfl | rfl <;> decide

theorem isBlankText_trimEnd (text : List Char) :
    Text.isBlankText (Text.trimEnd isLineEnd text) = Text.isBlankText text := by
  obtain ⟨ending, parted, lineEnds⟩ := Text.exists_trimEnd isLineEnd text
  have blank : ending.all Text.isBlank = true :=
    List.all_eq_true.mpr fun c member => isBlank_of_isLineEnd (lineEnds c member)
  conv => rhs; rw [parted]
  rw [Text.isBlankText, Text.isBlankText, List.all_append, blank, Bool.and_true]

theorem repairFragments_blank {raw : String} (blank : Text.isBlankText raw.toList = true) :
    repairFragments raw = .ok none := by
  rw [repairFragments]
  simp only [isBlankText_trimEnd, blank, if_true]

/-- A text with a separator behind it becomes a list. -/
theorem repairFragments_separated (inner ending : List Char)
    (lineEnds : ∀ c ∈ ending, isLineEnd c = true) :
    repairFragments (String.ofList (inner ++ fragmentSeparator :: ending)) =
      .ok (some (String.ofList ('[' :: (inner ++ [']'])))) := by
  have trimmed : Text.trimEnd isLineEnd (inner ++ fragmentSeparator :: ending) =
      inner ++ [fragmentSeparator] := by
    rw [List.append_cons, Text.trimEnd_append lineEnds, Text.trimEnd_concat (by decide)]
  have solid : Text.isBlankText (inner ++ [fragmentSeparator]) = false := by
    have separator : Text.isBlank fragmentSeparator = false := by decide
    simp [Text.isBlankText, separator]
  simp only [repairFragments, String.toList_ofList, trimmed, solid]
  simp

theorem repairFragments_error {raw : String} {failure : GitError}
    (refused : repairFragments raw = .error failure) : ∃ reason, failure = .decode reason := by
  simp only [repairFragments] at refused
  split at refused
  · cases refused
  · split at refused
    · split at refused
      · cases refused
      · exact ⟨_, (Except.error.inj refused).symm⟩
    · cases refused

theorem repairFragments_stream (value : Laid Document) (rest : List (Laid Document))
    {ending : List Char} (lineEnds : ∀ c ∈ ending, isLineEnd c = true) :
    repairFragments (String.ofList (streamOf (value :: rest) ++ ending)) =
      .ok (some (String.ofList ('[' :: (writtenItems true (value :: rest) ++ [']'])))) := by
  rw [streamOf_cons, List.append_assoc, List.singleton_append,
    repairFragments_separated _ _ lineEnds]

/-! Decoding. -/

/-- The record that a fragment describes; it has to have a hash. -/
def fragment? (document : Document) : Option LogRecord :=
  (record? document).filter fun entry => !entry.hash.isEmpty

theorem accept?_logRecords_list (text : List Char) :
    accept? logRecords ('[' :: text) =
      accept? (elementsFrom LogRecord.reader (text.length + 1) true []) text := by
  simp [logRecords, valueToken, Json.isSpace]
  rfl

theorem accept?_logRecords (inner : Gap) (values : List (Laid Document)) :
    accept? logRecords ('[' :: (inner.chars ++ (writtenItems true values ++ [']']))) =
      (values.mapM fun value => record? value.value).map (·, []) := by
  rw [accept?_logRecords_list]
  exact accept?_elements reads_logRecord inner values []

/-- The commits of records that all have a hash. -/
theorem mapM_commitOf (checkoutPath : String) (entries : List LogRecord) :
    entries.mapM (commitOf checkoutPath) =
      if entries.all fun entry => !entry.hash.isEmpty then
        .ok (entries.map (Commit.ofRecord checkoutPath))
      else .error (.decode "fragment has an empty commit hash") := by
  induction entries with
  | nil => rfl
  | cons entry rest ih =>
    rw [List.mapM_cons, ih, commitOf]
    by_cases empty : entry.hash.isEmpty = true
    · simp [empty]
      rfl
    · simp [empty]
      split <;> rfl

theorem mapM_eq_some_iff {α β : Type} {meaning : α → Option β} {values : List α}
    {results : List β} :
    values.mapM meaning = some results ↔ values.map meaning = results.map some := by
  induction values generalizing results with
  | nil => cases results <;> simp
  | cons value rest ih =>
    rw [List.mapM_cons]
    cases found : meaning value with
    | none => cases results <;> simp [found]
    | some result =>
      cases results with
      | nil => cases rest.mapM meaning <;> simp
      | cons first more =>
        rw [List.map_cons, List.map_cons, List.cons.injEq, ← ih, found]
        cases rest.mapM meaning <;> simp

theorem mapM_eq_none_iff {α β : Type} {meaning : α → Option β} {values : List α} :
    values.mapM meaning = none ↔ ∃ value ∈ values, meaning value = none := by
  induction values with
  | nil => simp
  | cons value rest ih =>
    rw [List.mapM_cons]
    cases found : meaning value with
    | none => simp [found]
    | some result =>
      simp only [List.mem_cons, exists_eq_or_imp, found, ← ih]
      cases rest.mapM meaning <;> simp

theorem mapM_fragment? (values : List (Laid Document)) :
    (values.mapM fun value => fragment? value.value) =
      (values.mapM fun value => record? value.value).filter fun entries =>
        entries.all fun entry => !entry.hash.isEmpty := by
  induction values with
  | nil => rfl
  | cons value rest ih =>
    rw [List.mapM_cons, List.mapM_cons, ih, fragment?]
    cases record? value.value with
    | none => rfl
    | some entry =>
      cases rest.mapM fun value => record? value.value with
      | none => simp
      | some entries =>
        by_cases empty : entry.hash.isEmpty = true
        · simp [Option.filter, empty]
        · simp [Option.filter, empty]
          split <;> rfl

theorem decodeLog_closed {raw list : String} (repaired : repairFragments raw = .ok (some list))
    (checkoutPath : String) :
    decodeLog raw checkoutPath =
      match parse logRecords list.toList with
      | .error failure => .error (.decode (failure.message list.toList))
      | .ok entries => entries.mapM (commitOf checkoutPath) := by
  rw [decodeLog, repaired]
  rfl

/-- Decoding has one kind of failure. -/
theorem decodeLog_ok_or_decode (raw checkoutPath : String) :
    (∃ commits, decodeLog raw checkoutPath = .ok commits) ∨
      ∃ reason, decodeLog raw checkoutPath = .error (.decode reason) := by
  cases repaired : repairFragments raw with
  | error failure =>
    obtain ⟨reason, rfl⟩ := repairFragments_error repaired
    exact .inr ⟨reason, by rw [decodeLog, repaired]; rfl⟩
  | ok list =>
    cases list with
    | none => exact .inl ⟨[], by rw [decodeLog, repaired]; rfl⟩
    | some list =>
      rw [decodeLog_closed repaired]
      cases parse logRecords list.toList with
      | error failure => exact .inr ⟨_, rfl⟩
      | ok entries =>
        simp only [mapM_commitOf]
        split
        · exact .inl ⟨_, rfl⟩
        · exact .inr ⟨_, rfl⟩

/-- What decoding makes of a stream, with line ends behind it. -/
theorem decodeLog_stream (values : List (Laid Document)) (ending : List Char)
    (lineEnds : ∀ c ∈ ending, isLineEnd c = true) (checkoutPath : String) :
    match values.mapM fun value => fragment? value.value with
    | some entries =>
      decodeLog (String.ofList (streamOf values ++ ending)) checkoutPath =
        .ok (entries.map (Commit.ofRecord checkoutPath))
    | none => ∃ reason,
      decodeLog (String.ofList (streamOf values ++ ending)) checkoutPath =
        .error (.decode reason) := by
  cases values with
  | nil =>
    have blank : Text.isBlankText (String.ofList ending).toList = true := by
      rw [String.toList_ofList, Text.isBlankText_iff]
      exact fun c member => isBlank_of_isLineEnd (lineEnds c member)
    simp only [streamOf, List.flatMap_nil, List.nil_append, decodeLog, repairFragments_blank blank]
    rfl
  | cons value rest =>
    rw [mapM_fragment?, decodeLog_closed (repairFragments_stream value rest lineEnds),
      String.toList_ofList]
    cases described : (value :: rest).mapM fun value => record? value.value with
    | none =>
      have rejected := accept?_logRecords Gap.none (value :: rest)
      rw [Gap.none_chars, List.nil_append, described] at rejected
      obtain ⟨failure, refused⟩ := exists_parse_eq_error rejected
      rw [refused]
      exact ⟨_, rfl⟩
    | some entries =>
      have accepted := accept?_logRecords Gap.none (value :: rest)
      rw [Gap.none_chars, List.nil_append, described] at accepted
      rw [parse_eq_ok accepted]
      simp only [mapM_commitOf, Option.filter]
      by_cases hashes : (entries.all fun entry => !entry.hash.isEmpty) = true
      · simp [hashes]
      · simp [hashes]

/-- A stream is decoded just when each of its values is a fragment, into the commits of these
fragments in order; otherwise the whole of it is refused. -/
theorem decodeLog_accepts_fragments (values : List (Laid Document)) (checkoutPath : String) :
    (∀ commits, decodeLog (String.ofList (streamOf values)) checkoutPath = .ok commits ↔
      ∃ entries : List LogRecord,
        (values.map fun value => fragment? value.value) = entries.map some ∧
        commits = entries.map (Commit.ofRecord checkoutPath)) ∧
    ((∃ commits, decodeLog (String.ofList (streamOf values)) checkoutPath = .ok commits) ↔
      ∀ value ∈ values, fragment? value.value ≠ none) ∧
    ((∃ reason, decodeLog (String.ofList (streamOf values)) checkoutPath =
        .error (.decode reason)) ↔
      ∃ value ∈ values, fragment? value.value = none) := by
  have decoded := decodeLog_stream values [] (by simp) checkoutPath
  have every : (∀ value ∈ values, fragment? value.value ≠ none) ↔
      ¬ (values.mapM fun value => fragment? value.value) = none := by
    rw [mapM_eq_none_iff]
    simp
  rw [List.append_nil] at decoded
  rw [every]
  simp only [← mapM_eq_some_iff, ← mapM_eq_none_iff]
  cases described : values.mapM fun value => fragment? value.value with
  | none =>
    obtain ⟨reason, refused⟩ := by simpa [described] using decoded
    simp [refused]
  | some entries =>
    have accepted : decodeLog (String.ofList (streamOf values)) checkoutPath =
        .ok (entries.map (Commit.ofRecord checkoutPath)) := by simpa [described] using decoded
    simp [accepted, eq_comm]

end GitHistory
