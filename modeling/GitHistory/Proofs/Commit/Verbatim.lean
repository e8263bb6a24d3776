import GitHistory.Proofs.Commit.Expansion

/-! Batches of records as git prints them, one to a line and with nothing escaped. A quote or a
backslash in a field need not break its batch: the batch may be decoded as other commits. -/
namespace GitHistory

open Json (Reader Document Gap isPlain isSpace)
open Json.Reader

/-- What git prints for a history query. -/
def printedLog (entries : List LogRecord) : String :=
  "\n".intercalate (entries.map LogRecord.expand)

/-- Fragments inside a list, each on a line of its own. -/
def lineItems (first : Bool) : List LogRecord → List Char → List Char
  | [], tail => tail
  | entry :: rest, tail =>
    (if first then [] else [fragmentSeparator, '\n']) ++
      fragmentText entry (lineItems false rest tail)

theorem fragmentText_append (entry : LogRecord) (rest tail : List Char) :
    fragmentText entry rest ++ tail = fragmentText entry (rest ++ tail) := by
  simp [fragmentText, committerText, messageText, verbatimMember]

theorem lineItems_append (first : Bool) (entries : List LogRecord) (inner tail : List Char) :
    lineItems first entries inner ++ tail = lineItems first entries (inner ++ tail) := by
  induction entries generalizing first with
  | nil => rfl
  | cons entry rest ih => simp [lineItems, fragmentText_append, ih]

theorem separator_lines (rest : List LogRecord) :
    fragmentSeparator :: rest.flatMap (fun entry => '\n' :: entry.expand.toList) =
      lineItems false rest [fragmentSeparator] := by
  induction rest with
  | nil => rfl
  | cons entry rest ih => simp [lineItems, expand_append, ih]

theorem toList_printed_cons (entry : LogRecord) (rest : List LogRecord) :
    (printedLog (entry :: rest)).toList =
      entry.expand.toList ++ rest.flatMap fun entry => '\n' :: entry.expand.toList := by
  induction rest generalizing entry with
  | nil => simp [printedLog]
  | cons next rest ih =>
    have tail := ih next
    simp only [printedLog, List.map_cons] at tail ⊢
    rw [String.intercalate_cons_cons, String.toList_append, String.toList_append, tail]
    simp

/-- A printed batch is the inside of a list with a separator behind it. -/
theorem printed_cons (entry : LogRecord) (rest : List LogRecord) :
    (printedLog (entry :: rest)).toList =
      lineItems true (entry :: rest) [] ++ [fragmentSeparator] := by
  rw [toList_printed_cons, expand_append, separator_lines, lineItems_append]
  rfl

/-! Reading a batch back. -/

theorem accept?_nextElement_fragment (first : Bool) (entry : LogRecord) (rest : List Char) :
    accept? (nextElement first)
        ((if first then [] else [fragmentSeparator, '\n']) ++ fragmentText entry rest) =
      some (true, fragmentText entry rest) := by
  have line (text : List Char) : Json.dropSpace ('\n' :: text) = Json.dropSpace text := rfl
  cases first <;> simp [nextElement, fragmentText, fragmentSeparator, line, isSpace]

theorem exists_append_of_elementsFrom {α : Type} {read : Reader α} {turns : Nat} {first : Bool}
    {done : List α} {text : List Char} {taken : List α × List Char}
    (accepted : accept? (elementsFrom read turns first done) text = some taken) :
    ∃ more, taken.1 = done.reverse ++ more := by
  induction turns generalizing first done text with
  | zero => simp [elementsFrom] at accepted
  | succ turns ih =>
    simp only [elementsFrom, accept?_bind, Option.bind_eq_some_iff] at accepted
    obtain ⟨⟨more, text⟩, _, accepted⟩ := accepted
    cases more with
    | false =>
      simp at accepted
      exact ⟨[], by simp [← accepted]⟩
    | true =>
      simp only [if_true, accept?_bind, Option.bind_eq_some_iff] at accepted
      obtain ⟨⟨value, text⟩, _, accepted⟩ := accepted
      obtain ⟨more, same⟩ := ih accepted
      exact ⟨value :: more, by simpa using same⟩

/-- A batch that is read as its own commits is plain, and so is one without quotes and
backslashes that is read at all. -/
theorem plain_of_elementsFrom {checkoutPath : String} {entries : List LogRecord} {turns : Nat}
    {first : Bool} {done : List LogRecord} {taken : List LogRecord × List Char}
    (accepted : accept? (elementsFrom LogRecord.reader turns first done)
      (lineItems first entries [']']) = some taken)
    (faithful : taken.1.map (Commit.ofRecord checkoutPath) =
        (done.reverse ++ entries).map (Commit.ofRecord checkoutPath) ∨
      ∀ entry ∈ entries, entry.Unescaped) :
    ∀ entry ∈ entries, entry.Plain := by
  induction entries generalizing turns first done with
  | nil => simp
  | cons entry rest ih =>
    cases turns with
    | zero => simp [elementsFrom] at accepted
    | succ turns =>
      simp only [lineItems, elementsFrom, accept?_bind, accept?_nextElement_fragment,
        Option.bind_some, if_true, Option.bind_eq_some_iff] at accepted
      obtain ⟨⟨read, left⟩, found, going⟩ := accepted
      obtain ⟨more, collected⟩ := exists_append_of_elementsFrom going
      have inTurn := record_taken found
      rcases faithful with same | clean
      · have split : Commit.ofRecord checkoutPath read = Commit.ofRecord checkoutPath entry := by
          rw [collected] at same
          simp at same
          exact same.1
        obtain ⟨plain, ended⟩ := plain_of_ofRecord_eq inTurn split
        subst ended
        refine List.forall_mem_cons.mpr ⟨plain, ih going (.inl ?_)⟩
        simpa [split] using same
      · obtain ⟨plain, ended⟩ := plain_of_unescaped inTurn (clean entry (by simp))
        subst ended
        exact List.forall_mem_cons.mpr ⟨plain, ih going (.inr fun entry member =>
          clean entry (by simp [member]))⟩

theorem exists_elements_of_decodeLog {entry : LogRecord} {rest : List LogRecord}
    {checkoutPath : String} {commits : List Commit}
    (decoded : decodeLog (printedLog (entry :: rest)) checkoutPath = .ok commits) :
    ∃ turns taken, accept? (elementsFrom LogRecord.reader turns true [])
        (lineItems true (entry :: rest) [']']) = some taken ∧
      commits = taken.1.map (Commit.ofRecord checkoutPath) := by
  have repaired := repairFragments_separated (lineItems true (entry :: rest) []) [] (by simp)
  rw [← printed_cons, String.ofList_toList, lineItems_append, List.nil_append] at repaired
  rw [decodeLog_closed repaired, String.toList_ofList] at decoded
  cases parsed : parse logRecords ('[' :: lineItems true (entry :: rest) [']']) with
  | error failure => simp [parsed] at decoded
  | ok entries =>
    obtain ⟨left, taken, -⟩ := exists_accept?_of_parse parsed
    rw [accept?_logRecords_list] at taken
    simp only [parsed, mapM_commitOf] at decoded
    split at decoded
    · exact ⟨_, _, taken, (Except.ok.inj decoded).symm⟩
    · cases decoded

/-! Batches of plain records. -/

theorem exists_written_lines {entries : List LogRecord}
    (plain : ∀ entry ∈ entries, entry.Plain) :
    ∃ records : List WrittenRecord, records.map WrittenRecord.entry = entries ∧
      records.flatMap WrittenRecord.written =
        entries.flatMap fun entry => '\n' :: entry.expand.toList := by
  induction entries with
  | nil => exact ⟨[], rfl, rfl⟩
  | cons entry rest ih =>
    obtain ⟨shown, later⟩ := List.forall_mem_cons.mp plain
    obtain ⟨records, entries, written⟩ := ih later
    refine
      ⟨.plain ⟨['\n'], by simp [Json.isSpace]⟩ entry shown :: records, by simp [entries]; rfl, ?_⟩
    simp [written, WrittenRecord.plain_written]

theorem exists_written_printed {entries : List LogRecord}
    (plain : ∀ entry ∈ entries, entry.Plain) :
    ∃ records : List WrittenRecord, records.map WrittenRecord.entry = entries ∧
      records.flatMap WrittenRecord.written = (printedLog entries).toList := by
  cases entries with
  | nil => exact ⟨[], rfl, rfl⟩
  | cons entry rest =>
    obtain ⟨shown, later⟩ := List.forall_mem_cons.mp plain
    obtain ⟨records, entries, written⟩ := exists_written_lines later
    refine ⟨.plain Gap.none entry shown :: records, by simp [entries]; rfl, ?_⟩
    simp [written, WrittenRecord.plain_written, toList_printed_cons]

/-- Plain records are decoded to their own commits, if all of them have a hash. -/
theorem decodeLog_printed_plain {entries : List LogRecord}
    (plain : ∀ entry ∈ entries, entry.Plain) (checkoutPath : String) (commits : List Commit) :
    decodeLog (printedLog entries) checkoutPath = .ok commits ↔
      (∀ entry ∈ entries, entry.hash ≠ "") ∧
        commits = entries.map (Commit.ofRecord checkoutPath) := by
  obtain ⟨records, rfl, written⟩ := exists_written_printed plain
  have described : ((records.map WrittenRecord.laid).mapM fun value => record? value.value) =
      some (records.map WrittenRecord.entry) := by
    rw [mapM_eq_some_iff, List.map_map, List.map_map]
    exact List.map_congr_left fun record _ =>
      record?_fragmentOf fun field => (record.spelling field).spells
  have decoded := decodeLog_stream (records.map WrittenRecord.laid) [] (by simp) checkoutPath
  rw [List.append_nil, streamOf_laid, written, String.ofList_toList, mapM_fragment?, described]
    at decoded
  by_cases hashes : ∀ entry ∈ records.map WrittenRecord.entry, entry.hash ≠ ""
  · have all : ((records.map WrittenRecord.entry).all fun entry => !entry.hash.isEmpty) = true := by
      simpa using hashes
    rw [Option.filter_some, if_pos all] at decoded
    rw [decoded]
    exact ⟨fun same => ⟨hashes, (Except.ok.inj same).symm⟩, fun given => by rw [given.2]⟩
  · have missing : ¬((records.map WrittenRecord.entry).all fun entry => !entry.hash.isEmpty) =
        true := by simpa using hashes
    rw [Option.filter_some, if_neg missing] at decoded
    obtain ⟨reason, refused⟩ := decoded
    rw [refused]
    exact ⟨nofun, fun given => (hashes given.1).elim⟩

/-- A batch that is decoded is plain if it is decoded to its own commits, or if it has no quotes
and backslashes to begin with. -/
theorem plain_of_decodeLog {entries : List LogRecord} {checkoutPath : String}
    {commits : List Commit} (decoded : decodeLog (printedLog entries) checkoutPath = .ok commits)
    (faithful : commits = entries.map (Commit.ofRecord checkoutPath) ∨
      ∀ entry ∈ entries, entry.Unescaped) : ∀ entry ∈ entries, entry.Plain := by
  cases entries with
  | nil => simp
  | cons entry rest =>
    obtain ⟨turns, taken, accepted, rfl⟩ := exists_elements_of_decodeLog decoded
    exact plain_of_elementsFrom accepted (by simpa using faithful)

/-- A batch is decoded to its own commits just when all of its texts are plain and all of its
hashes are there. It is decoded to anything else just when it is decoded at all and one of the
texts has a quote or a backslash in it. -/
theorem decodeLog_printed_iff (entries : List LogRecord) (checkoutPath : String) :
    (decodeLog (printedLog entries) checkoutPath =
        .ok (entries.map (Commit.ofRecord checkoutPath)) ↔
      ∀ entry ∈ entries, entry.hash ≠ "" ∧ entry.Plain) ∧
    ((∃ commits, decodeLog (printedLog entries) checkoutPath = .ok commits ∧
        commits ≠ entries.map (Commit.ofRecord checkoutPath)) ↔
      (∃ commits, decodeLog (printedLog entries) checkoutPath = .ok commits) ∧
        ∃ entry ∈ entries, ¬ entry.Unescaped) ∧
    ((∃ commits, decodeLog (printedLog entries) checkoutPath = .ok commits) ∨
      ∃ reason, decodeLog (printedLog entries) checkoutPath = .error (.decode reason)) := by
  refine ⟨⟨fun decoded => ?_, fun sound => ?_⟩, ⟨?_, ?_⟩, decodeLog_ok_or_decode _ _⟩
  · have plain := plain_of_decodeLog decoded (.inl rfl)
    obtain ⟨hashes, _⟩ := (decodeLog_printed_plain plain checkoutPath _).mp decoded
    exact fun entry member => ⟨hashes entry member, plain entry member⟩
  · refine (decodeLog_printed_plain (fun entry member => (sound entry member).2) _ _).mpr
      ⟨fun entry member => (sound entry member).1, rfl⟩
  · rintro ⟨commits, decoded, other⟩
    refine ⟨⟨commits, decoded⟩, Classical.byContradiction fun none => ?_⟩
    have clean : ∀ entry ∈ entries, entry.Unescaped := by simpa using none
    have plain := plain_of_decodeLog decoded (.inr clean)
    exact other ((decodeLog_printed_plain plain checkoutPath _).mp decoded).2
  · rintro ⟨⟨commits, decoded⟩, entry, member, escaped⟩
    refine ⟨commits, decoded, ?_⟩
    rintro rfl
    exact escaped ((plain_of_decodeLog decoded (.inl rfl)) entry member).unescaped

/-! Forged commits. -/

/-- A record whose subject closes its fragment early and opens another one. -/
def forge (first second : LogRecord) : LogRecord :=
  { first with
    subject := fillFormat first.get (logFormat.drop 9) ++ fillFormat second.get (logFormat.take 10)
    body := second.body }

theorem expand_forge (first second : LogRecord) :
    (forge first second).expand = first.expand ++ second.expand := by
  simp [forge, LogRecord.expand, fillFormat, logFormat, LogRecord.get, String.append_assoc]

/-- One record is decoded as any two commits. -/
theorem decodeLog_forge {first second : LogRecord}
    (sound : ∀ entry ∈ [first, second], entry.hash ≠ "" ∧ entry.Plain) (checkoutPath : String) :
    decodeLog (printedLog [forge first second]) checkoutPath =
      .ok [Commit.ofRecord checkoutPath first, Commit.ofRecord checkoutPath second] := by
  obtain ⟨⟨hash, plain⟩, ⟨hash', plain'⟩, _⟩ := by simpa only [List.forall_mem_cons] using sound
  let records : List WrittenRecord := [.plain Gap.none first plain, .plain Gap.none second plain']
  have written : records.flatMap WrittenRecord.written =
      (printedLog [forge first second]).toList := by
    simp [records, printedLog, expand_forge, WrittenRecord.plain_written]
  have hashes : ∀ record ∈ records, record.entry.hash ≠ "" := by
    simpa [records, WrittenRecord.plain] using ⟨hash, hash'⟩
  have decoded := decodeLog_stream (records.map WrittenRecord.laid) [] (by simp) checkoutPath
  rw [mapM_fragment?_laid hashes, List.append_nil, streamOf_laid, written, String.ofList_toList]
    at decoded
  exact decoded

/-- A commit by one committer, and with it one by another. -/
theorem decodeLog_forged_commit :
    decodeLog (printedLog [⟨"1a2b3c4d", "Ann", "ann@example.com", "2024-01-02T03:04:05+00:00",
        "fix\",\"body\":\"\"\x7d,\x7b\"commit\":\"5e6f7a8b\",\"commiter\":\x7b\"name\":\"Bob\"," ++
          "\"email\":\"bob@example.com\",\"date\":\"2024-01-02T03:04:05+00:00\"\x7d," ++
          "\"subject\":\"approve", ""⟩]) "/repo" =
      .ok [⟨"1a2b3c4d", "Ann <ann@example.com>", "2024-01-02T03:04:05+00:00", "fix\n", "/repo"⟩,
        ⟨"5e6f7a8b", "Bob <bob@example.com>", "2024-01-02T03:04:05+00:00", "approve\n",
          "/repo"⟩] := by
  let first : LogRecord :=
    ⟨"1a2b3c4d", "Ann", "ann@example.com", "2024-01-02T03:04:05+00:00", "fix", ""⟩
  let second : LogRecord :=
    ⟨"5e6f7a8b", "Bob", "bob@example.com", "2024-01-02T03:04:05+00:00", "approve", ""⟩
  have sound : ∀ entry ∈ [first, second], entry.hash ≠ "" ∧ entry.Plain := by
    decide
  exact decodeLog_forge sound "/repo"

end GitHistory
