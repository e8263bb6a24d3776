import GitHistory.Proofs.Commit.Stream
import GitHistory.Proofs.Json.Derived

/-! What decoding accepts: a text describes records if it is a stream of their fragments, with line
ends behind it, and a text with commits in it is decoded just when it describes some. -/
namespace GitHistory

open Json (Document Laid Gap writtenItems)
open Json.Reader

/-! Whatever is read as a record is a fragment. -/

theorem CommitterFields.derives (given : CommitterFields) (key : String) :
    DerivesContent (given.step key) := by
  have text (slot : Option String) := derivesContent_field (derives_string .string) key slot
  rw [CommitterFields.step.eq_def]
  split
  · exact (text given.name).bind_pure _
  · exact (text given.email).bind_pure _
  · exact (text given.date).bind_pure _
  · exact derivesContent_unknownField.bind_pure _

theorem committer_derivesItems : DerivesItems committerByPosition true := by
  have text := derives_string .string
  let arity : Json.Arity := .record "Signature" 3
  exact derivesItems_element text (fun name => derivesItems_element text (fun email =>
    derivesItems_element text (fun date => derivesItems_pure (Committer.mk name email date))
      arity 2) arity 1) arity 0

theorem derives_committer : Derives committerReader :=
  derives_record CommitterFields.derives CommitterFields.finishes committer_derivesItems "Signature"

theorem RecordFields.derives (given : RecordFields) (key : String) :
    DerivesContent (given.step key) := by
  have text (slot : Option String) := derivesContent_field (derives_string .string) key slot
  rw [RecordFields.step.eq_def]
  split
  · exact (text given.hash).bind_pure _
  · exact (derivesContent_field derives_committer _ given.committer).bind_pure _
  · exact (text given.subject).bind_pure _
  · exact (text given.body).bind_pure _
  · exact derivesContent_unknownField.bind_pure _

theorem record_derivesItems : DerivesItems recordByPosition true := by
  have text := derives_string .string
  let arity : Json.Arity := .record "CommitFragment" 4
  exact derivesItems_element text (fun hash => derivesItems_element derives_committer
    (fun committer => derivesItems_element text (fun subject => derivesItems_element text
      (fun body => derivesItems_pure (logRecord hash committer subject body)) arity 3) arity 2)
    arity 1) arity 0

theorem derives_logRecord : Derives LogRecord.reader :=
  derives_record RecordFields.derives RecordFields.finishes record_derivesItems "CommitFragment"

/-! Closing a stream. -/

theorem isSpace_of_isLineEnd {c : Char} (lineEnd : isLineEnd c = true) :
    Json.isSpace c = true := by
  simp only [isLineEnd, Bool.or_eq_true, beq_iff_eq] at lineEnd
  rcases lineEnd with rfl | rfl <;> decide

/-- A text is closed to a list if it is not blank and ends with a separator, line ends aside. -/
theorem cases_of_repairFragments {raw : String} {closed : Option String}
    (repaired : repairFragments raw = .ok closed) :
    (Text.isBlankText raw.toList = true ∧ closed = none) ∨
      ∃ inner ending, raw.toList = inner ++ fragmentSeparator :: ending ∧
        (∀ c ∈ ending, isLineEnd c = true) ∧
        closed = some (String.ofList ('[' :: (inner ++ [']']))) := by
  obtain ⟨ending, parted, lineEnds⟩ := Text.exists_trimEnd isLineEnd raw.toList
  rw [repairFragments] at repaired
  simp only [isBlankText_trimEnd] at repaired
  split at repaired
  · rename_i blank
    exact .inl ⟨blank, (Except.ok.inj repaired).symm⟩
  · rename_i solid
    cases backwards : (Text.trimEnd isLineEnd raw.toList).reverse with
    | nil =>
      have trimmed := List.reverse_eq_nil_iff.mp backwards
      rw [← isBlankText_trimEnd, trimmed] at solid
      exact (solid rfl).elim
    | cons last body =>
      have trimmed : Text.trimEnd isLineEnd raw.toList = body.reverse ++ [last] := by
        rw [← List.reverse_reverse (Text.trimEnd isLineEnd raw.toList), backwards,
          List.reverse_cons]
      simp only [backwards] at repaired
      split at repaired
      · rename_i separator
        refine .inr ⟨body.reverse, ending, ?_, lineEnds, ?_⟩
        · rw [parted, trimmed, separator, List.append_assoc, List.singleton_append]
        · simpa using (Except.ok.inj repaired).symm
      · cases repaired

/-! Reading the list. -/

/-- Inside the brackets of a list that is read stand the items of a list, since whatever follows
its end is white space and the text ends with a bracket. -/
theorem exists_items_of_parse {inner : List Char} {entries : List LogRecord}
    (parsed : parse logRecords ('[' :: (inner ++ [']'])) = .ok entries) :
    ∃ (gap : Gap) (values : List (Laid Document)),
      inner = gap.chars ++ writtenItems true values := by
  obtain ⟨left, accepted, space⟩ := exists_accept?_of_parse parsed
  rw [accept?_logRecords_list] at accepted
  obtain ⟨gap, values, shown⟩ := exists_items_of_elementsFrom derives_logRecord accepted
  have nothing : left = [] := by
    rcases List.eq_nil_or_concat left with rfl | ⟨front, last, rfl⟩
    · rfl
    · have ends : inner ++ [']'] =
          (gap.chars ++ (writtenItems true values ++ ']' :: front)) ++ [last] := by
        simpa using shown
      have closing : ']' = last := List.head_eq_of_cons_eq (List.append_inj' ends rfl).2
      have blank : Json.isSpace last = true :=
        List.dropWhile_eq_nil_iff.mp space last (by simp)
      rw [← closing] at blank
      cases blank
  rw [nothing, ← List.append_assoc] at shown
  exact ⟨gap, values, List.append_cancel_right shown⟩

/-! What a text describes. -/

/-- A text describes records if it is a stream of their fragments, with line ends behind it. -/
def Describes (raw : String) (entries : List LogRecord) : Prop :=
  ∃ (values : List (Laid Document)) (ending : List Char),
    raw.toList = streamOf values ++ ending ∧ (∀ c ∈ ending, isLineEnd c = true) ∧
      (values.mapM fun value => fragment? value.value) = some entries

theorem Describes.decodeLog_eq {raw : String} {entries : List LogRecord}
    (describes : Describes raw entries) (checkoutPath : String) :
    decodeLog raw checkoutPath = .ok (entries.map (Commit.ofRecord checkoutPath)) := by
  obtain ⟨values, ending, same, lineEnds, described⟩ := describes
  have decoded := decodeLog_stream values ending lineEnds checkoutPath
  rw [← same, String.ofList_toList, described] at decoded
  exact decoded

/-- White space before a stream of at least one value belongs to the first of them. -/
theorem gap_streamOf (gap : Gap) (value : Laid Document) (rest : List (Laid Document)) :
    gap.chars ++ streamOf (value :: rest) =
      streamOf (⟨gap.append value.before, value.value, value.after⟩ :: rest) := by
  simp [streamOf]

theorem streamOf_append (first second : List (Laid Document)) :
    streamOf (first ++ second) = streamOf first ++ streamOf second := by
  simp [streamOf]

/-- The line ends behind a stream are white space before the next. -/
theorem Describes.append {first second : String} {entries more : List LogRecord}
    (before : Describes first entries) (behind : Describes second more) :
    Describes (first ++ second) (entries ++ more) := by
  obtain ⟨values, ending, same, lineEnds, described⟩ := before
  obtain ⟨others, last, sameToo, lineEndsToo, describedToo⟩ := behind
  have spaced : ∀ c ∈ ending, Json.isSpace c = true := fun c member =>
    isSpace_of_isLineEnd (lineEnds c member)
  rw [mapM_eq_some_iff] at described describedToo
  cases others with
  | nil =>
    obtain rfl : more = [] := by simpa using describedToo.symm
    refine ⟨values, ending ++ last, ?_, List.forall_mem_append.mpr ⟨lineEnds, lineEndsToo⟩, ?_⟩
    · rw [String.toList_append, same, sameToo]
      simp [streamOf]
    · rw [mapM_eq_some_iff, described, List.append_nil]
  | cons value rest =>
    let gap : Gap := ⟨ending, spaced⟩
    refine ⟨values ++ ⟨gap.append value.before, value.value, value.after⟩ :: rest, last, ?_,
      lineEndsToo, ?_⟩
    · rw [streamOf_append, ← gap_streamOf, String.toList_append, same, sameToo]
      simp [gap]
    · rw [mapM_eq_some_iff, List.map_append, described, List.map_append, ← describedToo]
      rfl

/-- A text that describes no commit: it is blank, or all that it has is a separator, with white
space before it and line ends behind it. -/
inductive DescribesNothing : List Char → Prop
  | blank {text : List Char} (blank : Text.isBlankText text = true) : DescribesNothing text
  | separator (before : Gap) {ending : List Char} (lineEnds : ∀ c ∈ ending, isLineEnd c = true) :
    DescribesNothing (before.chars ++ fragmentSeparator :: ending)

theorem DescribesNothing.decodeLog_eq {raw : String} (nothing : DescribesNothing raw.toList)
    (checkoutPath : String) : decodeLog raw checkoutPath = .ok [] := by
  generalize same : raw.toList = text at nothing
  cases nothing with
  | blank blank =>
    rw [← same] at blank
    rw [decodeLog, repairFragments_blank blank]
    rfl
  | @separator before ending lineEnds =>
    have repaired := repairFragments_separated before.chars ending lineEnds
    rw [← same, String.ofList_toList] at repaired
    have accepted := accept?_logRecords before []
    rw [writtenItems, List.nil_append] at accepted
    rw [decodeLog_closed repaired, String.toList_ofList, parse_eq_ok accepted]
    rfl

/-- A stream of at least one value that is decoded describes the records of its commits. -/
theorem exists_described {raw checkoutPath : String} {commits : List Commit}
    {value : Laid Document} {rest : List (Laid Document)} {ending : List Char}
    (stream : raw.toList = streamOf (value :: rest) ++ ending)
    (lineEnds : ∀ c ∈ ending, isLineEnd c = true)
    (decoded : decodeLog raw checkoutPath = .ok commits) :
    ∃ entry more, Describes raw (entry :: more) ∧
      commits = (entry :: more).map (Commit.ofRecord checkoutPath) := by
  have outcome := decodeLog_stream (value :: rest) ending lineEnds checkoutPath
  rw [← stream, String.ofList_toList, decoded] at outcome
  cases described : (value :: rest).mapM fun value => fragment? value.value with
  | none => simp [described] at outcome
  | some entries =>
    cases entries with
    | nil => cases mapM_eq_some_iff.mp described
    | cons entry more =>
      refine ⟨entry, more, ⟨value :: rest, ending, stream, lineEnds, described⟩, ?_⟩
      simpa [described] using outcome

/-- Whatever is decoded describes nothing, or the records of the commits that come out. -/
theorem cases_of_decodeLog {raw checkoutPath : String} {commits : List Commit}
    (decoded : decodeLog raw checkoutPath = .ok commits) :
    (DescribesNothing raw.toList ∧ commits = []) ∨
      ∃ entry more, Describes raw (entry :: more) ∧
        commits = (entry :: more).map (Commit.ofRecord checkoutPath) := by
  cases repaired : repairFragments raw with
  | error failure =>
    rw [decodeLog, repaired] at decoded
    cases decoded
  | ok closed =>
    rcases cases_of_repairFragments repaired with ⟨blank, rfl⟩ |
      ⟨inner, ending, same, lineEnds, rfl⟩
    · rw [decodeLog, repaired] at decoded
      exact .inl ⟨.blank blank, (Except.ok.inj decoded).symm⟩
    · have read := decoded
      rw [decodeLog_closed repaired, String.toList_ofList] at read
      cases parsed : parse logRecords ('[' :: (inner ++ [']'])) with
      | error failure => simp [parsed] at read
      | ok entries =>
        obtain ⟨gap, values, rfl⟩ := exists_items_of_parse parsed
        cases values with
        | nil =>
          have nothing : DescribesNothing raw.toList := by
            rw [same, writtenItems, List.append_nil]
            exact .separator gap lineEnds
          have empty := (nothing.decodeLog_eq checkoutPath).symm.trans decoded
          exact .inl ⟨nothing, (Except.ok.inj empty).symm⟩
        | cons value rest =>
          have stream : raw.toList = streamOf
              (⟨gap.append value.before, value.value, value.after⟩ :: rest) ++ ending := by
            rw [← gap_streamOf, streamOf_cons, same]
            simp
          exact .inr (exists_described stream lineEnds decoded)

/-! Decoding as a whole. -/

theorem decodeLog_eq_nil_iff {raw checkoutPath : String} :
    decodeLog raw checkoutPath = .ok [] ↔ DescribesNothing raw.toList := by
  constructor
  · intro decoded
    rcases cases_of_decodeLog decoded with ⟨nothing, -⟩ | ⟨entry, more, -, empty⟩
    · exact nothing
    · cases empty
  · exact fun nothing => nothing.decodeLog_eq checkoutPath

/-- A text is decoded to commits just when it describes their records. -/
theorem decodeLog_eq_ok_iff {raw checkoutPath : String} {commits : List Commit}
    (some : commits ≠ []) :
    decodeLog raw checkoutPath = .ok commits ↔
      ∃ entries, Describes raw entries ∧
        commits = entries.map (Commit.ofRecord checkoutPath) := by
  constructor
  · intro decoded
    rcases cases_of_decodeLog decoded with ⟨-, empty⟩ | ⟨entry, more, describes, same⟩
    · exact (some empty).elim
    · exact ⟨entry :: more, describes, same⟩
  · rintro ⟨entries, describes, rfl⟩
    exact describes.decodeLog_eq checkoutPath

/-- Texts that are decoded to commits can be put one behind the other: their commits come out in
the order of the texts. -/
theorem decodeLog_append {first second checkoutPath : String} {commits more : List Commit}
    (decoded : decodeLog first checkoutPath = .ok commits)
    (decodedToo : decodeLog second checkoutPath = .ok more)
    (some : commits ≠ []) (someToo : more ≠ []) :
    decodeLog (first ++ second) checkoutPath = .ok (commits ++ more) := by
  obtain ⟨entries, before, rfl⟩ := (decodeLog_eq_ok_iff some).mp decoded
  obtain ⟨others, behind, rfl⟩ := (decodeLog_eq_ok_iff someToo).mp decodedToo
  rw [(before.append behind).decodeLog_eq, List.map_append]

/-- A fragment with its fields by name, in another order and with one beside them. -/
def namedSample : String :=
  "\t\x7b\"note\":[1.5e3,null],\"body\":\"b\",\"subject\":\"s\",\"commit\":\"c1\"," ++
    "\"commiter\":[\"Ann\",\"ann@example.com\",\"2024\"]\x7d ,\r\n"

/-- A fragment with its fields by position. -/
def orderedSample : String :=
  " [\"c2\",[\"Bob\",\"bob@example.com\",\"2025\"],\"t\",\"\"],"

theorem decodeLog_append_samples :
    decodeLog namedSample "/repo" =
      .ok [⟨"c1", "Ann <ann@example.com>", "2024", "s\nb", "/repo"⟩] ∧
    decodeLog orderedSample "/repo" =
      .ok [⟨"c2", "Bob <bob@example.com>", "2025", "t\n", "/repo"⟩] ∧
    decodeLog (namedSample ++ orderedSample) "/repo" =
      .ok [⟨"c1", "Ann <ann@example.com>", "2024", "s\nb", "/repo"⟩,
        ⟨"c2", "Bob <bob@example.com>", "2025", "t\n", "/repo"⟩] := by
  have named : decodeLog namedSample "/repo" =
      .ok [⟨"c1", "Ann <ann@example.com>", "2024", "s\nb", "/repo"⟩] := by
    decide +kernel
  have ordered : decodeLog orderedSample "/repo" =
      .ok [⟨"c2", "Bob <bob@example.com>", "2025", "t\n", "/repo"⟩] := by
    decide +kernel
  exact ⟨named, ordered, decodeLog_append named ordered (by simp) (by simp)⟩

end GitHistory
