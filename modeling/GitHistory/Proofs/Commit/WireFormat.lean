import GitHistory.Proofs.Commit.Stream

/-! Records written in the log format: whatever spellings their fields take, decoding gives the
records back. -/
namespace GitHistory

open Json (isSpace Document Laid Member Gap Piece isPlain spelled? writtenPieces writtenItems
  writtenMembers leadingComma sole? allNamed escapeChar exists_pieces_escaped writtenPieces_pmap
  spelled?_pmap)

/-- A way to write a text between the quotes of a JSON string. -/
structure Spelling (text : String) where
  pieces : List Piece
  spells : spelled? pieces = some text.toList

def Spelling.written {text : String} (spelling : Spelling text) : String :=
  String.ofList (writtenPieces spelling.pieces)

/-- Characters that stand for themselves. -/
def plainPieces (text : String) (shown : text.toList.all isPlain = true) : List Piece :=
  text.toList.pmap Piece.plain (List.all_eq_true.mp shown)

/-- A text without quotes, backslashes and controls spells itself. -/
def Spelling.plain (text : String) (shown : text.toList.all isPlain = true) : Spelling text :=
  ⟨plainPieces text shown, spelled?_pmap (List.all_eq_true.mp shown)⟩

theorem Spelling.plain_written (text : String) (shown : text.toList.all isPlain = true) :
    (Spelling.plain text shown).written = text := by
  simp [Spelling.written, Spelling.plain, plainPieces, writtenPieces_pmap]

/-! The format as a document. -/

/-- A member as git writes it, without white space. -/
def tightMember (key : String) (shown : key.toList.all isPlain = true)
    (value : Document) : Member Document :=
  ⟨Gap.none, plainPieces key shown, Gap.none, ⟨Gap.none, value, Gap.none⟩⟩

@[simp] theorem tightMember_value (key : String) (shown : key.toList.all isPlain = true)
    (value : Document) : (tightMember key shown value).content.value = value := rfl

@[simp] theorem tightMember_name? (key : String) (shown : key.toList.all isPlain = true)
    (value : Document) : (tightMember key shown value).name? = some key := by
  simp [tightMember, Member.name?, plainPieces, spelled?_pmap]

theorem writtenMembers_tight (first : Bool) (key : String)
    (shown : key.toList.all isPlain = true) (value : Document)
    (rest : List (Member Document)) :
    writtenMembers first (tightMember key shown value :: rest) =
      leadingComma first ++
        ('"' :: (key.toList ++ ('"' :: ':' :: (value.written ++ writtenMembers false rest)))) := by
  simp [tightMember, writtenMembers, Gap.none, plainPieces, writtenPieces_pmap]

theorem writtenMembers_nil (first : Bool) : writtenMembers first [] = [] := by
  rw [writtenMembers]

/-- The fragment with every field in the given pieces. -/
def fragmentOf (fill : LogField → List Piece) : Document :=
  .object Gap.none [
    tightMember "commit" (by decide) (.string (fill .hash)),
    tightMember "commiter" (by decide) (.object Gap.none [
      tightMember "name" (by decide) (.string (fill .name)),
      tightMember "email" (by decide) (.string (fill .email)),
      tightMember "date" (by decide) (.string (fill .date))]),
    tightMember "subject" (by decide) (.string (fill .subject)),
    tightMember "body" (by decide) (.string (fill .body))]

/-- The log format writes fragments, each with its separator. -/
theorem fragmentOf_written (fill : LogField → List Piece) :
    (fillFormat (fun field => String.ofList (writtenPieces (fill field))) logFormat).toList =
      (fragmentOf fill).written ++ [fragmentSeparator] := by
  simp [fillFormat, logFormat, fragmentOf, Document.written, writtenMembers_tight,
    writtenMembers_nil, leadingComma, fragmentSeparator]

theorem record?_fragmentOf {fill : LogField → List Piece} {entry : LogRecord}
    (spells : ∀ field, spelled? (fill field) = some (entry.get field).toList) :
    record? (fragmentOf fill) = some entry := by
  have text (field : LogField) : (Document.string (fill field)).text? = some (entry.get field) := by
    simp [Document.text?, spells]
  simp [record?, fragmentOf, namedRecord?, committer?, namedCommitter?, allNamed, sole?, text,
    logRecord, LogRecord.get]

/-! Streams of written records. -/

/-- A record with a spelling for each of its fields, behind white space. -/
structure WrittenRecord where
  before : Gap
  entry : LogRecord
  spelling : (field : LogField) → Spelling (entry.get field)

def WrittenRecord.written (record : WrittenRecord) : List Char :=
  record.before.chars ++
    (fillFormat (fun field => (record.spelling field).written) logFormat).toList

/-- Every record can be written, with its fields in escaped form. -/
theorem exists_written_escaped (entry : LogRecord) :
    ∃ record : WrittenRecord, record.entry = entry ∧ record.written =
      (fillFormat (fun field => String.ofList ((entry.get field).toList.flatMap escapeChar))
        logFormat).toList := by
  have spelling (field : LogField) := exists_pieces_escaped (entry.get field).toList
  refine ⟨⟨Gap.none, entry, fun field => ⟨_, (spelling field).choose_spec.2⟩⟩, rfl, ?_⟩
  simp [WrittenRecord.written, Spelling.written, (spelling _).choose_spec.1]

/-- Every character of every field stands for itself between quotes. -/
def LogRecord.Plain (entry : LogRecord) : Prop :=
  ∀ field, ∀ c ∈ (entry.get field).toList, isPlain c = true

instance (entry : LogRecord) : Decidable entry.Plain :=
  decidable_of_iff ((([.hash, .name, .email, .date, .subject, .body] : List LogField).all
    fun field => (entry.get field).toList.all isPlain) = true) (by
      simp only [List.all_eq_true, LogRecord.Plain]
      exact ⟨fun plain field => plain field (by cases field <;> simp),
        fun plain field _ => plain field⟩)

/-- A record of plain texts, as git prints it. -/
def WrittenRecord.plain (before : Gap) (entry : LogRecord) (shown : entry.Plain) :
    WrittenRecord :=
  ⟨before, entry,
    fun field => Spelling.plain (entry.get field) (List.all_eq_true.mpr (shown field))⟩

theorem WrittenRecord.plain_written (before : Gap) (entry : LogRecord) (shown : entry.Plain) :
    (WrittenRecord.plain before entry shown).written = before.chars ++ entry.expand.toList := by
  simp [WrittenRecord.written, WrittenRecord.plain, Spelling.plain_written, LogRecord.expand]

def WrittenRecord.laid (record : WrittenRecord) : Laid Document :=
  ⟨record.before, fragmentOf fun field => (record.spelling field).pieces, Gap.none⟩

theorem WrittenRecord.written_eq (record : WrittenRecord) :
    record.written =
      record.before.chars ++ (record.laid.value.written ++ [fragmentSeparator]) := by
  simp only [WrittenRecord.written, WrittenRecord.laid, Spelling.written, fragmentOf_written]

theorem streamOf_laid (records : List WrittenRecord) :
    streamOf (records.map WrittenRecord.laid) = records.flatMap WrittenRecord.written := by
  have each : WrittenRecord.written = _ := funext WrittenRecord.written_eq
  simp [streamOf, List.flatMap_map, each, WrittenRecord.laid]

theorem fragment?_laid {record : WrittenRecord} (hash : record.entry.hash ≠ "") :
    fragment? record.laid.value = some record.entry := by
  have described : record? record.laid.value = some record.entry :=
    record?_fragmentOf fun field => (record.spelling field).spells
  simp [fragment?, described, hash]

theorem mapM_fragment?_laid {records : List WrittenRecord}
    (hashes : ∀ record ∈ records, record.entry.hash ≠ "") :
    ((records.map WrittenRecord.laid).mapM fun value => fragment? value.value) =
      some (records.map WrittenRecord.entry) := by
  rw [mapM_eq_some_iff, List.map_map, List.map_map]
  exact List.map_congr_left fun record member => fragment?_laid (hashes record member)

/-- Every record can be written in the log format. Records that are, with any white space between
them and any line ends behind them, are decoded to the commits of these records. -/
theorem decodeLog_written :
    (∀ entry : LogRecord, ∃ record : WrittenRecord, record.entry = entry ∧ record.written =
      (fillFormat (fun field => String.ofList ((entry.get field).toList.flatMap escapeChar))
        logFormat).toList) ∧
    ∀ (records : List WrittenRecord) (ending : List Char),
      (∀ record ∈ records, record.entry.hash ≠ "") → (∀ c ∈ ending, isLineEnd c = true) →
      ∀ checkoutPath : String,
        decodeLog (String.ofList (records.flatMap WrittenRecord.written ++ ending)) checkoutPath =
          .ok (records.map fun record => Commit.ofRecord checkoutPath record.entry) := by
  refine ⟨exists_written_escaped, fun records ending hashes lineEnds checkoutPath => ?_⟩
  have decoded := decodeLog_stream (records.map WrittenRecord.laid) ending lineEnds checkoutPath
  simpa [mapM_fragment?_laid hashes, streamOf_laid, Function.comp_def] using decoded

/-- A subject that looks like the end of its fragment, with a character beyond the first plane,
and a body with a backslash. -/
def escapedSample : WrittenRecord where
  before := ⟨[' ', '\n'], by simp [isSpace]⟩
  entry := ⟨"c0ffee1", "Zoë", "z@example.com", "2024-01-02T03:04:05+00:00", "\"\x7d,\x7b 😀", "a\\b"⟩
  spelling
    | .hash => Spelling.plain "c0ffee1" (by decide)
    | .name => ⟨[.plain 'Z' rfl, .plain 'o' rfl, .unit '0' '0' 'e' 'B' 0xEB rfl], by decide⟩
    | .email => Spelling.plain "z@example.com" (by decide)
    | .date => Spelling.plain "2024-01-02T03:04:05+00:00" (by decide)
    | .subject => ⟨[.letter '"' '"' rfl, .plain '}' rfl, .plain ',' rfl, .plain '{' rfl,
        .plain ' ' rfl, .unit 'd' '8' '3' 'd' 0xD83D rfl, .unit 'D' 'E' '0' '0' 0xDE00 rfl],
        by decide⟩
    | .body => ⟨[.plain 'a' rfl, .letter '\\' '\\' rfl, .plain 'b' rfl], by decide⟩

def escapedSampleText : String :=
  " \n\x7b\"commit\":\"c0ffee1\",\"commiter\":\x7b\"name\":\"Zo\\u00eB\"," ++
    "\"email\":\"z@example.com\",\"date\":\"2024-01-02T03:04:05+00:00\"\x7d," ++
    "\"subject\":\"\\\"\x7d,\x7b \\ud83d\\uDE00\",\"body\":\"a\\\\b\"\x7d,\r\n"

theorem decodeLog_written_escaped :
    (∀ record ∈ [escapedSample], record.entry.hash ≠ "") ∧
    (∀ c ∈ ['\r', '\n'], isLineEnd c = true) ∧
    decodeLog escapedSampleText "/repo" =
      .ok [⟨"c0ffee1", "Zoë <z@example.com>", "2024-01-02T03:04:05+00:00",
        "\"\x7d,\x7b 😀\na\\b", "/repo"⟩] := by
  have hashes : ∀ record ∈ [escapedSample], record.entry.hash ≠ "" := by simp [escapedSample]
  have lineEnds : ∀ c ∈ ['\r', '\n'], isLineEnd c = true := by simp [isLineEnd]
  have written : escapedSampleText =
      String.ofList ([escapedSample].flatMap WrittenRecord.written ++ ['\r', '\n']) := by
    decide +kernel
  have decoded := decodeLog_written.2 [escapedSample] ['\r', '\n'] hashes lineEnds "/repo"
  rw [← written] at decoded
  exact ⟨hashes, lineEnds, decoded⟩

end GitHistory
