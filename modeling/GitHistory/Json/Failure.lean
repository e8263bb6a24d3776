import GitHistory.Text.Utf8
import GitHistory.Text.Quoted
import GitHistory.Decimal.Notation

/-!
Why a JSON text is refused, and where. A failure remembers how many bytes were still unread,
so readers need not carry positions; line and column come from the whole text at the end.
-/
namespace GitHistory.Json

/-- A number as JSON text gives it: a count, a negative integer, or a double. -/
inductive Number where
  | count (n : UInt64)
  | negative (n : Int)
  | double (x : Float)

/-- What a value is, as far as messages about its type tell. -/
inductive Found where
  | null
  | boolean (b : Bool)
  | number (n : Number)
  | string (text : String)
  | sequence
  | object

def Found.text : Found → String
  | .null => "null"
  | .boolean b => s!"boolean `{b}`"
  | .number (.count n) => s!"integer `{n.toNat}`"
  | .number (.negative n) => s!"integer `{n}`"
  | .number (.double x) => s!"floating point `{Decimal.floatText x}`"
  | .string text => "string " ++ Text.quoted text
  | .sequence => "sequence"
  | .object => "map"

/-- What a reader wanted to see. -/
inductive Expected where
  | string
  | size
  | count
  | nothing
  | object
  | variant
  | record (name : String)
  | tagged (name : String)

def Expected.text : Expected → String
  | .string => "a string"
  | .size => "usize"
  | .count => "u64"
  | .nothing => "unit"
  | .object => "a map"
  | .variant => "variant identifier"
  | .record name => "struct " ++ name
  | .tagged name => "internally tagged enum " ++ name

/-- The number of elements that a positional record asks for. -/
inductive Arity where
  | record (name : String) (elements : Nat)
  | variant (name : String) (elements : Nat)
  | exactly (elements : Nat)

private def elementsText (n : Nat) : String :=
  if n = 1 then "1 element" else s!"{n} elements"

def Arity.text : Arity → String
  | .record name n => s!"struct {name} with {elementsText n}"
  | .variant name n => s!"struct variant {name} with {elementsText n}"
  | .exactly n => s!"{elementsText n} in sequence"

inductive Cause where
  | endInValue
  | endInList
  | endInObject
  | endInString
  | expectedValue
  | expectedColon
  | expectedListCommaOrEnd
  | expectedObjectCommaOrEnd
  | expectedLiteral
  | keyMustBeString
  | trailingComma
  | trailingCharacters
  | controlCharacter
  | invalidEscape
  | invalidNumber
  | numberOutOfRange
  | loneSurrogate
  | unfinishedSurrogate
  | tooDeep
  | invalidType (found : Found) (expected : Expected)
  | invalidValue (found : Found) (expected : Expected)
  | invalidLength (length : Nat) (expected : Arity)
  | missingField (name : String)
  | duplicateField (name : String)
  | unknownVariant (name : String) (first second : String)

def Cause.text : Cause → String
  | .endInValue => "EOF while parsing a value"
  | .endInList => "EOF while parsing a list"
  | .endInObject => "EOF while parsing an object"
  | .endInString => "EOF while parsing a string"
  | .expectedValue => "expected value"
  | .expectedColon => "expected `:`"
  | .expectedListCommaOrEnd => "expected `,` or `]`"
  | .expectedObjectCommaOrEnd => "expected `,` or `\x7d`"
  | .expectedLiteral => "expected ident"
  | .keyMustBeString => "key must be a string"
  | .trailingComma => "trailing comma"
  | .trailingCharacters => "trailing characters"
  | .controlCharacter => "control character (\\u0000-\\u001F) found while parsing a string"
  | .invalidEscape => "invalid escape"
  | .invalidNumber => "invalid number"
  | .numberOutOfRange => "number out of range"
  | .loneSurrogate => "lone leading surrogate in hex escape"
  | .unfinishedSurrogate => "unexpected end of hex escape"
  | .tooDeep => "recursion limit exceeded"
  | .invalidType found expected => s!"invalid type: {found.text}, expected {expected.text}"
  | .invalidValue found expected => s!"invalid value: {found.text}, expected {expected.text}"
  | .invalidLength length expected => s!"invalid length {length}, expected {expected.text}"
  | .missingField name => s!"missing field `{name}`"
  | .duplicateField name => s!"duplicate field `{name}`"
  | .unknownVariant name first second =>
    s!"unknown variant `{name}`, expected `{first}` or `{second}`"

/-- A refusal. `unread` is the number of bytes behind the place it points to, or nothing when
it concerns a value already taken out of the text. -/
structure Failure where
  cause : Cause
  unread : Option Nat

namespace Failure

/-- Points right before `rest`. -/
def before (rest : List Char) (cause : Cause) : Failure :=
  ⟨cause, some (Text.utf8Size rest)⟩

/-- Points `count` bytes into `rest`, at most to its end. -/
def into (count : Nat) (rest : List Char) (cause : Cause) : Failure :=
  ⟨cause, some (Text.utf8Size rest - count)⟩

/-- Gives a failure without a place the place right before `rest`. -/
def placedBefore (failure : Failure) (rest : List Char) : Failure :=
  match failure.unread with
  | some _ => failure
  | none => before rest failure.cause

/-- Line, counted from one, and bytes since the last line feed. -/
def lineAndColumn : List UInt8 → Nat × Nat :=
  List.foldl (fun (line, column) b => if b == 10 then (line + 1, 0) else (line, column + 1)) (1, 0)

/-- The whole message about a text. -/
def message (failure : Failure) (text : List Char) : String :=
  match failure.unread with
  | none => failure.cause.text
  | some unread =>
    let bytes := Text.utf8 text
    let (line, column) := lineAndColumn (bytes.take (bytes.length - unread))
    s!"{failure.cause.text} at line {line} column {column}"

end Failure

end GitHistory.Json
