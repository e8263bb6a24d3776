import GitHistory.Json.Strings
import GitHistory.Json.Value

/-! JSON texts by their grammar: a document is a value together with the way it is written, so
every text that the grammar allows is the written form of some document. -/
namespace GitHistory.Json

/-- White space between tokens. -/
structure Gap where
  chars : List Char
  blank : ∀ c ∈ chars, isSpace c = true

def Gap.none : Gap := ⟨[], by simp⟩

@[simp] theorem Gap.none_chars : Gap.none.chars = [] := rfl

/-- White space behind white space. -/
def Gap.append (first second : Gap) : Gap :=
  ⟨first.chars ++ second.chars, List.forall_mem_append.mpr ⟨first.blank, second.blank⟩⟩

@[simp] theorem Gap.append_chars (first second : Gap) :
    (first.append second).chars = first.chars ++ second.chars := rfl

/-- Whether a character stands for itself inside a string. -/
def isPlain (c : Char) : Bool :=
  c != '"' && c != '\\' && !decide (c.val < 0x20)

/-- A piece of a string between its quotes. A code unit given by its number need not be a
character: surrogates have to come in pairs. -/
inductive Piece where
  | plain (c : Char) (shown : isPlain c = true)
  | letter (c meaning : Char) (known : escaped? c = some meaning)
  | unit (a b c d : Char) (number : Nat) (digits : hexQuad? a b c d = some number)

def Piece.written : Piece → List Char
  | .plain c _ => [c]
  | .letter c _ _ => ['\\', c]
  | .unit a b c d _ _ => ['\\', 'u', a, b, c, d]

def writtenPieces (pieces : List Piece) : List Char :=
  pieces.flatMap Piece.written

/-- The text that pieces spell, if their surrogates pair up. -/
def spelled? : List Piece → Option (List Char)
  | [] => some []
  | .plain c _ :: rest => (spelled? rest).map (c :: ·)
  | .letter _ meaning _ :: rest => (spelled? rest).map (meaning :: ·)
  | .unit _ _ _ _ lead _ :: rest =>
    if isTrailingSurrogate lead then none
    else if isLeadingSurrogate lead then
      match rest with
      | .unit _ _ _ _ trail _ :: rest =>
        if isTrailingSurrogate trail then (spelled? rest).map (surrogatePair lead trail :: ·)
        else none
      | _ => none
    else (spelled? rest).map (Char.ofNat lead :: ·)

/-- One or more digits. -/
structure Digits where
  chars : List Char
  some : chars ≠ []
  digits : ∀ c ∈ chars, isDigit c = true

structure Exponent where
  /-- Either case of the letter. -/
  letter : Char
  marks : letter = 'e' ∨ letter = 'E'
  sign : List Char
  signs : sign = [] ∨ sign = ['+'] ∨ sign = ['-']
  digits : Digits

/-- A number; a leading zero stands alone. -/
structure Numeral where
  negative : Bool
  whole : Digits
  leading : whole.chars.head? = some '0' → whole.chars = ['0']
  fraction : Option Digits
  exponent : Option Exponent

def Exponent.written (exponent : Exponent) : List Char :=
  exponent.letter :: exponent.sign ++ exponent.digits.chars

def Numeral.unsigned (numeral : Numeral) : List Char :=
  numeral.whole.chars ++ (numeral.fraction.elim [] fun digits => '.' :: digits.chars) ++
    numeral.exponent.elim [] Exponent.written

def Numeral.written (numeral : Numeral) : List Char :=
  if numeral.negative then '-' :: numeral.unsigned else numeral.unsigned

/-- A thing with white space around it. -/
structure Laid (α : Type) where
  before : Gap
  value : α
  after : Gap

/-- A member of an object: a key, a colon and a value. -/
structure Member (α : Type) where
  before : Gap
  key : List Piece
  behind : Gap
  content : Laid α

inductive Document where
  | null
  | boolean (b : Bool)
  | number (numeral : Numeral)
  | string (pieces : List Piece)
  | list (inner : Gap) (items : List (Laid Document))
  | object (inner : Gap) (members : List (Member Document))

/-- The comma in front of everything but the first. -/
def leadingComma (first : Bool) : List Char :=
  if first then [] else [',']

mutual

def Document.written : Document → List Char
  | .null => ['n', 'u', 'l', 'l']
  | .boolean b => booleanText b
  | .number numeral => numeral.written
  | .string pieces => '"' :: (writtenPieces pieces ++ ['"'])
  | .list inner items => '[' :: (inner.chars ++ (writtenItems true items ++ [']']))
  | .object inner members => '{' :: (inner.chars ++ (writtenMembers true members ++ ['}']))

def writtenItems (first : Bool) : List (Laid Document) → List Char
  | [] => []
  | ⟨before, value, after⟩ :: rest =>
    leadingComma first ++
      (before.chars ++ (value.written ++ (after.chars ++ writtenItems false rest)))

def writtenMembers (first : Bool) : List (Member Document) → List Char
  | [] => []
  | ⟨before, key, behind, ⟨ahead, value, after⟩⟩ :: rest =>
    leadingComma first ++ (before.chars ++ ('"' :: (writtenPieces key ++ ('"' :: (behind.chars ++
      (':' :: (ahead.chars ++ (value.written ++ (after.chars ++ writtenMembers false rest)))))))))

end

/-- The text of a string. -/
def Document.text? : Document → Option String
  | .string pieces => (spelled? pieces).map String.ofList
  | _ => none

/-- The name of a member, if its key spells a text. -/
def Member.name? (member : Member Document) : Option String :=
  (spelled? member.key).map String.ofList

end GitHistory.Json
