import GitHistory.Json.Failure

/-!
JSON values and their two written forms: compact, on one line without blanks, and laid out
with two blanks per level. Both keep the order of the members.
-/
namespace GitHistory.Json

inductive Value where
  | null
  | boolean (b : Bool)
  | number (n : Nat)
  | string (text : String)
  | list (values : List Value)
  | object (members : List (String × Value))

/-- One character inside a JSON string. -/
def escapeChar (c : Char) : List Char :=
  match c with
  | '"' => ['\\', '"']
  | '\\' => ['\\', '\\']
  | '\x08' => ['\\', 'b']
  | '\x0c' => ['\\', 'f']
  | '\n' => ['\\', 'n']
  | '\r' => ['\\', 'r']
  | '\t' => ['\\', 't']
  | c =>
    if c.val < 0x20 then
      ['\\', 'u', '0', '0', Nat.digitChar (c.toNat / 16), Nat.digitChar (c.toNat % 16)]
    else [c]

/-- A text as a JSON string, with its quotes. -/
def stringText (text : String) : List Char :=
  '"' :: text.toList.flatMap escapeChar ++ ['"']

def booleanText (b : Bool) : List Char :=
  (if b then "true" else "false").toList

mutual

/-- The compact form. -/
def Value.compact : Value → List Char
  | .null => ['n', 'u', 'l', 'l']
  | .boolean b => booleanText b
  | .number n => Nat.toDigits 10 n
  | .string text => stringText text
  | .list values => '[' :: compactValues values ++ [']']
  | .object members => '{' :: compactMembers members ++ ['}']

def compactValues : List Value → List Char
  | [] => []
  | [value] => value.compact
  | value :: rest => value.compact ++ ',' :: compactValues rest

def compactMembers : List (String × Value) → List Char
  | [] => []
  | [(key, value)] => stringText key ++ ':' :: value.compact
  | (key, value) :: rest =>
    stringText key ++ ':' :: value.compact ++ ',' :: compactMembers rest

end

/-- A new line at a level of nesting. -/
def lineAt (level : Nat) : List Char :=
  '\n' :: List.replicate (2 * level) ' '

mutual

/-- The laid-out form at a level of nesting. -/
def Value.laidOut (level : Nat) : Value → List Char
  | .null => ['n', 'u', 'l', 'l']
  | .boolean b => booleanText b
  | .number n => Nat.toDigits 10 n
  | .string text => stringText text
  | .list [] => ['[', ']']
  | .list values =>
    '[' :: laidOutValues (level + 1) values ++ lineAt level ++ [']']
  | .object [] => ['{', '}']
  | .object members =>
    '{' :: laidOutMembers (level + 1) members ++ lineAt level ++ ['}']

def laidOutValues (level : Nat) : List Value → List Char
  | [] => []
  | [value] => lineAt level ++ value.laidOut level
  | value :: rest => lineAt level ++ value.laidOut level ++ ',' :: laidOutValues level rest

def laidOutMembers (level : Nat) : List (String × Value) → List Char
  | [] => []
  | [(key, value)] => lineAt level ++ stringText key ++ ':' :: ' ' :: value.laidOut level
  | (key, value) :: rest =>
    lineAt level ++ stringText key ++ ':' :: ' ' :: value.laidOut level ++
      ',' :: laidOutMembers level rest

end

/-- The compact form as a string. -/
def Value.render (value : Value) : String :=
  String.ofList value.compact

/-- The laid-out form as a string. -/
def Value.renderLaidOut (value : Value) : String :=
  String.ofList (value.laidOut 0)

/-- Null, or a text. -/
def Value.ofOptional : Option String → Value
  | none => .null
  | some text => .string text

end GitHistory.Json
