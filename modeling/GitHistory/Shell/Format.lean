import GitHistory.Text.Numeral
import GitHistory.Text.Utf8

/-!
What `printf` and `echo` write. A format is used again until all arguments are taken.
-/
namespace GitHistory.Shell

def octalValue? (c : Char) : Option Nat :=
  if '0' ≤ c ∧ c ≤ '7' then some (c.toNat - '0'.toNat) else none

/-- The value of up to `count` octal digits, and what follows them. -/
def octal : Nat → Nat → List Char → Nat × List Char
  | 0, value, text => (value, text)
  | _, value, [] => (value, [])
  | count + 1, value, c :: rest =>
    match octalValue? c with
    | some digit => octal count (value * 8 + digit) rest
    | none => (value, c :: rest)

/-- Characters with a short escape. -/
def shortEscape? : Char → Option UInt8
  | 'a' => some 7
  | 'b' => some 8
  | 'e' => some 27
  | 't' => some 9
  | 'n' => some 10
  | 'v' => some 11
  | 'f' => some 12
  | 'r' => some 13
  | '\\' => some 92
  | _ => none

/-- The bytes of an escape, of the text behind its backslash. -/
def escape (text : List Char) : List UInt8 × List Char :=
  match text with
  | [] => ([92], [])
  | c :: rest =>
    match shortEscape? c with
    | some byte => ([byte], rest)
    | none =>
      if (octalValue? c).isSome then
        let (value, rest) := octal 3 0 (c :: rest)
        ([UInt8.ofNat value], rest)
      else ([92], c :: rest)

/-- Bytes with their escapes undone, where an octal escape has a zero in front. -/
def unescaped : Nat → List Char → List UInt8
  | 0, _ => []
  | _, [] => []
  | turns + 1, '\\' :: '0' :: rest =>
    let (value, rest) := octal 3 0 rest
    UInt8.ofNat value :: unescaped turns rest
  | turns + 1, '\\' :: c :: rest =>
    match shortEscape? c with
    | some byte => byte :: unescaped turns rest
    | none => 92 :: unescaped turns (c :: rest)
  | turns + 1, c :: rest => Text.utf8 [c] ++ unescaped turns rest

/-- Writes a number argument. -/
def numberText (argument : String) : String :=
  match argument.toList with
  | '-' :: digits => "-" ++ toString ((Text.digits? digits).getD 0)
  | '+' :: digits => toString ((Text.digits? digits).getD 0)
  | digits => toString ((Text.digits? digits).getD 0)

/-- One pass over a format: what it writes, the arguments left, and whether it took any. -/
def formatOnce : Nat → List Char → List String → List UInt8 × List String × Bool
  | 0, _, arguments => ([], arguments, false)
  | _, [], arguments => ([], arguments, false)
  | turns + 1, '\\' :: rest, arguments =>
    let (bytes, rest) := escape rest
    let (more, arguments, taken) := formatOnce turns rest arguments
    (bytes ++ more, arguments, taken)
  | turns + 1, '%' :: '%' :: rest, arguments =>
    let (more, arguments, taken) := formatOnce turns rest arguments
    (37 :: more, arguments, taken)
  | turns + 1, '%' :: c :: rest, arguments =>
    let argument := arguments.headD ""
    let converted? : Option (List UInt8) :=
      match c with
      | 's' => some (Text.utf8 argument.toList)
      | 'b' => some (unescaped argument.length argument.toList)
      | 'c' => some (Text.utf8 (argument.toList.take 1))
      | 'd' => some (Text.utf8 (numberText argument).toList)
      | 'i' => some (Text.utf8 (numberText argument).toList)
      | 'u' => some (Text.utf8 (numberText argument).toList)
      | _ => none
    match converted? with
    | some bytes =>
      let (more, arguments, _) := formatOnce turns rest arguments.tail
      (bytes ++ more, arguments, true)
    | none =>
      let (more, arguments, taken) := formatOnce turns (c :: rest) arguments
      (37 :: more, arguments, taken)
  | turns + 1, c :: rest, arguments =>
    let (more, arguments, taken) := formatOnce turns rest arguments
    (Text.utf8 [c] ++ more, arguments, taken)

private def formatFrom (format : List Char) : Nat → List String → List UInt8
  | 0, _ => []
  | turns + 1, arguments =>
    match formatOnce (format.length + 1) format arguments with
    | (bytes, [], _) => bytes
    | (bytes, left, taken) => bytes ++ if taken then formatFrom format turns left else []

/-- What a format writes for its arguments. -/
def formatted (format : String) (arguments : List String) : List UInt8 :=
  formatFrom format.toList (arguments.length + 1) arguments

/-- Words separated by blanks. -/
def spaced (words : List String) : String := " ".intercalate words

/-- What the shell's own `echo` writes: escapes are undone. -/
def echoed (words : List String) : List UInt8 :=
  let (words, ending) :=
    match words with
    | "-n" :: words => (words, [])
    | words => (words, [(10 : UInt8)])
  let text := (spaced words).toList
  unescaped text.length text ++ ending

/-- What `echo` as a program of its own writes. -/
def echoedPlainly (words : List String) : List UInt8 :=
  match words with
  | "-n" :: words => Text.utf8 (spaced words).toList
  | words => Text.utf8 (spaced words).toList ++ [10]

end GitHistory.Shell
