import GitHistory.Shell.Script
import GitHistory.Text.Split

/-!
Cutting a script into words, operators and redirections. A here-document is taken out of the
text where it is announced, so the tokens behind the announcement go on with its line.
-/
namespace GitHistory.Shell

inductive Token where
  | word (line : Nat) (word : Word)
  | operator (text : String)
  | redirect (redirect : Redirect)
  deriving Repr

def isBlankInLine (c : Char) : Bool := c == ' ' || c == '\t'

/-- Characters that end a word. -/
def isDelimiter (c : Char) : Bool :=
  isBlankInLine c || "\n;&|()<>".toList.contains c

def isNameStart (c : Char) : Bool := c.isAlpha || c == '_'

def isNameChar (c : Char) : Bool := isNameStart c || c.isDigit

/-- Parameters whose name is one character that no other name may hold. -/
def isSpecialParameter (c : Char) : Bool := "@*#?$!-".toList.contains c

/-- The parameter of the text behind a dollar sign, if one is named there. -/
def parameter (quoted : Bool) : List Char → Option (Piece × List Char)
  | '{' :: rest => do
    let (name, rest) :=
      match rest with
      | c :: more => if isSpecialParameter c then ([c], more) else rest.span isNameChar
      | [] => ([], [])
    let name := String.ofList name
    match rest with
    | '}' :: rest => pure (.parameter name none quoted, rest)
    | ':' :: sign :: rest => fallback name true sign rest
    | sign :: rest => fallback name false sign rest
    | [] => none
  | c :: rest =>
    if isNameStart c then
      let (name, rest) := (c :: rest).span isNameChar
      some (.parameter (String.ofList name) none quoted, rest)
    else if c.isDigit || isSpecialParameter c then
      some (.parameter (String.ofList [c]) none quoted, rest)
    else none
  | [] => none
where
  fallback (name : String) (emptyIsUnset : Bool) (sign : Char) (rest : List Char) :
      Option (Piece × List Char) := do
    if sign != '-' && sign != '+' then none
    let (text, rest) ← Text.cut? '}' rest
    pure (.parameter name (some ⟨String.ofList text, emptyIsUnset, sign == '+'⟩) quoted, rest)

/-- The pieces up to the character that closes a quoted text; `none` stands for the end of the
text. -/
def quotedPieces (close : Option Char) : Nat → List Char → Option (List Piece × List Char)
  | 0, _ => none
  | _ + 1, [] => if close.isNone then some ([], []) else none
  | turns + 1, c :: rest =>
    if some c = close then some ([], rest)
    else
      let one := fun (piece : Piece) (rest : List Char) =>
        (quotedPieces close turns rest).map fun (pieces, rest) => (piece :: pieces, rest)
      match c, rest with
      | '\\', '\n' :: rest => quotedPieces close turns rest
      | '\\', next :: more =>
        if next = '$' ∨ next = '\\' ∨ next = Char.ofNat 96 ∨ some next = close then
          one (.text (String.ofList [next]) true) more
        else one (.text "\\" true) (next :: more)
      | '$', rest =>
        match parameter true rest with
        | some (piece, rest) => one piece rest
        | none => one (.text "$" true) rest
      | c, rest => one (.text (String.ofList [c]) true) rest

/-- The pieces of one word. -/
def wordPieces : Nat → List Char → Option (List Piece × List Char)
  | 0, _ => none
  | _ + 1, [] => some ([], [])
  | turns + 1, c :: rest =>
    let one := fun (piece : Piece) (rest : List Char) =>
      (wordPieces turns rest).map fun (pieces, rest) => (piece :: pieces, rest)
    if isDelimiter c then some ([], c :: rest)
    else if c = '\'' then do
      let (text, rest) ← Text.cut? '\'' rest
      one (.text (String.ofList text) true) rest
    else if c = '"' then do
      let (pieces, rest) ← quotedPieces (some '"') (rest.length + 1) rest
      let (more, rest) ← wordPieces turns rest
      pure (.text "" true :: pieces ++ more, rest)
    else if c = '\\' then
      match rest with
      | '\n' :: rest => wordPieces turns rest
      | next :: rest => one (.text (String.ofList [next]) true) rest
      | [] => one (.text "\\" true) []
    else if c = '$' then
      match parameter false rest with
      | some (piece, rest) => one piece rest
      | none => one (.text "$" false) rest
    else
      let isPlain := fun c => !isDelimiter c && c != '\'' && c != '"' && c != '\\' && c != '$'
      let (plain, rest) := (c :: rest).span isPlain
      one (.text (String.ofList plain) false) rest

def readWord (text : List Char) : Option (Word × List Char) :=
  wordPieces (text.length + 1) text

/-- Takes lines up to the one that equals the delimiter. -/
def takeUntilLine (delimiter : List Char) : List (List Char) → List (List Char) × List (List Char)
  | [] => ([], [])
  | line :: rest =>
    if line = delimiter then ([], rest)
    else
      let (body, rest) := takeUntilLine delimiter rest
      (line :: body, rest)

/-- The text of a word without its quotes, and whether any of it was quoted. -/
def plainText (word : Word) : String × Bool :=
  word.foldl
    (fun (done, quoted) piece =>
      match piece with
      | .text content q => (done ++ content, quoted || q)
      | .parameter name .. => (done ++ "$" ++ name, quoted))
    ("", false)

/-- Takes a here-document out of the lines below the current one. -/
def hereDocument (rest : List Char) : Option (Redirect × List Char) := do
  let (delimiter, rest) ← readWord (rest.dropWhile isBlankInLine)
  let (delimiter, quoted) := plainText delimiter
  let (line, below) := rest.span (· != '\n')
  let (body, below) := takeUntilLine delimiter.toList (Text.splitOn '\n' (below.drop 1))
  let content := body.flatMap fun line => line ++ ['\n']
  let pieces ←
    if quoted then pure [.text (String.ofList content) true]
    else (quotedPieces none (content.length + 1) content).map (·.1)
  pure (.input pieces, line ++ '\n' :: Text.join '\n' below)

/-- A redirection of a descriptor; the text starts behind the descriptor's number. -/
def redirection (descriptor : Option Nat) : List Char → Option (Redirect × List Char)
  | '>' :: '&' :: c :: rest =>
    if c.isDigit then some (.duplicate (descriptor.getD 1) (c.toNat - '0'.toNat), rest) else none
  | '>' :: '>' :: rest => discarded (descriptor.getD 1) rest
  | '>' :: rest => discarded (descriptor.getD 1) rest
  | '<' :: '<' :: rest => hereDocument rest
  | '<' :: rest => do
    let (path, rest) ← readWord (rest.dropWhile isBlankInLine)
    pure (.file path, rest)
  | _ => none
where
  discarded (descriptor : Nat) (rest : List Char) : Option (Redirect × List Char) :=
    (readWord (rest.dropWhile isBlankInLine)).map fun (_, rest) => (.discard descriptor, rest)

private def operators : List (List Char) :=
  [[';', ';'], ['&', '&'], ['|', '|'], [';'], ['\n'], ['&'], ['|'], ['('], [')']]

private def lineBreaks (text : List Char) : Nat := text.count '\n'

private def tokensFrom : Nat → Nat → List Char → Option (List Token)
  | 0, _, _ => none
  | turns + 1, line, text =>
    match text.dropWhile isBlankInLine with
    | [] => some []
    | '#' :: rest => tokensFrom turns line (rest.dropWhile (· != '\n'))
    | '\\' :: '\n' :: rest => tokensFrom turns (line + 1) rest
    | text =>
      match operators.find? (·.isPrefixOf text) with
      | some operator => do
        let more ← tokensFrom turns (line + lineBreaks operator) (text.drop operator.length)
        pure (.operator (String.ofList operator) :: more)
      | none =>
        let (descriptor, target) :=
          match text with
          | d :: arrow :: rest =>
            if d.isDigit && (arrow == '<' || arrow == '>') then
              (some (d.toNat - '0'.toNat), arrow :: rest)
            else (none, text)
          | _ => (none, text)
        match target with
        | '>' :: _ | '<' :: _ => do
          let (redirect, rest) ← redirection descriptor target
          let more ← tokensFrom turns (line + (lineBreaks text - lineBreaks rest)) rest
          pure (.redirect redirect :: more)
        | _ => do
          let (word, rest) ← readWord text
          let more ← tokensFrom turns (line + (lineBreaks text - lineBreaks rest)) rest
          pure (.word line word :: more)

/-- The tokens of a script, unless a quote is left open. -/
def tokens (script : String) : Option (List Token) :=
  let text := script.toList
  tokensFrom (2 * text.length + 2) 1 text

end GitHistory.Shell
