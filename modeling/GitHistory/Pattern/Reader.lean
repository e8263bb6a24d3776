import GitHistory.Pattern.Basic
import GitHistory.Text.Numeral

/-!
Reading patterns. A character stands for itself unless it is one of those that mean something;
a backslash takes the meaning away, or gives one to a letter. Patterns that look back, or ask
for what a group has matched, are not read.
-/
namespace GitHistory

namespace Pattern

/-- What holds from some point of a pattern on, to the end of the group. -/
structure Options where
  caseless : Bool := false
  everyLine : Bool := false
  acrossLines : Bool := false
  deriving Repr, DecidableEq

/-- Largest number of repetitions. -/
def countLimit : Nat := 65535

/-- Fewest and most repetitions, in braces; what is in other braces stands for itself. -/
def counts? (text : List Char) : Option (Nat × Option Nat × List Char) :=
  match text with
  | '\x7b' :: text => do
    let least ← Text.digits? (text.takeWhile Char.isDigit)
    match text.dropWhile Char.isDigit with
    | '\x7d' :: rest => some (least, some least, rest)
    | ',' :: '\x7d' :: rest => some (least, none, rest)
    | ',' :: text =>
      let most ← Text.digits? (text.takeWhile Char.isDigit)
      match text.dropWhile Char.isDigit with
      | '\x7d' :: rest => some (least, some most, rest)
      | _ => none
    | _ => none
  | _ => none

/-- How often an item is repeated, as told by what follows it. -/
def repetition? (text : List Char) : Option (Nat × Option Nat × List Char) :=
  match text with
  | '*' :: rest => some (0, none, rest)
  | '+' :: rest => some (1, none, rest)
  | '?' :: rest => some (0, some 1, rest)
  | text => counts? text

/-- An item with the repetition that follows it. As many as possible are tried first, or as few
with a question mark behind; with a plus sign no others are tried. -/
def quantified? (item : Pattern) (text : List Char) : Option (Pattern × List Char) :=
  match repetition? text with
  | none => some (item, text)
  | some (least, most, rest) =>
    if countLimit < least ∨ most.any fun most => countLimit < most || most < least then none
    else
      let times := Pattern.repeated item least (most.map (· - least))
      match rest with
      | '?' :: rest => some (times false, rest)
      | '+' :: rest => some (.atomic (times true), rest)
      | rest => some (times true, rest)

private def hexValue? (c : Char) : Option Nat :=
  if c.isDigit then some (c.toNat - 48)
  else if 'a' ≤ c ∧ c ≤ 'f' then some (c.toNat - 87)
  else if 'A' ≤ c ∧ c ≤ 'F' then some (c.toNat - 55)
  else none

private def valueOf (base : Nat) (digits : List Char) : Nat :=
  (digits.filterMap hexValue?).foldl (fun value digit => value * base + digit) 0

private def isOctal (c : Char) : Bool := decide ('0' ≤ c) && decide (c ≤ '7')

/-- The characters at the start of a text that pass a test, at most so many. -/
private def leading (most : Nat) (test : Char → Bool) (text : List Char) : List Char :=
  (text.take most).takeWhile test

/-- The character that stands behind a backslash as its code. Outside of sets a single digit is
none, as it asks for a group. -/
def codedChar? (inSet : Bool) (text : List Char) : Option (Char × List Char) :=
  let coded := fun (base : Nat) (digits : List Char) (text : List Char) =>
    (Char.ofNat (valueOf base digits), text.drop digits.length)
  match text with
  | 'x' :: '\x7b' :: text =>
    let digits := text.takeWhile fun c => (hexValue? c).isSome
    match text.drop digits.length with
    | '\x7d' :: rest =>
      if digits.isEmpty ∨ 255 < valueOf 16 digits then none
      else some (Char.ofNat (valueOf 16 digits), rest)
    | _ => none
  | 'x' :: text => some (coded 16 (leading 2 (fun c => (hexValue? c).isSome) text) text)
  | '0' :: text => some (coded 8 (leading 2 isOctal text) text)
  | 'c' :: c :: rest =>
    if c.toNat < 128 then some (Char.ofNat (c.toUpper.toNat ^^^ 64), rest) else none
  | text =>
    let digits := leading 3 isOctal text
    let isCode := inSet || (text.drop 1).head?.any Char.isDigit
    if digits.isEmpty ∨ 255 < valueOf 8 digits ∨ !isCode then none
    else some (coded 8 digits text)

/-- Letters behind a backslash that mean something of which nothing is read here. -/
private def unread : List Char := "123456789CEGKLNPQRUXcgklopux".toList

/-- The character that a backslash and what follows it stand for. -/
def escapedChar? (inSet : Bool) (text : List Char) : Option (Char × List Char) :=
  match text with
  | [] => none
  | 'a' :: rest => some (Char.ofNat 7, rest)
  | 'e' :: rest => some (Char.ofNat 27, rest)
  | 'f' :: rest => some (Char.ofNat 12, rest)
  | 'n' :: rest => some ('\n', rest)
  | 'r' :: rest => some ('\r', rest)
  | 't' :: rest => some ('\t', rest)
  | c :: rest =>
    match codedChar? inSet (c :: rest) with
    | some coded => some coded
    | none => if unread.contains c then none else some (c, rest)

/-- One character of a set, or characters of a kind, behind a backslash. -/
private def escapedRange? (text : List Char) : Option (CharRange × List Char) :=
  match text with
  | 'b' :: rest => some (.between (Char.ofNat 8) (Char.ofNat 8), rest)
  | text => do
    if let letter :: rest := text then
      if let some (kind, negated) := CharKind.escaped? letter then
        return (.ofKind kind negated, rest)
    let (c, rest) ← escapedChar? true text
    some (.between c c, rest)

/-- The text before a mark with a bracket behind it, and what follows them; there is none where
another bracket comes first. -/
private def bracketed? (mark : Char) : List Char → Option (List Char × List Char)
  | [] => none
  | c :: rest =>
    if c = ']' ∨ c = '[' ∧ rest.head? = some mark then none
    else if c = mark ∧ rest.head? = some ']' then some ([], rest.drop 1)
    else
      match rest with
      | next :: more =>
        if c = '\\' ∧ (next = '\\' ∨ next = ']') then
          (bracketed? mark more).map fun (inner, rest) => (c :: next :: inner, rest)
        else (bracketed? mark (next :: more)).map fun (inner, rest) => (c :: inner, rest)
      | [] => none

/-- What stands between brackets with marks inside them; the first bracket has been read. -/
private def marked? (text : List Char) : Option (Char × List Char × List Char) :=
  match text with
  | [] => none
  | mark :: rest =>
    if [':', '.', '='].contains mark then (bracketed? mark rest).map fun found => (mark, found)
    else none

/-- The kind that a name between colons stands for, or all others with a caret in front. -/
private def namedRange? (mark : Char) (name : List Char) : Option CharRange :=
  match mark, name with
  | ':', '^' :: name => (CharKind.named? (String.ofList name)).map (.ofKind · true)
  | ':', name => (CharKind.named? (String.ofList name)).map (.ofKind · false)
  | _, _ => none

/-- The next of the things that a set consists of. -/
private def range? (text : List Char) : Option (CharRange × List Char) :=
  match text with
  | [] => none
  | '\\' :: rest => escapedRange? rest
  | '[' :: rest =>
    match marked? rest with
    | some (mark, name, rest) => (namedRange? mark name).map (·, rest)
    | none => some (.between '[' '[', rest)
  | c :: rest => some (.between c c, rest)

/-- What a set consists of, up to the bracket at its end, which stands for itself if it comes
first. No range starts from characters of a kind. -/
private def ranges? : Nat → Bool → List Char → Option (List CharRange × List Char)
  | 0, _, _ => none
  | _, false, ']' :: rest => some ([], rest)
  | turns + 1, _, text => do
    let (range, rest) ← range? text
    let alone := do
      let (ranges, rest) ← ranges? turns false rest
      some (range :: ranges, rest)
    match range, rest with
    | .between low _, '-' :: next :: more =>
      if next = ']' then alone
      else
        match ← range? (next :: more) with
        | (.between high _, rest) =>
          if high < low then none
          else
            let (ranges, rest) ← ranges? turns false rest
            some (.between low high :: ranges, rest)
        | _ => alone
    | .ofKind .., '-' :: next :: _ => if next = ']' then alone else none
    | _, _ => alone

/-- A set; the first bracket has been read. -/
private def set? (options : Options) (text : List Char) : Option (CharSet × List Char) := do
  if (marked? text).isSome then none
  else
    let (negated, text) :=
      match text with
      | '^' :: text => (true, text)
      | text => (false, text)
    let (ranges, rest) ← ranges? (text.length + 1) true text
    some (⟨ranges, negated, options.caseless⟩, rest)

/-- Options to be set or, behind a minus sign, cleared. -/
private def options? (value : Bool) (options : Options) :
    List Char → Option (Options × List Char)
  | 'i' :: rest => options? value { options with caseless := value } rest
  | 'm' :: rest => options? value { options with everyLine := value } rest
  | 's' :: rest => options? value { options with acrossLines := value } rest
  | '-' :: rest => if value then options? false options rest else none
  | rest => some (options, rest)

/-- A place that is asked for by a letter behind a backslash. -/
private def escapedAnchor? : Char → Option Anchor
  | 'A' => some .textStart
  | 'G' => some .textStart
  | 'Z' => some .lastLineEnd
  | 'z' => some .textEnd
  | 'b' => some .wordEdge
  | 'B' => some .noWordEdge
  | _ => none

private def firstChar (options : Options) : Anchor :=
  if options.everyLine then .lineStart else .textStart

private def lastChar (options : Options) : Anchor :=
  if options.everyLine then .lineEnd else .lastLineEnd

private def sequence (items : List Pattern) : Pattern :=
  items.foldl (fun rest item => .both item rest) .empty

private def choice (alternatives : List Pattern) (last : Pattern) : Pattern :=
  alternatives.foldl (fun rest alternative => .either alternative rest) last

/-- The text up to the end of a quotation, and what follows it. -/
private def quotation : List Char → List Char × List Char
  | '\\' :: 'E' :: rest => ([], rest)
  | c :: rest => let (inner, rest) := quotation rest; (c :: inner, rest)
  | [] => ([], [])

/-- How a group opens: what becomes of its pattern, and its options. -/
private def opening? (options : Options) (text : List Char) :
    Option ((Pattern → Pattern) × Options × List Char) :=
  match text with
  | '?' :: '=' :: rest => some (.ahead, options, rest)
  | '?' :: '!' :: rest => some (.notAhead, options, rest)
  | '?' :: '>' :: rest => some (.atomic, options, rest)
  | '?' :: '|' :: rest => some (id, options, rest)
  | '?' :: rest =>
    match options? true options rest with
    | some (options, ':' :: rest) => some (id, options, rest)
    | _ => none
  | '*' :: _ => none
  | rest => some (id, options, rest)

/-- Reads up to the end of a group. The alternatives and items that were read are kept in
reverse. -/
private def group? : Nat → Options → List Pattern → List Pattern → List Char →
    Option (Pattern × List Char)
  | 0, _, _, _, _ => none
  | _, _, alternatives, items, [] => some (choice alternatives (sequence items), [])
  | turns + 1, options, alternatives, items, c :: rest => do
    let take := fun (item : Pattern) (text : List Char) => do
      let (item, rest) ← quantified? item text
      group? turns options alternatives (item :: items) rest
    let place := fun (anchor : Anchor) (text : List Char) =>
      if (repetition? text).isSome then none
      else group? turns options alternatives (.here anchor :: items) text
    match c, rest with
    | ')', _ => some (choice alternatives (sequence items), c :: rest)
    | '|', _ => group? turns options (sequence items :: alternatives) [] rest
    | '(', '?' :: '#' :: text =>
      match text.dropWhile (· != ')') with
      | [] => none
      | _ :: rest => group? turns options alternatives items rest
    | '(', text =>
      match text with
      | '?' :: more =>
        if let some (options, ')' :: rest) := options? true options more then
          return ← group? turns options alternatives items rest
      | _ => pure ()
      let (wrap, inside, text) ← opening? options text
      match ← group? turns inside [] [] text with
      | (inner, ')' :: rest) => take (wrap inner) rest
      | _ => none
    | '[', text =>
      let (set, rest) ← set? options text
      take (.one set) rest
    | '.', _ => take (.one (if options.acrossLines then .all else .withinLine)) rest
    | '^', _ => place (firstChar options) rest
    | '$', _ => place (lastChar options) rest
    | '\\', 'Q' :: text =>
      let (inner, rest) := quotation text
      let quoted := inner.map fun c => Pattern.one (.single options.caseless c)
      match quoted.reverse with
      | [] => group? turns options alternatives items rest
      | last :: front =>
        let (last, rest) ← quantified? last rest
        group? turns options alternatives (last :: front ++ items) rest
    | '\\', 'E' :: rest => group? turns options alternatives items rest
    | '\\', 'C' :: rest => take (.one .all) rest
    | '\\', 'N' :: rest => take (.one .withinLine) rest
    | '\\', letter :: text =>
      match escapedAnchor? letter with
      | some anchor => place anchor text
      | none =>
        match CharKind.escaped? letter with
        | some (kind, negated) => take (.one (.ofKind kind negated)) text
        | none =>
          let (c, rest) ← escapedChar? false rest
          take (.one (.single options.caseless c)) rest
    | _, _ =>
      if c = '\\' ∨ (repetition? (c :: rest)).isSome then none
      else take (.one (.single options.caseless c)) rest

/-- Reads a pattern. -/
def ofText? (text : List Char) : Option Pattern :=
  match group? (text.length + 1) {} [] [] text with
  | some (pattern, []) => some pattern
  | _ => none

end Pattern

end GitHistory
