/-!
Sets of characters as a pattern names them: one by one, in ranges, or by their kind. Kinds know
ASCII only; other characters belong to none.
-/
namespace GitHistory

/-- Kinds of characters. -/
inductive CharKind where
  | digit
  | word
  | space
  | horizontalSpace
  | verticalSpace
  | letter
  | capital
  | small
  | letterOrDigit
  | ascii
  | control
  | visible
  | printed
  | punctuation
  | hexDigit
  deriving Repr, DecidableEq

namespace CharKind

private def isVisible (c : Char) : Bool := decide ('!' ≤ c) && decide (c ≤ '~')

def holds : CharKind → Char → Bool
  | .digit, c => c.isDigit
  | .word, c => c.isAlphanum || c == '_'
  | .space, c => c == ' ' || (9 ≤ c.toNat && c.toNat ≤ 13)
  | .horizontalSpace, c => c == ' ' || c == '\t' || c.toNat == 160
  | .verticalSpace, c => (10 ≤ c.toNat && c.toNat ≤ 13) || c.toNat == 133
  | .letter, c => c.isAlpha
  | .capital, c => c.isUpper
  | .small, c => c.isLower
  | .letterOrDigit, c => c.isAlphanum
  | .ascii, c => decide (c.toNat < 128)
  | .control, c => decide (c.toNat < 32) || c.toNat == 127
  | .visible, c => isVisible c
  | .printed, c => isVisible c || c == ' '
  | .punctuation, c => isVisible c && !c.isAlphanum
  | .hexDigit, c => c.isDigit || ('a' ≤ c && c ≤ 'f') || ('A' ≤ c && c ≤ 'F')

/-- The kind that a name between colons stands for. -/
def named? (name : String) : Option CharKind :=
  [("alpha", .letter), ("lower", .small), ("upper", .capital), ("alnum", .letterOrDigit),
    ("ascii", .ascii), ("blank", .horizontalSpace), ("cntrl", .control), ("digit", .digit),
    ("graph", .visible), ("print", .printed), ("punct", .punctuation), ("space", .space),
    ("word", .word), ("xdigit", .hexDigit)].lookup name

/-- The kind that a letter behind a backslash stands for; a capital stands for all others. -/
def escaped? (letter : Char) : Option (CharKind × Bool) :=
  match letter with
  | 'd' => some (.digit, false)
  | 'D' => some (.digit, true)
  | 'w' => some (.word, false)
  | 'W' => some (.word, true)
  | 's' => some (.space, false)
  | 'S' => some (.space, true)
  | 'h' => some (.horizontalSpace, false)
  | 'H' => some (.horizontalSpace, true)
  | 'v' => some (.verticalSpace, false)
  | 'V' => some (.verticalSpace, true)
  | _ => none

end CharKind

/-- Characters of a set: from one to another, or of a kind, or of all others than a kind. -/
inductive CharRange where
  | between (low high : Char)
  | ofKind (kind : CharKind) (negated : Bool)
  deriving Repr, DecidableEq

def CharRange.contains : CharRange → Char → Bool
  | .between low high, c => decide (low ≤ c) && decide (c ≤ high)
  | .ofKind kind negated, c => kind.holds c != negated

structure CharSet where
  ranges : List CharRange
  negated : Bool
  /-- Whether a letter is as good as the other one of its kind. -/
  caseless : Bool
  deriving Repr, DecidableEq

namespace CharSet

def contains (set : CharSet) (c : Char) : Bool :=
  let holds := fun (c : Char) => set.ranges.any (·.contains c)
  (holds c || (set.caseless && (holds c.toLower || holds c.toUpper))) != set.negated

def single (caseless : Bool) (c : Char) : CharSet := ⟨[.between c c], false, caseless⟩

def ofKind (kind : CharKind) (negated : Bool) : CharSet := ⟨[.ofKind kind negated], false, false⟩

/-- Every character. -/
def all : CharSet := ⟨[], true, false⟩

/-- Every character but the end of a line. -/
def withinLine : CharSet := ⟨[.between '\n' '\n'], true, false⟩

end CharSet

end GitHistory
