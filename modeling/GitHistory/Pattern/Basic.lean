import GitHistory.Pattern.CharSet

/-!
Patterns and what they match. From a place in a text a pattern leads to places further on, the
preferred one first; it matches a text if it leads anywhere from some place in it.
-/
namespace GitHistory

/-- A place in a text: the character before it and what follows. -/
structure Place where
  before : Option Char
  rest : List Char
  deriving Repr, DecidableEq

namespace Place

def start (text : List Char) : Place := ⟨none, text⟩

/-- The place behind the next character, which has to be in a set. -/
def step (place : Place) (set : CharSet) : List Place :=
  match place.rest with
  | [] => []
  | c :: rest => if set.contains c then [⟨some c, rest⟩] else []

/-- All places from one on. -/
def onward (before : Option Char) : List Char → List Place
  | [] => [⟨before, []⟩]
  | c :: rest => ⟨before, c :: rest⟩ :: onward (some c) rest

/-- Whether a word starts or ends here. -/
def isWordEdge (place : Place) : Bool :=
  place.before.any CharKind.word.holds != place.rest.head?.any CharKind.word.holds

end Place

/-- What may be asked of a place. -/
inductive Anchor where
  | textStart
  | lineStart
  | lineEnd
  | textEnd
  /-- The end of the text, or the end of its last line. -/
  | lastLineEnd
  | wordEdge
  | noWordEdge
  deriving Repr, DecidableEq

def Anchor.holds (place : Place) : Anchor → Bool
  | .textStart => place.before.isNone
  | .lineStart => place.before.isNone || (place.before == some '\n' && !place.rest.isEmpty)
  | .lineEnd => place.rest.isEmpty || place.rest.head? == some '\n'
  | .textEnd => place.rest.isEmpty
  | .lastLineEnd => place.rest.isEmpty || place.rest == ['\n']
  | .wordEdge => place.isWordEdge
  | .noWordEdge => !place.isWordEdge

inductive Pattern where
  | empty
  | one (set : CharSet)
  | here (anchor : Anchor)
  | both (first second : Pattern)
  | either (first second : Pattern)
  /-- So many times and, where there is a limit, so many more at most. -/
  | repeated (item : Pattern) (least : Nat) (more : Option Nat) (greedy : Bool)
  /-- Nothing but the first choice. -/
  | atomic (inner : Pattern)
  | ahead (inner : Pattern)
  | notAhead (inner : Pattern)
  deriving Repr, DecidableEq

namespace Pattern

/-- The places after so many steps. -/
def after (step : Place → List Place) : Nat → Place → List Place
  | 0, place => [place]
  | times + 1, place => ((after step times place).flatMap step).eraseDups

/-- A place, and how many more steps may be taken from it. -/
abbrev Stop := Option Nat × Place

/-- The stops one step on. A step that gets nowhere is none. -/
def next (step : Place → List Place) : Stop → List Stop
  | (some 0, _) => []
  | (left, place) =>
    ((step place).filter fun reached => reached.rest.length < place.rest.length).map
      fun reached => (left.map (· - 1), reached)

/-- Goes from stop to stop, visiting none twice. A stop that is `done` is given out; where steps
are wanted that comes after those further on, otherwise before. -/
def explore (step : Place → List Place) (greedy : Bool) :
    Nat → List (Bool × Stop) → List Stop → List Place
  | 0, _, _ => []
  | _, [], _ => []
  | turns + 1, (true, stop) :: work, seen => stop.2 :: explore step greedy turns work seen
  | turns + 1, (false, stop) :: work, seen =>
    if seen.contains stop then explore step greedy turns work seen
    else
      let further := (next step stop).map (false, ·)
      let work := if greedy then further ++ (true, stop) :: work
        else (true, stop) :: further ++ work
      explore step greedy turns work (stop :: seen)

/-- The places after any number of steps up to a limit. There are no more stops than pairs of
places, and from each there are no more steps than places. -/
def within (step : Place → List Place) (greedy : Bool) (more : Option Nat) (place : Place) :
    List Place :=
  let size := place.rest.length + 2
  (explore step greedy (size * size * size) [(false, more, place)] []).eraseDups

/-- The places that a pattern leads to, the preferred one first. -/
def ends : Pattern → Place → List Place
  | .empty, place => [place]
  | .one set, place => place.step set
  | .here anchor, place => if anchor.holds place then [place] else []
  | .both first second, place =>
    ((ends first place).flatMap fun reached => ends second reached).eraseDups
  | .either first second, place => (ends first place ++ ends second place).eraseDups
  | .repeated item least more greedy, place =>
    ((after (ends item) least place).flatMap (within (ends item) greedy more)).eraseDups
  | .atomic inner, place => (ends inner place).take 1
  | .ahead inner, place => if (ends inner place).isEmpty then [] else [place]
  | .notAhead inner, place => if (ends inner place).isEmpty then [place] else []

/-- Whether a text has a part that matches. -/
def occursIn (pattern : Pattern) (text : List Char) : Bool :=
  (Place.onward none text).any fun place => !(pattern.ends place).isEmpty

end Pattern

end GitHistory
