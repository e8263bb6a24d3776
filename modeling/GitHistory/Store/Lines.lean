/-!
Comparing two contents line by line. Lines that both begin or end with are left aside. Of the
others those without an equal on the other side are changed, and so are those with many equals
among such lines; what is left is compared by a longest common subsequence.
-/
namespace GitHistory

/-- The lines of a content, each with its line end. -/
def contentLines : List UInt8 → List (List UInt8)
  | [] => []
  | b :: rest =>
    if b == 10 then [b] :: contentLines rest
    else
      match contentLines rest with
      | [] => [[b]]
      | line :: lines => (b :: line) :: lines

namespace Lines

variable {α : Type} [DecidableEq α]

/-- One row of the table of common lengths from the row below it: entry `j` is for the line `x`
and what follows it against the lines from `j` on. -/
def commonRow (x : α) : List α → List Nat → List Nat
  | y :: ys, below :: belows =>
    let row := commonRow x ys belows
    (if x = y then belows.headD 0 + 1 else max below (row.headD 0)) :: row
  | _, _ => [0]

/-- Length of a longest common subsequence. -/
def commonLength (xs ys : List α) : Nat :=
  (xs.foldr (fun x row => commonRow x ys row) (List.replicate (ys.length + 1) 0)).headD 0

/-- What two lists have besides what both begin with. -/
def dropCommonStart : List α → List α → List α × List α
  | x :: xs, y :: ys => if x = y then dropCommonStart xs ys else (x :: xs, y :: ys)
  | xs, ys => (xs, ys)

/-- What two lists have besides what both begin or end with. -/
def dropCommonEnds (xs ys : List α) : List α × List α :=
  let (xs, ys) := dropCommonStart xs ys
  let (xs, ys) := dropCommonStart xs.reverse ys.reverse
  (xs.reverse, ys.reverse)

/-- How many equals a line has on the other side. -/
inductive Standing where
  | unmatched
  | matched
  | frequent
  deriving Repr, DecidableEq

/-- The least power of two whose square is greater than a number, at least one. -/
def rootBound : Nat → Nat → Nat
  | 0, _ => 1
  | turns + 1, n => if n = 0 then 1 else 2 * rootBound turns (n / 4)

/-- Equals from which on a line of a content with so many lines is a frequent one. -/
def frequencyBound (lineCount : Nat) : Nat := min 1024 (rootBound lineCount lineCount)

def standing (bound : Nat) (others : List α) (line : α) : Standing :=
  let equals := others.count line
  if equals = 0 then .unmatched else if bound ≤ equals then .frequent else .matched

/-- Lines that are looked at on one side of a frequent line. -/
def window : Nat := 100

/-- Whether a frequent line counts as changed: without a matched line in between there are
unmatched ones on both sides, and they make up more than three quarters. -/
def isLost (before after : List Standing) : Bool :=
  let run := fun (side : List Standing) => (side.take window).takeWhile (· != .matched)
  let unmatchedBefore := (run before).count .unmatched
  let unmatchedAfter := (run after).count .unmatched
  let frequent := 2 + (run before).count .frequent + (run after).count .frequent
  unmatchedBefore != 0 && unmatchedAfter != 0 &&
    decide (frequent * 4 < frequent + unmatchedBefore + unmatchedAfter)

/-- The lines that are left for comparison; the standings of those before are kept in
reverse. -/
def comparable (before : List Standing) : List (α × Standing) → List α
  | [] => []
  | (line, standing) :: rest =>
    let isKept : Bool :=
      match standing with
      | .matched => true
      | .unmatched => false
      | .frequent => !isLost before (rest.map (·.2))
    if isKept then line :: comparable (standing :: before) rest
    else comparable (standing :: before) rest

/-- The lines of a part of `all` that are left for comparison with `others`. -/
def comparableIn (all others part : List α) : List α :=
  comparable [] (part.map fun line => (line, standing (frequencyBound all.length) others line))

/-- How many lines go and how many come. -/
def changes (old new : List α) : Nat × Nat :=
  let (oldPart, newPart) := dropCommonEnds old new
  let common := commonLength (comparableIn old new oldPart) (comparableIn new old newPart)
  (oldPart.length - common, newPart.length - common)

end Lines

end GitHistory
