import GitHistory.Store.Signature
import GitHistory.Text.Utf8

/-!
Moments in the life of a reference, as they stand in braces behind an at sign: a number or a
date. A date has a digit or a word that tells a time in it; which time that is does not matter.
-/
namespace GitHistory

inductive Moment where
  | present
  /-- One change ago or more. -/
  | changesAgo
  | date
  /-- The branch that was current before. -/
  | earlierBranch
  deriving Repr, DecidableEq

namespace Moment

/-- The number that a whole text is. -/
def number? (text : List Char) : Option Int :=
  match Signature.integer? 32 (Text.utf8 text) with
  | some (number, []) => some number
  | _ => none

/-- Numbers above this one are dates, in seconds. -/
def changeLimit : Int := 100000000

private def months : List String := [
  "january", "february", "march", "april", "may", "june", "july", "august", "september",
  "october", "november", "december"]

private def timeWords : List String := [
  "yesterday", "noon", "midnight", "tea", "pm", "am", "never", "now", "one", "two", "three",
  "four", "five", "six", "seven", "eight", "nine", "ten", "last"]

/-- Whether a word of small letters tells a time; three letters of a month are enough. -/
private def isTimeWord (word : List Char) : Bool :=
  timeWords.contains (String.ofList word) ||
    (3 ≤ word.length && months.any fun month => word.isPrefixOf month.toList)

/-- The runs of letters in a text. -/
private def words : List Char → List (List Char)
  | [] => [[]]
  | c :: rest =>
    match words rest with
    | word :: others => if c.isAlpha then (c.toLower :: word) :: others else [] :: word :: others
    | [] => [[]]

def isDate (text : List Char) : Bool := text.any Char.isDigit || (words text).any isTimeWord

private def ofNumber (number : Int) : Moment :=
  if number = 0 then .present
  else if number < 0 then .earlierBranch
  else if number ≤ changeLimit then .changesAgo
  else .date

/-- Reads a moment. What is behind a minus sign has to be a number other than zero; the date
that never was stands for the present. -/
def ofText? (text : List Char) : Option Moment :=
  match number? text with
  | some number =>
    if number = 0 ∧ text.head? = some '-' then none else some (ofNumber number)
  | none =>
    if text.head? = some '-' then none
    else if text.map Char.toLower = "never".toList then some .present
    else if isDate text then some .date
    else none

end Moment

end GitHistory
