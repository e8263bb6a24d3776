/-!
White space by the Unicode property, and trimming by it. Trimming removes blank characters
from the ends only; a text is blank when nothing is left.
-/
namespace GitHistory.Text

/-- Characters with the Unicode property `White_Space`. -/
def isBlank (c : Char) : Bool :=
  (0x9 ≤ c.val && c.val ≤ 0xD) || c.val == 0x20 || c.val == 0x85 || c.val == 0xA0 ||
    c.val == 0x1680 || (0x2000 ≤ c.val && c.val ≤ 0x200A) || c.val == 0x2028 ||
    c.val == 0x2029 || c.val == 0x202F || c.val == 0x205F || c.val == 0x3000

/-- Drops the longest suffix whose characters all satisfy `drop`. -/
def trimEnd (drop : Char → Bool) (text : List Char) : List Char :=
  (text.reverse.dropWhile drop).reverse

/-- Drops blank characters from both ends. -/
def trim (text : List Char) : List Char :=
  trimEnd isBlank (text.dropWhile isBlank)

/-- Only white space, or nothing at all. -/
def isBlankText (text : List Char) : Bool :=
  text.all isBlank

theorem isBlankText_iff (text : List Char) :
    isBlankText text = true ↔ ∀ c ∈ text, isBlank c = true := by
  simp [isBlankText]

end GitHistory.Text
