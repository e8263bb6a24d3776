import GitHistory.Store.Signature

/-!
The two parts of a commit message: the summary, which is the first paragraph on one line, and
the body, which is what follows the first blank line. Both are bytes, and blank lines in front
of the message count for neither.
-/
namespace GitHistory.Message

def lineFeed : UInt8 := 10

/-- White space within a line. -/
def isBlankByte (b : UInt8) : Bool := isSpaceByte b && b != lineFeed

/-- The message proper. -/
def content (raw : List UInt8) : List UInt8 :=
  (Signature.beforeZero raw).dropWhile (· == lineFeed)

/-- Whether nothing but white space stands on the line that starts here. -/
def startsBlankLine (text : List UInt8) : Bool :=
  match text.dropWhile isBlankByte with
  | [] => true
  | b :: _ => b == lineFeed

/-- Everything before the line end that a blank line follows. -/
def firstParagraph : List UInt8 → List UInt8
  | [] => []
  | b :: rest =>
    if b == lineFeed && startsBlankLine rest then [] else b :: firstParagraph rest

/-- One run of white space as it appears within a line. -/
def joined (run : List UInt8) : List UInt8 :=
  if run.contains lineFeed then [32] else run

/-- Puts lines into one: white space with a line end in it becomes a blank, and white space at
the end goes. `run` is the white space right before the text. -/
def oneLine (run : List UInt8) : List UInt8 → List UInt8
  | [] => []
  | b :: rest =>
    if isSpaceByte b then oneLine (run ++ [b]) rest
    else joined run ++ b :: oneLine [] rest

def summary (raw : List UInt8) : List UInt8 :=
  oneLine [] (firstParagraph (content raw))

/-- What follows the first line end with another one, or with nothing, behind it. -/
def afterBlankLine : List UInt8 → List UInt8
  | [] => []
  | b :: rest =>
    if b == lineFeed && (rest.isEmpty || rest.head? == some lineFeed) then rest
    else afterBlankLine rest

def body (raw : List UInt8) : List UInt8 :=
  (((afterBlankLine (content raw)).dropWhile isSpaceByte).reverse.dropWhile isSpaceByte).reverse

end GitHistory.Message
