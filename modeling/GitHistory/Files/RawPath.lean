import GitHistory.Text.Utf8

/-!
Paths as the system takes them: any bytes. Most of them are texts, and a text is all that is
written down of a path. Where a path is none, what is not UTF-8 is replaced in it, and the path that
is written down is another one.
-/
namespace GitHistory

structure RawPath where
  bytes : List UInt8
  deriving Repr, DecidableEq

namespace RawPath

/-- The path of a text. -/
def ofText (text : String) : RawPath := ⟨Text.utf8 text.toList⟩

instance : Coe String RawPath := ⟨ofText⟩

/-- The text that a path is, if it is one. -/
def text? (path : RawPath) : Option String := (Text.decodeUtf8 path.bytes).toOption

/-- The path as it is written down. -/
def shown (path : RawPath) : String := Text.decodeUtf8Lossy path.bytes

theorem text?_eq_some_iff {path : RawPath} {text : String} :
    path.text? = some text ↔ path = ofText text := by
  have isText : Text.decodeUtf8 path.bytes = .ok text ↔ path = ofText text := by
    obtain ⟨bytes⟩ := path
    rw [Text.decodeUtf8_eq_ok_iff, ofText, mk.injEq]
    exact eq_comm
  rw [← isText, text?]
  cases Text.decodeUtf8 path.bytes <;> simp [Except.toOption]

@[simp] theorem text?_ofText (text : String) : (ofText text).text? = some text :=
  text?_eq_some_iff.mpr rfl

@[simp] theorem shown_ofText (text : String) : (ofText text).shown = text := by
  rw [shown, ofText, Text.decodeUtf8Lossy_utf8, String.ofList_toList]

end RawPath

end GitHistory
