import GitHistory.Proofs.Json.Acceptance
import GitHistory.Proofs.Json.Document

/-! A string is accepted exactly as the grammar spells it: the reader takes every spelling of a
text for that text, and whatever it takes is a spelling. -/
namespace GitHistory.Json

theorem isPlain_iff {c : Char} : isPlain c = true ↔ c ≠ '"' ∧ c ≠ '\\' ∧ ¬c.val < 0x20 := by
  simp [isPlain, and_assoc]

/-- A character that opens no escape, whatever follows it, and ends no string stands for itself. -/
theorem isPlain_of_unescaped {c : Char} {more : List Char} (quote : c ≠ '"')
    (atEnd : c = '\\' → more = [] → False)
    (escape : ∀ next others, c = '\\' → more = next :: others → False)
    (control : ¬ c.val < 0x20) : isPlain c = true := by
  refine isPlain_iff.mpr ⟨quote, fun backslash => ?_, control⟩
  cases following : more with
  | nil => exact atEnd backslash following
  | cons next others => exact escape next others backslash following

theorem escaped?_ne {c meaning : Char} (known : escaped? c = some meaning) : c ≠ 'u' := by
  rintro rfl
  simp [escaped?] at known

@[simp] theorem writtenPieces_nil : writtenPieces [] = [] := rfl

@[simp] theorem writtenPieces_cons (piece : Piece) (rest : List Piece) :
    writtenPieces (piece :: rest) = piece.written ++ writtenPieces rest := rfl

theorem stringFrom_plain {c : Char} (shown : isPlain c = true) (done rest : List Char) :
    stringFrom done (c :: rest) = stringFrom (c :: done) rest := by
  obtain ⟨_, backslash, control⟩ := isPlain_iff.mp shown
  simp [stringFrom, backslash, control]

theorem stringFrom_letter {c meaning : Char} (known : escaped? c = some meaning)
    (done rest : List Char) :
    stringFrom done ('\\' :: c :: rest) = stringFrom (meaning :: done) rest := by
  simp [stringFrom, escaped?_ne known, known]

/-- A string is read as the text that its pieces spell, and refused if they spell none. -/
theorem stringFrom_written (pieces : List Piece) (done rest : List Char) :
    (stringFrom done (writtenPieces pieces ++ '"' :: rest)).toOption =
      (spelled? pieces).map fun text => (String.ofList (done.reverse ++ text), rest) := by
  fun_induction spelled? pieces generalizing done with
  | case1 => simp [stringFrom, Except.toOption]
  | case2 c shown more ih =>
    rw [writtenPieces_cons, Piece.written, List.singleton_append, List.cons_append,
      stringFrom_plain shown, ih]
    simp [Function.comp_def]
  | case3 c meaning known more ih =>
    rw [writtenPieces_cons, Piece.written, List.cons_append, List.singleton_append,
      List.cons_append, List.cons_append, stringFrom_letter known, ih]
    simp [Function.comp_def]
  | case4 a b c d lead digits more trailing =>
    simp [Piece.written, stringFrom, digits, trailing, Except.toOption]
  | case5 a b c d lead digits notTrailing leading e f g h trail more' more trailing ih =>
    simp only [writtenPieces_cons, Piece.written, List.cons_append, List.nil_append]
    simp [stringFrom, digits, notTrailing, leading, more', trailing, ih, Function.comp_def]
  | case6 a b c d lead digits notTrailing leading e f g h trail more' more other =>
    simp [Piece.written, stringFrom, digits, notTrailing, leading, more', other, Except.toOption]
  | case7 a b c d lead digits more notTrailing leading other =>
    cases more with
    | nil => simp [Piece.written, stringFrom, digits, notTrailing, leading, Except.toOption]
    | cons next more =>
      cases next with
      | plain x shown =>
        obtain ⟨_, backslash, _⟩ := isPlain_iff.mp shown
        simp [Piece.written, stringFrom, digits, notTrailing, leading, backslash, Except.toOption]
      | letter x meaning known =>
        have letter := escaped?_ne known
        simp [Piece.written, stringFrom, digits, notTrailing, leading, letter, Except.toOption]
      | unit e f g h trail more' => exact (other e f g h trail more' more rfl).elim
  | case8 a b c d lead digits more notTrailing notLeading ih =>
    simp only [writtenPieces_cons, Piece.written, List.cons_append, List.nil_append]
    simp [stringFrom, digits, notTrailing, notLeading, ih, Function.comp_def]

/-- Whatever is read as a string is spelled before its closing quote. -/
theorem exists_pieces_of_stringFrom {done text rest : List Char} {read : String}
    (accepted : stringFrom done text = .ok (read, rest)) :
    ∃ pieces spelled, text = writtenPieces pieces ++ '"' :: rest ∧
      spelled? pieces = some spelled ∧ read = String.ofList (done.reverse ++ spelled) := by
  fun_induction stringFrom done text with
  | case2 done more =>
    obtain ⟨rfl, rfl⟩ : String.ofList done.reverse = read ∧ more = rest := by simpa using accepted
    exact ⟨[], [], rfl, rfl, by simp⟩
  | case6 done a b c d lead digits notTrailing leading e f g h more trail more' trailing ih =>
    obtain ⟨pieces, spelled, rfl, spells, rfl⟩ := ih accepted
    refine ⟨.unit a b c d lead digits :: .unit e f g h trail more' :: pieces,
      surrogatePair lead trail :: spelled, rfl, ?_, by simp⟩
    simp [spelled?, notTrailing, leading, trailing, spells]
  | case10 done a b c d more number digits notTrailing notLeading ih =>
    obtain ⟨pieces, spelled, rfl, spells, rfl⟩ := ih accepted
    refine ⟨.unit a b c d number digits :: pieces, Char.ofNat number :: spelled, rfl, ?_, by simp⟩
    rw [spelled?.eq_def]
    simp [notTrailing, notLeading, spells]
  | case13 done c more _ _ meaning known ih =>
    obtain ⟨pieces, spelled, rfl, spells, rfl⟩ := ih accepted
    exact ⟨.letter c meaning known :: pieces, meaning :: spelled, rfl, by simp [spelled?, spells],
      by simp⟩
  | case16 done c more quote _ _ atEnd escape control ih =>
    obtain ⟨pieces, spelled, rfl, spells, rfl⟩ := ih accepted
    have shown : isPlain c = true := isPlain_of_unescaped quote atEnd escape control
    exact ⟨.plain c shown :: pieces, c :: spelled, rfl, by simp [spelled?, spells], by simp⟩
  | case1 | case3 | case4 | case5 | case7 | case8 | case9 | case11 | case12 | case14 | case15 =>
    simp at accepted

/-- A skipped string only needs pieces; whether their surrogates pair up does not matter. -/
theorem skipStringFrom_written (pieces : List Piece) (rest : List Char) :
    skipStringFrom (writtenPieces pieces ++ '"' :: rest) = .ok ((), rest) := by
  induction pieces with
  | nil => simp [skipStringFrom]
  | cons piece more ih =>
    rw [writtenPieces_cons, List.append_assoc]
    cases piece with
    | plain c shown =>
      obtain ⟨_, backslash, control⟩ := isPlain_iff.mp shown
      simp [Piece.written, skipStringFrom, backslash, control, ih]
    | letter c meaning known =>
      simp [Piece.written, skipStringFrom, escaped?_ne known, known, ih]
    | unit a b c d number digits => simp [Piece.written, skipStringFrom, digits, ih]

/-! Characters that stand for themselves, and the escaped form of a text. -/

theorem writtenPieces_pmap {text : List Char} (shown : ∀ c ∈ text, isPlain c = true) :
    writtenPieces (text.pmap Piece.plain shown) = text := by
  induction text with
  | nil => rfl
  | cons c rest ih => simp [Piece.written, ih]

theorem spelled?_pmap {text : List Char} (shown : ∀ c ∈ text, isPlain c = true) :
    spelled? (text.pmap Piece.plain shown) = some text := by
  induction text with
  | nil => rfl
  | cons c rest ih => simp [spelled?, ih]

theorem hexQuad?_control : ∀ n < 0x20,
    hexQuad? '0' '0' (Nat.digitChar (n / 16)) (Nat.digitChar (n % 16)) = some n := by
  decide

/-- Every character has a piece for its escaped form. -/
theorem exists_piece_escapeChar (c : Char) :
    ∃ piece : Piece, piece.written = escapeChar c ∧
      ∀ rest, spelled? (piece :: rest) = (spelled? rest).map (c :: ·) := by
  rw [escapeChar.eq_def]
  split
  case h_1 => exact ⟨.letter '"' '"' rfl, rfl, fun _ => rfl⟩
  case h_2 => exact ⟨.letter '\\' '\\' rfl, rfl, fun _ => rfl⟩
  case h_3 => exact ⟨.letter 'b' '\x08' rfl, rfl, fun _ => rfl⟩
  case h_4 => exact ⟨.letter 'f' '\x0c' rfl, rfl, fun _ => rfl⟩
  case h_5 => exact ⟨.letter 'n' '\n' rfl, rfl, fun _ => rfl⟩
  case h_6 => exact ⟨.letter 'r' '\r' rfl, rfl, fun _ => rfl⟩
  case h_7 => exact ⟨.letter 't' '\t' rfl, rfl, fun _ => rfl⟩
  case h_8 quote backslash _ _ _ _ _ =>
    split
    · rename_i control
      have small : c.toNat < 0x20 := control
      refine ⟨.unit '0' '0' _ _ c.toNat (hexQuad?_control c.toNat small), rfl, fun rest => ?_⟩
      have notTrailing : isTrailingSurrogate c.toNat = false := by simp [isTrailingSurrogate]; omega
      have notLeading : isLeadingSurrogate c.toNat = false := by simp [isLeadingSurrogate]; omega
      rw [spelled?.eq_def]
      simp [notTrailing, notLeading, Char.ofNat_toNat]
    · rename_i control
      exact ⟨.plain c (isPlain_iff.mpr ⟨quote, backslash, control⟩), rfl, fun _ => rfl⟩

/-- Every text has a spelling: its escaped form. -/
theorem exists_pieces_escaped (text : List Char) :
    ∃ pieces, writtenPieces pieces = text.flatMap escapeChar ∧ spelled? pieces = some text := by
  induction text with
  | nil => exact ⟨[], rfl, rfl⟩
  | cons c rest ih =>
    obtain ⟨piece, written, spells⟩ := exists_piece_escapeChar c
    obtain ⟨pieces, more, spelled⟩ := ih
    exact ⟨piece :: pieces, by simp [written, more], by simp [spells, spelled]⟩

namespace Reader

theorem accept?_stringBody (pieces : List Piece) (rest : List Char) :
    accept? stringBody (writtenPieces pieces ++ '"' :: rest) =
      (spelled? pieces).map fun text => (String.ofList text, rest) :=
  stringFrom_written pieces [] rest

/-- A text of plain characters is read as it is. -/
theorem accept?_stringBody_plain {text : List Char} (shown : ∀ c ∈ text, isPlain c = true)
    (rest : List Char) :
    accept? stringBody (text ++ '"' :: rest) = some (String.ofList text, rest) := by
  simpa [writtenPieces_pmap, spelled?_pmap] using
    accept?_stringBody (text.pmap Piece.plain shown) rest

theorem accept?_skipString (pieces : List Piece) (rest : List Char) :
    accept? skipString (writtenPieces pieces ++ '"' :: rest) = some ((), rest) :=
  accept?_eq_some.mpr (skipStringFrom_written pieces rest)

end Reader

end GitHistory.Json
