import GitHistory.Proofs.Json.Skipping

/-! Whatever is passed over is a written document, perhaps behind white space: a value that nobody
asked for still has to be one that the grammar allows. -/
namespace GitHistory.Json

theorem exists_gap (text : List Char) : ∃ gap : Gap, text = gap.chars ++ dropSpace text :=
  ⟨⟨text.takeWhile isSpace, List.all_eq_true.mp List.all_takeWhile⟩,
    List.takeWhile_append_dropWhile.symm⟩

/-- A skipped string is one of pieces, which may spell nothing. -/
theorem exists_pieces_of_skipStringFrom {text rest : List Char}
    (accepted : skipStringFrom text = .ok ((), rest)) :
    ∃ pieces, text = writtenPieces pieces ++ '"' :: rest := by
  fun_induction skipStringFrom text with
  | case2 more =>
    obtain rfl : more = rest := by simpa using accepted
    exact ⟨[], rfl⟩
  | case4 a b c d more number digits ih =>
    obtain ⟨pieces, rfl⟩ := ih accepted
    exact ⟨.unit a b c d number digits :: pieces, rfl⟩
  | case7 c more _ _ meaning known ih =>
    obtain ⟨pieces, rfl⟩ := ih accepted
    exact ⟨.letter c meaning known :: pieces, rfl⟩
  | case10 c more quote _ _ atEnd escape control ih =>
    obtain ⟨pieces, rfl⟩ := ih accepted
    exact ⟨.plain c (isPlain_of_unescaped quote atEnd escape control) :: pieces, rfl⟩
  | case1 | case3 | case5 | case6 | case8 | case9 => simp at accepted

/-! Numbers. -/

theorem exists_digits_of_takeDigits {text digits rest : List Char}
    (taken : takeDigits text = (digits, rest)) :
    text = digits ++ rest ∧ ∀ c ∈ digits, isDigit c = true := by
  obtain ⟨rfl, rfl⟩ := Prod.mk.inj taken
  exact ⟨List.takeWhile_append_dropWhile.symm, List.all_eq_true.mp List.all_takeWhile⟩

theorem exists_exponent_of_skipExponent {text rest : List Char}
    (accepted : skipExponent text = .ok ((), rest)) :
    ∃ (sign : List Char) (digits : Digits), (sign = [] ∨ sign = ['+'] ∨ sign = ['-']) ∧
      text = sign ++ (digits.chars ++ rest) := by
  rw [skipExponent.eq_def] at accepted
  dsimp only at accepted
  split at accepted
  · cases accepted
  · rename_i digits left some taken
    obtain rfl : left = rest := by simpa using accepted
    obtain ⟨unsigned, all⟩ := exists_digits_of_takeDigits taken
    have given : digits ≠ [] := by
      rintro rfl
      exact some rfl
    refine Exists.imp (fun sign signed => ⟨⟨digits, given, all⟩, signed⟩) ?_
    rw [← unsigned]
    split
    · exact ⟨['+'], by simp⟩
    · exact ⟨['-'], by simp⟩
    · exact ⟨[], by simp⟩

theorem exists_exponent_of_skipExponentOrEnd {text rest : List Char}
    (accepted : skipExponentOrEnd text = .ok ((), rest)) :
    ∃ exponent : Option Exponent, text = exponent.elim [] Exponent.written ++ rest := by
  rw [skipExponentOrEnd.eq_def] at accepted
  split at accepted
  · obtain ⟨sign, digits, signs, rfl⟩ := exists_exponent_of_skipExponent accepted
    exact ⟨some ⟨'e', .inl rfl, sign, signs, digits⟩, by simp [Exponent.written]⟩
  · obtain ⟨sign, digits, signs, rfl⟩ := exists_exponent_of_skipExponent accepted
    exact ⟨some ⟨'E', .inr rfl, sign, signs, digits⟩, by simp [Exponent.written]⟩
  · obtain rfl : text = rest := by simpa using accepted
    exact ⟨none, rfl⟩

/-- Digits that have no zero in front of others. -/
theorem leading_of_skipped {digits : List Char}
    (alone : ∀ second more, digits = '0' :: second :: more → False) :
    digits.head? = some '0' → digits = ['0'] := by
  intro zero
  obtain ⟨more, rfl⟩ := List.head?_eq_some_iff.mp zero
  cases more with
  | nil => rfl
  | cons second more => exact (alone second more rfl).elim

theorem exists_numeral_of_skipNumberFrom {text rest : List Char} (negative : Bool)
    (accepted : skipNumberFrom text = .ok ((), rest)) :
    ∃ numeral : Numeral, numeral.negative = negative ∧ text = numeral.unsigned ++ rest := by
  rw [skipNumberFrom] at accepted
  split at accepted
  · cases accepted
  · cases accepted
  · rename_i whole behind some alone taken
    obtain ⟨rfl, all⟩ := exists_digits_of_takeDigits taken
    split at accepted
    · cases accepted
    · rename_i fraction left given taken
      obtain ⟨rfl, digits⟩ := exists_digits_of_takeDigits taken
      obtain ⟨exponent, rfl⟩ := exists_exponent_of_skipExponentOrEnd accepted
      refine ⟨⟨negative, ⟨whole, some, all⟩, leading_of_skipped alone,
        Option.some ⟨fraction, given, digits⟩, exponent⟩, rfl, ?_⟩
      simp [Numeral.unsigned]
  · rename_i whole left some alone _ taken
    obtain ⟨rfl, all⟩ := exists_digits_of_takeDigits taken
    obtain ⟨exponent, rfl⟩ := exists_exponent_of_skipExponentOrEnd accepted
    refine ⟨⟨negative, ⟨whole, some, all⟩, leading_of_skipped alone, none, exponent⟩, rfl, ?_⟩
    simp [Numeral.unsigned]

theorem exists_numeral_of_skipNumber {text rest : List Char}
    (accepted : Reader.skipNumber text = .ok ((), rest)) :
    ∃ numeral : Numeral, text = numeral.written ++ rest := by
  rw [Reader.skipNumber.eq_def] at accepted
  split at accepted
  · obtain ⟨numeral, negative, rfl⟩ := exists_numeral_of_skipNumberFrom true accepted
    exact ⟨numeral, by simp [Numeral.written, negative]⟩
  · obtain ⟨numeral, negative, rfl⟩ := exists_numeral_of_skipNumberFrom false accepted
    exact ⟨numeral, by simp [Numeral.written, negative]⟩

namespace Reader

variable {α : Type}

theorem exists_gap_of_token {text left : List Char} {first : Option Char}
    (accepted : accept? token text = some (first, left)) :
    ∃ gap : Gap, text = gap.chars ++ left ∧ left.head? = first := by
  obtain ⟨gap, spaced⟩ := exists_gap text
  rw [accept?_token, Option.some.injEq, Prod.mk.injEq] at accepted
  obtain ⟨rfl, rfl⟩ := accepted
  exact ⟨gap, spaced, rfl⟩

theorem eq_of_literal {name text rest : List Char}
    (accepted : accept? (literal name) text = some ((), rest)) : text = name ++ rest := by
  induction name generalizing text with
  | nil => simpa [literal] using accepted
  | cons expected more ih =>
    cases text with
    | nil => simp [literal] at accepted
    | cons c others =>
      simp only [literal, accept?_bind, accept?_peek, List.head?_cons, Option.bind_some] at accepted
      split at accepted
      · rename_i same
        have left : others = more ++ rest := ih (by simpa using accepted)
        rw [same, left]
        rfl
      · simp at accepted

/-! Lists and objects. -/

/-- A reader that takes nothing but documents off a text. -/
def Derives (read : Reader α) : Prop :=
  ∀ text value rest, accept? read text = some (value, rest) →
    ∃ (gap : Gap) (document : Document), text = gap.chars ++ (document.written ++ rest)

theorem exists_items_of_skipElements {skip : Reader Unit} (derives : Derives skip) {turns : Nat}
    {text rest : List Char} (accepted : accept? (skipElements skip turns) text = some ((), rest)) :
    ∃ item items, text = writtenItems true (item :: items) ++ ']' :: rest := by
  induction turns generalizing text with
  | zero => simp [skipElements] at accepted
  | succ turns ih =>
    rw [skipElements, accept?_bind_eq_some] at accepted
    obtain ⟨_, left, skipped, looking⟩ := accepted
    obtain ⟨before, document, rfl⟩ := derives _ _ _ skipped
    obtain ⟨first, behind, looked, going⟩ := accept?_bind_eq_some.mp looking
    obtain ⟨after, rfl, head⟩ := exists_gap_of_token looked
    split at going
    · obtain ⟨more, rfl⟩ := List.head?_eq_some_iff.mp head
      rw [accept?_advance_bind] at going
      obtain ⟨next, items, rfl⟩ := ih going
      refine ⟨⟨before, document, after⟩, next :: items, ?_⟩
      simp [writtenItems, leadingComma]
    · obtain ⟨more, rfl⟩ := List.head?_eq_some_iff.mp head
      obtain rfl : more = rest := by simpa using going
      refine ⟨⟨before, document, after⟩, [], ?_⟩
      simp [writtenItems, leadingComma]
    · simp at going
    · simp at going

theorem exists_gap_of_colon {text rest : List Char}
    (accepted : accept? colon text = some ((), rest)) :
    ∃ gap : Gap, text = gap.chars ++ ':' :: rest := by
  rw [colon, accept?_bind_eq_some] at accepted
  obtain ⟨first, left, looked, going⟩ := accepted
  obtain ⟨gap, rfl, head⟩ := exists_gap_of_token looked
  split at going
  · obtain ⟨more, rfl⟩ := List.head?_eq_some_iff.mp head
    obtain rfl : more = rest := by simpa using going
    exact ⟨gap, rfl⟩
  · simp at going
  · simp at going

theorem exists_pieces_of_skipString {text rest : List Char}
    (accepted : accept? skipString text = some ((), rest)) :
    ∃ pieces, text = writtenPieces pieces ++ '"' :: rest :=
  exists_pieces_of_skipStringFrom (accept?_eq_some.mp accepted)

theorem exists_members_of_skipMembers {skip : Reader Unit} (derives : Derives skip) {turns : Nat}
    {text rest : List Char} (accepted : accept? (skipMembers skip turns) text = some ((), rest)) :
    ∃ member members, text = writtenMembers true (member :: members) ++ '}' :: rest := by
  induction turns generalizing text with
  | zero => simp [skipMembers] at accepted
  | succ turns ih =>
    rw [skipMembers, accept?_bind_eq_some] at accepted
    obtain ⟨opening, left, looked, going⟩ := accepted
    obtain ⟨before, rfl, quote⟩ := exists_gap_of_token looked
    split at going
    · obtain ⟨quoted, rfl⟩ := List.head?_eq_some_iff.mp quote
      rw [accept?_advance_bind] at going
      obtain ⟨_, _, keyed, parting⟩ := accept?_bind_eq_some.mp going
      obtain ⟨key, rfl⟩ := exists_pieces_of_skipString keyed
      obtain ⟨_, _, parted, skipping⟩ := accept?_bind_eq_some.mp parting
      obtain ⟨behind, rfl⟩ := exists_gap_of_colon parted
      obtain ⟨_, _, skipped, looking⟩ := accept?_bind_eq_some.mp skipping
      obtain ⟨ahead, document, rfl⟩ := derives _ _ _ skipped
      obtain ⟨next, left, looked, closing⟩ := accept?_bind_eq_some.mp looking
      obtain ⟨after, rfl, head⟩ := exists_gap_of_token looked
      split at closing
      · obtain ⟨more, rfl⟩ := List.head?_eq_some_iff.mp head
        rw [accept?_advance_bind] at closing
        obtain ⟨other, members, rfl⟩ := ih closing
        refine ⟨⟨before, key, behind, ⟨ahead, document, after⟩⟩, other :: members, ?_⟩
        simp [writtenMembers, leadingComma]
      · obtain ⟨more, rfl⟩ := List.head?_eq_some_iff.mp head
        obtain rfl : more = rest := by simpa using closing
        refine ⟨⟨before, key, behind, ⟨ahead, document, after⟩⟩, [], ?_⟩
        simp [writtenMembers, leadingComma]
      · simp at closing
      · simp at closing
    · simp at going
    · simp at going

theorem exists_items_of_skipList {skip : Reader Unit} (derives : Derives skip)
    {text rest : List Char} (accepted : accept? (skipList skip) text = some ((), rest)) :
    ∃ (inner : Gap) (items : List (Laid Document)),
      text = inner.chars ++ (writtenItems true items ++ ']' :: rest) := by
  rw [skipList, accept?_bind_eq_some] at accepted
  obtain ⟨first, left, looked, going⟩ := accepted
  obtain ⟨inner, rfl, head⟩ := exists_gap_of_token looked
  split at going
  · obtain ⟨more, rfl⟩ := List.head?_eq_some_iff.mp head
    obtain rfl : more = rest := by simpa using going
    exact ⟨inner, [], by simp [writtenItems]⟩
  · obtain ⟨item, items, rfl⟩ := exists_items_of_skipElements derives going
    exact ⟨inner, item :: items, rfl⟩
  · simp at going

theorem exists_members_of_skipObject {skip : Reader Unit} (derives : Derives skip)
    {text rest : List Char} (accepted : accept? (skipObject skip) text = some ((), rest)) :
    ∃ (inner : Gap) (members : List (Member Document)),
      text = inner.chars ++ (writtenMembers true members ++ '}' :: rest) := by
  rw [skipObject, accept?_bind_eq_some] at accepted
  obtain ⟨first, left, looked, going⟩ := accepted
  obtain ⟨inner, rfl, head⟩ := exists_gap_of_token looked
  split at going
  · obtain ⟨more, rfl⟩ := List.head?_eq_some_iff.mp head
    obtain rfl : more = rest := by simpa using going
    exact ⟨inner, [], by simp [writtenMembers]⟩
  · obtain ⟨member, members, rfl⟩ := exists_members_of_skipMembers derives going
    exact ⟨inner, member :: members, rfl⟩
  · simp at going

/-! Values. -/

theorem exists_gap_of_valueToken {text left : List Char} {first : Char}
    (accepted : accept? valueToken text = some (first, left)) :
    ∃ (gap : Gap) (more : List Char), text = gap.chars ++ left ∧ left = first :: more := by
  rw [valueToken, accept?_bind_eq_some] at accepted
  obtain ⟨head, behind, looked, going⟩ := accepted
  obtain ⟨gap, rfl, same⟩ := exists_gap_of_token looked
  split at going
  · obtain ⟨more, rfl⟩ := List.head?_eq_some_iff.mp same
    obtain ⟨rfl, rfl⟩ : _ = first ∧ _ = left := by simpa using going
    exact ⟨gap, more, rfl, rfl⟩
  · simp at going

theorem derives_skipWithin (depth : Nat) : Derives (skipWithin depth) := by
  induction depth with
  | zero =>
    intro text value rest accepted
    simp [skipWithin] at accepted
  | succ depth ih =>
    intro text value rest accepted
    rw [skipWithin, accept?_bind_eq_some] at accepted
    obtain ⟨first, left, looked, going⟩ := accepted
    obtain ⟨gap, more, rfl, rfl⟩ := exists_gap_of_valueToken looked
    refine ⟨gap, ?_⟩
    split at going
    · rw [accept?_advance_bind] at going
      rw [eq_of_literal going]
      exact ⟨.null, rfl⟩
    · rw [accept?_advance_bind] at going
      rw [eq_of_literal going]
      exact ⟨.boolean true, rfl⟩
    · rw [accept?_advance_bind] at going
      rw [eq_of_literal going]
      exact ⟨.boolean false, rfl⟩
    · rw [accept?_advance_bind] at going
      obtain ⟨pieces, rfl⟩ := exists_pieces_of_skipString going
      exact ⟨.string pieces, by simp [Document.written]⟩
    · rw [accept?_advance_bind] at going
      obtain ⟨inner, items, rfl⟩ := exists_items_of_skipList ih going
      exact ⟨.list inner items, by simp [Document.written]⟩
    · rw [accept?_advance_bind] at going
      obtain ⟨inner, members, rfl⟩ := exists_members_of_skipObject ih going
      exact ⟨.object inner members, by simp [Document.written]⟩
    · split at going
      · obtain ⟨numeral, same⟩ := exists_numeral_of_skipNumber (accept?_eq_some.mp going)
        exact ⟨.number numeral, by rw [same, Document.written]⟩
      · simp at going

theorem derives_skipValue : Derives skipValue := by
  intro text value rest accepted
  unfold accept? at accepted
  rw [skipValue_eq] at accepted
  exact derives_skipWithin (text.length + 1) text value rest accepted

end Reader

end GitHistory.Json
