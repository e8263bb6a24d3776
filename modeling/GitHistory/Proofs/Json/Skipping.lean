import GitHistory.Proofs.Json.Records

/-! A value that nobody asked for is passed over to its very end, whatever it holds. -/
namespace GitHistory.Json

theorem takeDigits_append (digits : Digits) {rest : List Char}
    (ended : ∀ c ∈ rest.head?, isDigit c = false) :
    takeDigits (digits.chars ++ rest) = (digits.chars, rest) := by
  have stop : rest.takeWhile isDigit = [] ∧ rest.dropWhile isDigit = rest := by
    cases rest with
    | nil => simp
    | cons c more => simp [ended c rfl]
  simp [takeDigits, List.takeWhile_append_of_pos digits.digits,
    List.dropWhile_append_of_pos digits.digits, stop]

theorem Delimited.ended {rest : List Char} (delimited : Delimited rest) :
    ∀ c ∈ rest.head?, isDigit c = false :=
  fun c first => (delimited c first).1

theorem skipExponent_written (exponent : Exponent) {rest : List Char}
    (delimited : Delimited rest) :
    skipExponent (exponent.sign ++ (exponent.digits.chars ++ rest)) = .ok ((), rest) := by
  have taken := takeDigits_append exponent.digits delimited.ended
  cases chars : exponent.digits.chars with
  | nil => exact (exponent.digits.some chars).elim
  | cons c more =>
    have digit := exponent.digits.digits c (by simp [chars])
    have plus : c ≠ '+' := isDigit_ne digit (by decide)
    have minus : c ≠ '-' := isDigit_ne digit (by decide)
    rw [chars] at taken
    rcases exponent.signs with sign | sign | sign
    · rw [List.cons_append] at taken
      simp [sign, skipExponent, plus, minus, taken]
    all_goals simp only [sign, skipExponent, List.singleton_append, taken]

theorem skipExponentOrEnd_written (exponent : Option Exponent) {rest : List Char}
    (delimited : Delimited rest) :
    skipExponentOrEnd (exponent.elim [] Exponent.written ++ rest) = .ok ((), rest) := by
  cases exponent with
  | none =>
    cases rest with
    | nil => rfl
    | cons c more =>
      obtain ⟨_, _, small, large⟩ := delimited c rfl
      simp [skipExponentOrEnd, small, large]
  | some exponent =>
    have skipped := skipExponent_written exponent delimited
    rcases exponent.marks with mark | mark <;>
      simp [Exponent.written, skipExponentOrEnd, mark, skipped]

theorem exponent_head (exponent : Option Exponent) {rest : List Char}
    (delimited : Delimited rest) :
    ∀ c ∈ (exponent.elim [] Exponent.written ++ rest).head?, isDigit c = false ∧ c ≠ '.' := by
  cases exponent with
  | none => exact fun c first => ⟨(delimited c first).1, (delimited c first).2.1⟩
  | some exponent =>
    intro c first
    cases Option.some.inj first
    rcases exponent.marks with mark | mark <;> simp [mark, isDigit]

theorem Numeral.whole_ne (numeral : Numeral) (second : Char) (more : List Char) :
    numeral.whole.chars ≠ '0' :: second :: more := by
  intro same
  have alone := numeral.leading (by simp [same])
  simp [same] at alone

theorem skipNumberFrom_whole (numeral : Numeral) {rest : List Char}
    (ended : ∀ c ∈ rest.head?, isDigit c = false ∧ c ≠ '.') :
    skipNumberFrom (numeral.whole.chars ++ rest) = skipExponentOrEnd rest := by
  rw [skipNumberFrom, takeDigits_append numeral.whole fun c first => (ended c first).1]
  split
  · rename_i same
    exact (numeral.whole.some (Prod.mk.inj same).1).elim
  · rename_i same
    exact (numeral.whole_ne _ _ (Prod.mk.inj same).1).elim
  · rename_i same
    exact ((ended '.' (by simp [(Prod.mk.inj same).2])).2 rfl).elim
  · rename_i same
    rw [(Prod.mk.inj same).2]

theorem skipNumberFrom_point (numeral : Numeral) (fraction : Digits) {rest : List Char}
    (ended : ∀ c ∈ rest.head?, isDigit c = false) :
    skipNumberFrom (numeral.whole.chars ++ '.' :: (fraction.chars ++ rest)) =
      skipExponentOrEnd rest := by
  rw [skipNumberFrom, takeDigits_append numeral.whole (by simp [isDigit])]
  split
  · rename_i same
    exact (numeral.whole.some (Prod.mk.inj same).1).elim
  · rename_i same
    exact (numeral.whole_ne _ _ (Prod.mk.inj same).1).elim
  · rename_i after _ _ same
    obtain rfl := (List.cons.inj (Prod.mk.inj same).2).2
    rw [takeDigits_append fraction ended]
    split
    · rename_i same
      exact (fraction.some (Prod.mk.inj same).1).elim
    · rename_i same
      rw [(Prod.mk.inj same).2]
  · rename_i point same
    exact (point _ (Prod.mk.inj same).2.symm).elim

theorem skipNumberFrom_unsigned (numeral : Numeral) {rest : List Char}
    (delimited : Delimited rest) :
    skipNumberFrom (numeral.unsigned ++ rest) = .ok ((), rest) := by
  have head := exponent_head numeral.exponent delimited
  have skipped := skipExponentOrEnd_written numeral.exponent delimited
  cases given : numeral.fraction with
  | none =>
    simp only [Numeral.unsigned, given, Option.elim_none, List.append_nil, List.append_assoc]
    rw [skipNumberFrom_whole numeral head, skipped]
  | some fraction =>
    simp only [Numeral.unsigned, given, Option.elim_some, List.append_assoc, List.cons_append]
    rw [skipNumberFrom_point numeral fraction fun c first => (head c first).1, skipped]

namespace Reader

theorem accept?_skipNumber (numeral : Numeral) {rest : List Char} (delimited : Delimited rest) :
    accept? skipNumber (numeral.written ++ rest) = some ((), rest) := by
  have skipped := skipNumberFrom_unsigned numeral delimited
  obtain ⟨negative, ⟨whole, some, digits⟩, leading, fraction, exponent⟩ := numeral
  apply accept?_eq_some.mpr
  cases negative with
  | true => exact skipped
  | false =>
    cases whole with
    | nil => exact (some rfl).elim
    | cons c more =>
      have minus : c ≠ '-' := isDigit_ne (digits c (by simp)) (by decide)
      simpa [Numeral.written, Numeral.unsigned, skipNumber, minus] using skipped

/-- A reader that passes over a document, wherever it stands. -/
def Skips (skip : Reader Unit) (document : Document) : Prop :=
  ∀ (gap : Gap) (rest : List Char), Delimited rest →
    accept? skip (gap.chars ++ (document.written ++ rest)) = some ((), rest)

theorem accept?_skipElements {skip : Reader Unit} (item : Laid Document)
    (items : List (Laid Document)) (skips : ∀ other ∈ item :: items, Skips skip other.value)
    (turns : Nat) (enough : items.length < turns) (gap : Gap) (rest : List Char) :
    accept? (skipElements skip turns)
        (gap.chars ++ (item.value.written ++ (item.after.chars ++
          (writtenItems false items ++ ']' :: rest)))) = some ((), rest) := by
  induction items generalizing turns item gap with
  | nil =>
    obtain ⟨turns, rfl⟩ := Nat.exists_eq_add_one_of_ne_zero (Nat.ne_zero_of_lt enough)
    have delimited := delimited_gap item.after (delimited_items [] rest)
    rw [skipElements, accept?_bind, skips item (by simp) gap _ delimited]
    simp [writtenItems, isSpace]
  | cons next more ih =>
    obtain ⟨turns, rfl⟩ := Nat.exists_eq_add_one_of_ne_zero (Nat.ne_zero_of_lt enough)
    have delimited := delimited_gap item.after (delimited_items (next :: more) rest)
    have others := ih next (fun other member => skips other (List.mem_cons_of_mem _ member)) turns
      (by simpa using enough) next.before
    rw [skipElements, accept?_bind, skips item (by simp) gap _ delimited]
    simpa [writtenItems, leadingComma, isSpace] using others

theorem accept?_skipMembers {skip : Reader Unit} (member : Member Document)
    (members : List (Member Document))
    (skips : ∀ other ∈ member :: members, Skips skip other.content.value)
    (turns : Nat) (enough : members.length < turns) (gap : Gap) (rest : List Char) :
    accept? (skipMembers skip turns)
        (gap.chars ++ '"' :: (writtenPieces member.key ++ ('"' :: (member.behind.chars ++
          (':' :: (member.content.before.chars ++ (member.content.value.written ++
            (member.content.after.chars ++ (writtenMembers false members ++ '}' :: rest)))))))))
      = some ((), rest) := by
  have quote : isSpace '"' = false := rfl
  induction members generalizing turns member gap with
  | nil =>
    obtain ⟨turns, rfl⟩ := Nat.exists_eq_add_one_of_ne_zero (Nat.ne_zero_of_lt enough)
    have delimited := delimited_gap member.content.after (delimited_members [] rest)
    simp [skipMembers, quote, accept?_skipString, accept?_colon,
      skips member (by simp) member.content.before _ delimited]
    simp [writtenMembers, isSpace]
  | cons next more ih =>
    obtain ⟨turns, rfl⟩ := Nat.exists_eq_add_one_of_ne_zero (Nat.ne_zero_of_lt enough)
    have delimited := delimited_gap member.content.after (delimited_members (next :: more) rest)
    have others := ih next (fun other member => skips other (List.mem_cons_of_mem _ member)) turns
      (by simpa using enough) next.before
    simp [skipMembers, quote, accept?_skipString, accept?_colon,
      skips member (by simp) member.content.before _ delimited]
    simpa [writtenMembers, leadingComma, isSpace] using others

theorem accept?_literal (name rest : List Char) :
    accept? (literal name) (name ++ rest) = some ((), rest) := by
  induction name with
  | nil => rfl
  | cons c more ih => simpa [literal] using ih

theorem accept?_skipList {skip : Reader Unit} (inner : Gap) (items : List (Laid Document))
    (skips : ∀ item ∈ items, Skips skip item.value) (rest : List Char) :
    accept? (skipList skip) (inner.chars ++ (writtenItems true items ++ ']' :: rest)) =
      some ((), rest) := by
  cases items with
  | nil => simp [skipList, writtenItems, isSpace]
  | cons item more =>
    obtain ⟨before, document, after⟩ := item
    obtain ⟨c, tail, head, _, bracket⟩ := document.written_head
    have opening (text : List Char) : (document.written ++ text).head? = some c := by simp [head]
    have enough := length_le_writtenItems false more
    simp only [skipList, accept?_bind, accept?_token, writtenItems, leadingComma, if_true,
      List.nil_append, List.append_assoc, dropSpace_gap, dropSpace_document, opening,
      Option.bind_some]
    refine accept?_skipElements ⟨before, document, after⟩ more skips _ ?_ Gap.none rest
    simp
    omega

theorem accept?_skipObject {skip : Reader Unit} (inner : Gap) (members : List (Member Document))
    (skips : ∀ member ∈ members, Skips skip member.content.value) (rest : List Char) :
    accept? (skipObject skip) (inner.chars ++ (writtenMembers true members ++ '}' :: rest)) =
      some ((), rest) := by
  cases members with
  | nil => simp [skipObject, writtenMembers, isSpace]
  | cons member more =>
    obtain ⟨before, key, behind, content⟩ := member
    have quote : isSpace '"' = false := rfl
    have enough := length_le_writtenMembers false more
    simp only [skipObject, accept?_bind, accept?_token, writtenMembers, leadingComma, if_true,
      List.nil_append, List.append_assoc, List.cons_append, dropSpace_gap, dropSpace_cons quote,
      List.head?_cons,
      Option.bind_some]
    refine accept?_skipMembers ⟨before, key, behind, content⟩ more skips _ ?_ Gap.none rest
    simp
    omega

theorem length_written_item {item : Laid Document} {items : List (Laid Document)}
    (member : item ∈ items) (first : Bool) :
    item.value.written.length ≤ (writtenItems first items).length := by
  induction items generalizing first with
  | nil => simp at member
  | cons other more ih =>
    rcases List.mem_cons.mp member with rfl | later
    · simp [writtenItems]
      omega
    · have bound := ih later false
      simp [writtenItems]
      omega

theorem length_written_member {member : Member Document} {members : List (Member Document)}
    (present : member ∈ members) (first : Bool) :
    member.content.value.written.length ≤ (writtenMembers first members).length := by
  induction members generalizing first with
  | nil => simp at present
  | cons other more ih =>
    obtain ⟨before, key, behind, ⟨ahead, document, after⟩⟩ := other
    rcases List.mem_cons.mp present with rfl | later
    · simp [writtenMembers]
      omega
    · have bound := ih later false
      simp [writtenMembers]
      omega

theorem accept?_skipWithin (depth : Nat) (document : Document)
    (shallow : document.written.length < depth) : Skips (skipWithin depth) document := by
  induction depth generalizing document with
  | zero => exact (Nat.not_lt_zero _ shallow).elim
  | succ depth ih =>
    intro gap rest delimited
    rw [skipWithin, accept?_bind, accept?_valueToken]
    cases document with
    | null => simpa [Document.written] using accept?_literal ['u', 'l', 'l'] rest
    | boolean b =>
      cases b with
      | true => simpa [Document.written, booleanText] using accept?_literal ['r', 'u', 'e'] rest
      | false =>
        simpa [Document.written, booleanText] using accept?_literal ['a', 'l', 's', 'e'] rest
    | string pieces => simpa [Document.written] using accept?_skipString pieces rest
    | number numeral =>
      obtain ⟨c, more, head, opening⟩ := numeral.written_head
      have other {letter : Char} (plain : letter ≠ '-' ∧ isDigit letter = false) : c ≠ letter := by
        rcases opening with rfl | digit
        · exact plain.1.symm
        · exact isDigit_ne digit plain.2
      have skipped := accept?_skipNumber numeral delimited
      have quote := @other '"' (by decide)
      have letters : c ≠ 'n' ∧ c ≠ 't' ∧ c ≠ 'f' :=
        ⟨other (by decide), other (by decide), other (by decide)⟩
      have brackets : c ≠ '[' ∧ c ≠ '{' := ⟨other (by decide), other (by decide)⟩
      rw [head] at skipped
      simpa [Document.written, head, opening, letters, quote, brackets] using skipped
    | list inner items =>
      have skips : ∀ item ∈ items, Skips (skipWithin depth) item.value := by
        intro item member
        have bound := length_written_item member true
        simp only [Document.written, List.length_cons, List.length_append] at shallow
        exact ih item.value (by omega)
      simpa [Document.written] using accept?_skipList inner items skips rest
    | object inner members =>
      have skips : ∀ member ∈ members, Skips (skipWithin depth) member.content.value := by
        intro member present
        have bound := length_written_member present true
        simp only [Document.written, List.length_cons, List.length_append] at shallow
        exact ih member.content.value (by omega)
      simpa [Document.written] using accept?_skipObject inner members skips rest

theorem skipValue_eq (text : List Char) : skipValue text = skipWithin (text.length + 1) text := rfl

/-- Every document is passed over. -/
theorem reads_skipValue : Reads skipValue fun _ => some () := by
  intro gap document rest delimited
  have shallow : document.written.length <
      (gap.chars ++ (document.written ++ rest)).length + 1 := by
    simp only [List.length_append]
    omega
  have passed := accept?_skipWithin _ document shallow gap rest delimited
  unfold accept? at passed ⊢
  rw [skipValue_eq, passed, Option.map_some]

end Reader

end GitHistory.Json
