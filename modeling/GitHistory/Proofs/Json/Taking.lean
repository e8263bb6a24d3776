import GitHistory.Json.Typed
import GitHistory.Proofs.Json.Layout
import GitHistory.Proofs.Json.Skipping

/-! Readers that take one document for one value. Where the meaning of all documents is more than is
wanted, it is enough to know of the items and members at hand what is made of them. -/
namespace GitHistory.Json.Reader

variable {α β σ : Type}

/-- A reader that takes a document for a value, wherever the document stands. -/
def Takes (read : Reader α) (document : Document) (value : α) : Prop :=
  ∀ (gap : Gap) (rest : List Char), Delimited rest →
    accept? read (gap.chars ++ (document.written ++ rest)) = some (value, rest)

theorem Reads.takes {read : Reader α} {meaning : Document → Option α} (reads : Reads read meaning)
    {document : Document} {value : α} (means : meaning document = some value) :
    Takes read document value := by
  intro gap rest delimited
  rw [reads gap document rest delimited, means]
  rfl

theorem Takes.map {read : Reader α} {document : Document} {value : α}
    (takes : Takes read document value) (change : α → β) :
    Takes (change <$> read) document (change value) := by
  intro gap rest delimited
  rw [accept?_map, takes gap rest delimited]
  rfl

/-- A whole text is read as what its document is taken for; white space may follow. -/
theorem Takes.parse {read : Reader α} {document : Document} {value : α}
    (takes : Takes read document value) (ending : Gap) :
    read.parse (document.written ++ ending.chars) = .ok value := by
  have delimited : Delimited (ending.chars ++ []) := delimited_gap ending (by simp [Delimited])
  have taken := takes Gap.none (ending.chars ++ []) delimited
  rw [Gap.none_chars, List.nil_append, accept?_eq_some, List.append_nil] at taken
  have blank : dropSpace ending.chars = [] := by
    rw [← List.append_nil ending.chars, dropSpace_gap]
    rfl
  have finished : accept? finish ending.chars = some ((), []) := by
    simp [finish, blank]
  rw [Reader.parse, taken]
  simp [bind, Except.bind, accept?_eq_some.mp finished, pure, Except.pure]

/-! Scalars. -/

theorem takes_string (expected : Expected) (text : String) :
    Takes (string expected) (.string (escapedPieces text)) text :=
  (reads_string expected).takes (by simp [Document.text?])

theorem le_ofDigitChars (chars : List Char) (start : Nat) :
    start ≤ Nat.ofDigitChars 10 chars start := by
  induction chars generalizing start with
  | nil => exact Nat.le_refl start
  | cons c rest ih =>
    rw [Nat.ofDigitChars_cons]
    have further := ih (10 * start + (c.toNat - '0'.toNat))
    omega

/-- Digits whose value is a count are all taken. -/
theorem significandFrom_eq {chars : List Char} {start : Nat}
    (small : Nat.ofDigitChars 10 chars start < UInt64.size) :
    significandFrom start chars = (Nat.ofDigitChars 10 chars start, []) := by
  induction chars generalizing start with
  | nil => rfl
  | cons c rest ih =>
    have same : start * 10 + digitOf c = 10 * start + (c.toNat - '0'.toNat) := by
      rw [digitOf, Nat.mul_comm]
    rw [Nat.ofDigitChars_cons] at small ⊢
    have bounded := le_ofDigitChars rest (10 * start + (c.toNat - '0'.toNat))
    rw [significandFrom, same, if_pos (Nat.lt_of_le_of_lt bounded small)]
    exact ih small

/-- A count in decimal digits is read as it is. -/
theorem numberFrom_ofCount (n : UInt64) {rest : List Char} (delimited : Delimited rest) :
    numberFrom false (Nat.toDigits 10 n.toNat ++ rest) = .ok (.count n, rest) := by
  change numberFrom false ((Numeral.ofCount n.toNat).whole.chars ++ rest) = _
  have digits : significandFrom 0 (Numeral.ofCount n.toNat).whole.chars = (n.toNat, []) := by
    have value : Nat.ofDigitChars 10 (Numeral.ofCount n.toNat).whole.chars 0 = n.toNat :=
      Nat.ofDigitChars_toDigits (by decide) (by decide)
    have small : n.toNat < UInt64.size := n.toNat_lt
    rw [significandFrom_eq (Nat.lt_of_le_of_lt (Nat.le_of_eq value) small), value]
  rw [numberFrom, takeDigits_append _ delimited.ended]
  split
  · rename_i same
    exact ((Numeral.ofCount n.toNat).whole.some (Prod.mk.inj same).1).elim
  · rename_i same
    exact ((Numeral.ofCount n.toNat).whole.some (Prod.mk.inj same).1).elim
  · rename_i same
    exact (Numeral.whole_ne _ _ _ (Prod.mk.inj same).1).elim
  · rename_i same
    obtain ⟨rfl, rfl⟩ := Prod.mk.inj same
    rw [digits]
    -- what follows the digits is no part of a number
    simp only
    split
    · exact absurd rfl (delimited '.' (by simp)).2.1
    · exact absurd rfl (delimited 'e' (by simp)).2.2.1
    · exact absurd rfl (delimited 'E' (by simp)).2.2.2
    · simp [wholeNumber]

theorem takes_found_number (n : UInt64) :
    Takes found (.number (.ofCount n.toNat)) (.number (.count n)) := by
  intro gap rest delimited
  have read := numberFrom_ofCount n delimited
  obtain ⟨c, more, head, digit⟩ := Numeral.ofCount_head n.toNat
  have other {letter : Char} (plain : isDigit letter = false) : c ≠ letter := isDigit_ne digit plain
  have minus := @other '-' (by decide)
  have taken : accept? number (c :: (more ++ rest)) = some (.count n, rest) := by
    rw [head] at read
    rw [accept?_eq_some, ← read]
    simp [number, minus]
  have letters : c ≠ 'n' ∧ c ≠ 't' ∧ c ≠ 'f' :=
    ⟨other (by decide), other (by decide), other (by decide)⟩
  have marks : c ≠ '"' ∧ c ≠ '[' ∧ c ≠ '{' :=
    ⟨other (by decide), other (by decide), other (by decide)⟩
  rw [found, accept?_bind, accept?_valueToken]
  simp [Document.written, head, letters, marks, digit, taken]

theorem takes_count (expected : Expected) (n : UInt64) :
    Takes (count expected) (.number (.ofCount n.toNat)) n := by
  intro gap rest delimited
  rw [count, accept?_bind, takes_found_number n gap rest delimited]
  rfl

theorem takes_optional_none (read : Reader α) : Takes (optional read) .null none := by
  intro gap rest _
  have literal := accept?_literal ['u', 'l', 'l'] rest
  simp only [List.cons_append, List.nil_append] at literal
  simp [optional, Document.written, isSpace, literal]

theorem takes_optional_string {read : Reader α} {text : String} {value : α}
    (takes : Takes read (.string (escapedPieces text)) value) :
    Takes (optional read) (.string (escapedPieces text)) (some value) := by
  intro gap rest delimited
  have taken := takes Gap.none rest delimited
  simp only [Gap.none_chars, List.nil_append, Document.written, List.cons_append,
    List.append_assoc] at taken
  simp [optional, Document.written, isSpace, taken]

theorem takes_ofOptional (spacing : Spacing) (level : Nat) (text : Option String) :
    Takes (optional (string .string)) ((Value.ofOptional text).document spacing level) text := by
  cases text with
  | none => exact takes_optional_none _
  | some text => exact takes_optional_string (takes_string .string text)

/-! Lists. -/

/-- A list of values of one type. -/
def listOf (read : Reader α) : Reader (List α) := do
  match ← valueToken with
  | '[' => do
    advance
    elements read true
  | _ => failAhead .expectedValue

theorem takes_listOf {read : Reader α} {meaning : Document → Option α} (reads : Reads read meaning)
    {inner : Gap} {items : List (Laid Document)} {values : List α}
    (means : (items.mapM fun item => meaning item.value) = some values) :
    Takes (listOf read) (.list inner items) values := by
  intro gap rest _
  rw [listOf, accept?_bind, accept?_valueToken]
  simp [Document.written, accept?_elements reads, means]

/-! Objects. -/

/-- A step that takes a member with a name and a value for the way from one state to another. -/
def Steps (step : σ → String → Reader σ) (state : σ) (name : String) (document : Document)
    (next : σ) : Prop :=
  ∀ (behind ahead : Gap) (rest : List Char), Delimited rest →
    accept? (step state name) (behind.chars ++ ':' :: (ahead.chars ++ (document.written ++ rest))) =
      some (next, rest)

/-- Members that lead a fold from one state to another. -/
inductive Folds (step : σ → String → Reader σ) : σ → List (Member Document) → σ → Prop where
  | none {state : σ} : Folds step state [] state
  | more {state next last : σ} {member : Member Document} {rest : List (Member Document)}
      {name : String} (named : member.name? = some name)
      (steps : Steps step state name member.content.value next)
      (further : Folds step next rest last) : Folds step state (member :: rest) last

/-- Printed members are led through one after the other. -/
theorem Folds.printed {step : σ → String → Reader σ} {spacing : Spacing} {level : Nat}
    {state next last : σ} {name : String} {value : Value} {rest : List (String × Value)}
    (steps : Steps step state name (value.document spacing (level + 1)) next)
    (further : Folds step next (printedMembers spacing level rest) last) :
    Folds step state (printedMembers spacing level ((name, value) :: rest)) last := by
  refine .more ?_ steps further
  simp [Member.name?]

theorem Folds.membersFrom {step : σ → String → Reader σ} {state last : σ}
    {members : List (Member Document)} (folds : Folds step state members last) (turns : Nat)
    (enough : members.length < turns) (first : Bool) (gap : Gap) (rest : List Char) :
    accept? (membersFrom stringBody step turns first state)
        (gap.chars ++ (writtenMembers first members ++ '}' :: rest)) = some (last, rest) := by
  induction folds generalizing turns first gap with
  | none =>
    obtain ⟨turns, rfl⟩ := Nat.exists_eq_add_one_of_ne_zero (Nat.ne_zero_of_lt enough)
    exact accept?_membersFrom_nil step turns first _ gap rest
  | @more state next last member more name named steps _ ih =>
    obtain ⟨turns, rfl⟩ := Nat.exists_eq_add_one_of_ne_zero (Nat.ne_zero_of_lt enough)
    have delimited := delimited_gap member.content.after (delimited_members more rest)
    rw [accept?_membersFrom_member, named]
    simp only [Option.bind_some, steps member.behind member.content.before _ delimited]
    exact ih turns (by simpa using enough) false member.content.after

/-- An object is read to the state that its members lead to. -/
theorem Folds.members {step : σ → String → Reader σ} {start last : σ}
    {members : List (Member Document)} (folds : Folds step start members last) (inner : Gap)
    (rest : List Char) :
    accept? (Reader.members stringBody step start)
        (inner.chars ++ (writtenMembers true members ++ '}' :: rest)) = some (last, rest) := by
  have enough := length_le_writtenMembers true members
  refine folds.membersFrom _ ?_ true inner rest
  simp
  omega

theorem Takes.behindColon {read : Reader α} {document : Document} {value : α}
    (takes : Takes read document value) (behind ahead : Gap) {rest : List Char}
    (delimited : Delimited rest) :
    accept? (do colon; read)
        (behind.chars ++ ':' :: (ahead.chars ++ (document.written ++ rest))) =
      some (value, rest) := by
  rw [accept?_bind, accept?_colon]
  exact takes ahead rest delimited

theorem Takes.field {read : Reader α} {document : Document} {value : α}
    (takes : Takes read document value) (name : String) (behind ahead : Gap) {rest : List Char}
    (delimited : Delimited rest) :
    accept? (field name none read)
        (behind.chars ++ ':' :: (ahead.chars ++ (document.written ++ rest))) =
      some (some value, rest) :=
  (takes.map some).behindColon behind ahead delimited

/-- A step that reads a field which is not given yet sets it. -/
theorem Takes.steps {read : Reader α} {document : Document} {value : α}
    (takes : Takes read document value) {step : σ → String → Reader σ} {state : σ} {name : String}
    (set : σ → Option α → σ) (reads : step state name = set state <$> Reader.field name none read) :
    Steps step state name document (set state (some value)) := by
  intro behind ahead rest delimited
  rw [reads, accept?_map, takes.field name behind ahead delimited]
  rfl

theorem takes_anyValue {document : Document} {value : Found} (takes : Takes found document value)
    (scalar : value ≠ .sequence ∧ value ≠ .object) (depth : Nat) :
    Takes (anyValue (depth + 1)) document value := by
  intro gap rest delimited
  rw [anyValue, accept?_bind, takes gap rest delimited]
  cases value with
  | sequence => exact absurd rfl scalar.1
  | object => exact absurd rfl scalar.2
  | _ => rfl

end GitHistory.Json.Reader
