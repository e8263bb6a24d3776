import GitHistory.Proofs.Json.Spelling

/-! Readers of lists and objects on written documents. A reader that takes each document for
its meaning, wherever it stands, makes the reader of a list or of a record do the same. -/
namespace GitHistory.Json

/-- What may follow a value without becoming part of it: only a number could go on. -/
def Delimited (rest : List Char) : Prop :=
  ∀ c ∈ rest.head?, isDigit c = false ∧ c ≠ '.' ∧ c ≠ 'e' ∧ c ≠ 'E'

theorem isSpace_iff {c : Char} :
    isSpace c = true ↔ c = ' ' ∨ c = '\t' ∨ c = '\n' ∨ c = '\r' := by
  simp [isSpace, or_assoc]

theorem delimited_cons {c : Char} (rest : List Char)
    (closing : isSpace c = true ∨ c = ',' ∨ c = ']' ∨ c = '}') : Delimited (c :: rest) := by
  intro first same
  cases Option.some.inj same
  rw [isSpace_iff] at closing
  rcases closing with (rfl | rfl | rfl | rfl) | rfl | rfl | rfl <;> decide

theorem delimited_gap (gap : Gap) {rest : List Char} (delimited : Delimited rest) :
    Delimited (gap.chars ++ rest) := by
  cases chars : gap.chars with
  | nil => exact delimited
  | cons c more => exact delimited_cons _ (.inl (gap.blank c (by simp [chars])))

theorem delimited_items (items : List (Laid Document)) (rest : List Char) :
    Delimited (writtenItems false items ++ ']' :: rest) := by
  cases items with
  | nil => exact delimited_cons _ (by simp)
  | cons item more => exact delimited_cons _ (by simp)

theorem delimited_members (members : List (Member Document)) (rest : List Char) :
    Delimited (writtenMembers false members ++ '}' :: rest) := by
  cases members with
  | nil => exact delimited_cons _ (by simp)
  | cons member more => exact delimited_cons _ (by simp)

@[simp] theorem dropSpace_gap (gap : Gap) (rest : List Char) :
    dropSpace (gap.chars ++ rest) = dropSpace rest :=
  List.dropWhile_append_of_pos gap.blank

@[simp] theorem dropSpace_cons {c : Char} (solid : isSpace c = false) (rest : List Char) :
    dropSpace (c :: rest) = c :: rest :=
  List.dropWhile_cons_of_neg (by simp [solid])

theorem isDigit_ne {c other : Char} (digit : isDigit c = true)
    (different : isDigit other = false) : c ≠ other := by
  rintro rfl
  simp [digit] at different

theorem isSpace_eq_false_of_isDigit {c : Char} (digit : isDigit c = true) :
    isSpace c = false := by
  rw [Bool.eq_false_iff, Ne, isSpace_iff]
  rintro (rfl | rfl | rfl | rfl) <;> simp [isDigit] at digit

theorem Numeral.written_head (numeral : Numeral) :
    ∃ c more, numeral.written = c :: more ∧ (c = '-' ∨ isDigit c = true) := by
  obtain ⟨negative, ⟨whole, some, digits⟩, leading, fraction, exponent⟩ := numeral
  cases negative with
  | true => exact ⟨'-', _, rfl, .inl rfl⟩
  | false =>
    cases whole with
    | nil => exact (some rfl).elim
    | cons c more => exact ⟨c, _, rfl, .inr (digits c (by simp))⟩

/-- A document starts with a token that opens a value. -/
theorem Document.written_head (document : Document) :
    ∃ c more, document.written = c :: more ∧ isSpace c = false ∧ c ≠ ']' := by
  cases document with
  | null => exact ⟨_, _, rfl, by decide, by decide⟩
  | boolean b => cases b <;> exact ⟨_, _, rfl, by decide, by decide⟩
  | string pieces => exact ⟨_, _, rfl, by decide, by decide⟩
  | list inner items => exact ⟨_, _, rfl, by decide, by decide⟩
  | object inner members => exact ⟨_, _, rfl, by decide, by decide⟩
  | number numeral =>
    obtain ⟨c, more, head, minus | digit⟩ := numeral.written_head
    · exact ⟨c, more, head, by simp [minus, isSpace], by simp [minus]⟩
    · exact ⟨c, more, head, isSpace_eq_false_of_isDigit digit, isDigit_ne digit (by decide)⟩

theorem dropSpace_document (document : Document) (rest : List Char) :
    dropSpace (document.written ++ rest) = document.written ++ rest := by
  obtain ⟨c, more, head, solid, _⟩ := document.written_head
  rw [head, List.cons_append, dropSpace_cons solid]

theorem length_le_writtenItems (first : Bool) (items : List (Laid Document)) :
    items.length ≤ (writtenItems first items).length := by
  induction items generalizing first with
  | nil => simp
  | cons item more ih =>
    obtain ⟨before, document, after⟩ := item
    obtain ⟨c, tail, head, _, _⟩ := document.written_head
    have rest := ih false
    simp [writtenItems, head]
    omega

theorem length_le_writtenMembers (first : Bool) (members : List (Member Document)) :
    members.length ≤ (writtenMembers first members).length := by
  induction members generalizing first with
  | nil => simp
  | cons member more ih =>
    obtain ⟨before, key, behind, content⟩ := member
    have rest := ih false
    simp [writtenMembers]
    omega

namespace Reader

variable {α σ : Type}

/-- A reader that takes each document for its meaning, wherever the document stands. -/
def Reads (read : Reader α) (meaning : Document → Option α) : Prop :=
  ∀ (gap : Gap) (document : Document) (rest : List Char), Delimited rest →
    accept? read (gap.chars ++ (document.written ++ rest)) = (meaning document).map (·, rest)

/-- The meaning of a value right where it starts. -/
theorem Reads.here {read : Reader α} {meaning : Document → Option α} (reads : Reads read meaning)
    (document : Document) {rest : List Char} (delimited : Delimited rest) :
    accept? read (document.written ++ rest) = (meaning document).map (·, rest) :=
  reads Gap.none document rest delimited

@[simp] theorem accept?_valueToken (gap : Gap) (document : Document) (rest : List Char) :
    accept? valueToken (gap.chars ++ (document.written ++ rest)) =
      (document.written.head?).map (·, document.written ++ rest) := by
  obtain ⟨c, more, head, solid, _⟩ := document.written_head
  simp [valueToken, head, solid]

/-! Lists. -/

theorem accept?_nextElement_end (first : Bool) (gap : Gap) (rest : List Char) :
    accept? (nextElement first) (gap.chars ++ ']' :: rest) = some (false, ']' :: rest) := by
  simp [nextElement, isSpace]

theorem accept?_nextElement_item (first : Bool) (gap : Gap) (item : Laid Document)
    (items : List (Laid Document)) (rest : List Char) :
    accept? (nextElement first) (gap.chars ++ (writtenItems first (item :: items) ++ rest)) =
      some (true,
        item.value.written ++ (item.after.chars ++ (writtenItems false items ++ rest))) := by
  obtain ⟨before, document, after⟩ := item
  obtain ⟨c, more, head, solid, bracket⟩ := document.written_head
  have comma : isSpace ',' = false := rfl
  cases first with
  | true => simp [nextElement, writtenItems, leadingComma, head, solid]
  | false => simp [nextElement, writtenItems, leadingComma, head, solid, comma]

theorem accept?_elementsFrom {read : Reader α} {meaning : Document → Option α}
    (reads : Reads read meaning) (items : List (Laid Document)) (turns : Nat)
    (enough : items.length < turns) (first : Bool) (done : List α) (gap : Gap)
    (rest : List Char) :
    accept? (elementsFrom read turns first done)
        (gap.chars ++ (writtenItems first items ++ ']' :: rest)) =
      (items.mapM fun item => meaning item.value).map fun values =>
        (done.reverse ++ values, rest) := by
  induction items generalizing turns first done gap with
  | nil =>
    obtain ⟨turns, rfl⟩ := Nat.exists_eq_add_one_of_ne_zero (Nat.ne_zero_of_lt enough)
    simp [elementsFrom, writtenItems, accept?_nextElement_end]
  | cons item more ih =>
    obtain ⟨turns, rfl⟩ := Nat.exists_eq_add_one_of_ne_zero (Nat.ne_zero_of_lt enough)
    have delimited := delimited_gap item.after (delimited_items more rest)
    simp only [elementsFrom, accept?_bind, accept?_nextElement_item, Option.bind_some, if_true,
      reads.here item.value delimited]
    rw [List.mapM_cons]
    cases meaning item.value with
    | none => rfl
    | some value =>
      simp only [Option.map_some, Option.bind_some]
      rw [ih turns (by simpa using enough)]
      cases more.mapM fun item => meaning item.value <;> simp

/-- A list is read as the list of what its items mean. -/
theorem accept?_elements {read : Reader α} {meaning : Document → Option α}
    (reads : Reads read meaning) (inner : Gap) (items : List (Laid Document))
    (rest : List Char) :
    accept? (elements read true) (inner.chars ++ (writtenItems true items ++ ']' :: rest)) =
      (items.mapM fun item => meaning item.value).map (·, rest) := by
  have enough := length_le_writtenItems true items
  refine (accept?_elementsFrom reads items _ ?_ true [] inner rest).trans (by simp)
  simp
  omega

/-! Objects. -/

/-- A step of a fold over members that takes each value for its meaning. -/
def Absorbs (step : σ → String → Reader σ) (absorb : σ → String → Document → Option σ) : Prop :=
  ∀ (state : σ) (name : String) (behind ahead : Gap) (document : Document) (rest : List Char),
    Delimited rest →
      accept? (step state name) (behind.chars ++ ':' :: (ahead.chars ++ (document.written ++ rest)))
        = (absorb state name document).map (·, rest)

/-- What a fold over members comes to; every key has to spell a name. -/
def absorbed? (absorb : σ → String → Document → Option σ) (start : σ)
    (members : List (Member Document)) : Option σ :=
  members.foldlM (fun state member => member.name?.bind fun name =>
    absorb state name member.content.value) start

@[simp] theorem absorbed?_nil (absorb : σ → String → Document → Option σ) (start : σ) :
    absorbed? absorb start [] = some start := rfl

theorem absorbed?_cons (absorb : σ → String → Document → Option σ) (start : σ)
    (member : Member Document) (rest : List (Member Document)) :
    absorbed? absorb start (member :: rest) =
      (member.name?.bind fun name => absorb start name member.content.value).bind fun next =>
        absorbed? absorb next rest := rfl

theorem accept?_nextMember_end (first : Bool) (gap : Gap) (rest : List Char) :
    accept? (nextMember first) (gap.chars ++ '}' :: rest) = some (false, '}' :: rest) := by
  simp [nextMember, isSpace]

theorem accept?_nextMember_member (first : Bool) (gap before : Gap) (rest : List Char) :
    accept? (nextMember first)
        (gap.chars ++ (leadingComma first ++ (before.chars ++ '"' :: rest))) =
      some (true, '"' :: rest) := by
  cases first <;> simp [nextMember, leadingComma, isSpace]

/-- One turn of a fold over members: the key, the step for it, and what comes behind. -/
theorem accept?_membersFrom_member (step : σ → String → Reader σ) (turns : Nat) (first : Bool)
    (state : σ) (gap : Gap) (member : Member Document) (more : List (Member Document))
    (rest : List Char) :
    accept? (membersFrom stringBody step (turns + 1) first state)
        (gap.chars ++ (writtenMembers first (member :: more) ++ '}' :: rest)) =
      member.name?.bind fun name =>
        (accept? (step state name) (member.behind.chars ++ ':' :: (member.content.before.chars ++
          (member.content.value.written ++ (member.content.after.chars ++
            (writtenMembers false more ++ '}' :: rest)))))).bind fun taken =>
          accept? (membersFrom stringBody step turns false taken.1) taken.2 := by
  obtain ⟨before, key, behind, ⟨ahead, document, after⟩⟩ := member
  simp only [membersFrom, writtenMembers, List.append_assoc, List.cons_append, accept?_bind,
    accept?_nextMember_member, Option.bind_some, if_true, accept?_advance, List.drop_succ_cons,
    List.drop_zero, accept?_stringBody, Member.name?]
  cases spelled? key <;> rfl

theorem accept?_membersFrom_nil (step : σ → String → Reader σ) (turns : Nat) (first : Bool)
    (state : σ) (gap : Gap) (rest : List Char) :
    accept? (membersFrom stringBody step (turns + 1) first state)
        (gap.chars ++ (writtenMembers first [] ++ '}' :: rest)) = some (state, rest) := by
  simp [membersFrom, writtenMembers, accept?_nextMember_end]

theorem accept?_membersFrom {step : σ → String → Reader σ}
    {absorb : σ → String → Document → Option σ} (absorbs : Absorbs step absorb)
    (members : List (Member Document)) (turns : Nat) (enough : members.length < turns)
    (first : Bool) (state : σ) (gap : Gap) (rest : List Char) :
    accept? (membersFrom stringBody step turns first state)
        (gap.chars ++ (writtenMembers first members ++ '}' :: rest)) =
      (absorbed? absorb state members).map (·, rest) := by
  induction members generalizing turns first state gap with
  | nil =>
    obtain ⟨turns, rfl⟩ := Nat.exists_eq_add_one_of_ne_zero (Nat.ne_zero_of_lt enough)
    exact accept?_membersFrom_nil step turns first state gap rest
  | cons member more ih =>
    obtain ⟨turns, rfl⟩ := Nat.exists_eq_add_one_of_ne_zero (Nat.ne_zero_of_lt enough)
    have delimited := delimited_gap member.content.after (delimited_members more rest)
    rw [accept?_membersFrom_member, absorbed?_cons]
    cases member.name? with
    | none => rfl
    | some name =>
      simp only [Option.bind_some, absorbs state name member.behind member.content.before
        member.content.value _ delimited]
      cases absorb state name member.content.value with
      | none => rfl
      | some next =>
        simp only [Option.map_some, Option.bind_some]
        exact ih turns (by simpa using enough) false next member.content.after

/-- An object is read by absorbing its members in order. -/
theorem accept?_members {step : σ → String → Reader σ}
    {absorb : σ → String → Document → Option σ} (absorbs : Absorbs step absorb) (start : σ)
    (inner : Gap) (members : List (Member Document)) (rest : List Char) :
    accept? (Reader.members stringBody step start)
        (inner.chars ++ (writtenMembers true members ++ '}' :: rest)) =
      (absorbed? absorb start members).map (·, rest) := by
  have enough := length_le_writtenMembers true members
  refine accept?_membersFrom absorbs members _ ?_ true start inner rest
  simp
  omega

end Reader

end GitHistory.Json
