import GitHistory.Proofs.Json.Passed

/-! Whatever a reader of a known type takes is a written document, perhaps behind white space.
Together with the reading of written documents, this tells all the texts that it accepts. -/
namespace GitHistory.Json.Reader

variable {α σ : Type}

theorem derives_string (expected : Expected) : Derives (string expected) := by
  intro text value rest accepted
  rw [string, accept?_bind_eq_some] at accepted
  obtain ⟨first, left, looked, going⟩ := accepted
  obtain ⟨gap, more, rfl, rfl⟩ := exists_gap_of_valueToken looked
  split at going
  · rw [accept?_advance_bind] at going
    obtain ⟨pieces, _, rfl, -, -⟩ := exists_pieces_of_stringFrom (accept?_eq_some.mp going)
    exact ⟨gap, .string pieces, by simp [Document.written]⟩
  · simp at going

theorem exists_gap_of_nextElement_end {first : Bool} {text left : List Char}
    (accepted : accept? (nextElement first) text = some (false, left)) :
    ∃ (gap : Gap) (more : List Char), text = gap.chars ++ left ∧ left = ']' :: more := by
  rw [nextElement, accept?_bind_eq_some] at accepted
  obtain ⟨head, behind, looked, going⟩ := accepted
  obtain ⟨gap, rfl, same⟩ := exists_gap_of_token looked
  split at going
  · simp at going
  · obtain ⟨more, rfl⟩ := List.head?_eq_some_iff.mp same
    obtain rfl : ']' :: more = left := by simpa using going
    exact ⟨gap, more, rfl, rfl⟩
  · split at going
    · simp at going
    · split at going
      · rw [accept?_bind_eq_some] at going
        obtain ⟨_, _, _, looking⟩ := going
        obtain ⟨_, _, _, ending⟩ := accept?_bind_eq_some.mp looking
        split at ending <;> simp at ending
      · simp at going

theorem exists_gap_of_nextElement_item {first : Bool} {text left : List Char}
    (accepted : accept? (nextElement first) text = some (true, left)) :
    ∃ gap before : Gap, text = gap.chars ++ (leadingComma first ++ (before.chars ++ left)) := by
  rw [nextElement, accept?_bind_eq_some] at accepted
  obtain ⟨head, behind, looked, going⟩ := accepted
  obtain ⟨gap, rfl, same⟩ := exists_gap_of_token looked
  split at going
  · simp at going
  · simp at going
  · obtain ⟨more, rfl⟩ := List.head?_eq_some_iff.mp same
    split at going
    · rename_i leading
      obtain rfl := by simpa using going
      exact ⟨gap, Gap.none, by simp [leading, leadingComma]⟩
    · rename_i leading
      split at going
      · rename_i comma
        rw [accept?_advance_bind] at going
        obtain ⟨next, behind, looked, ending⟩ := accept?_bind_eq_some.mp going
        obtain ⟨before, rfl, -⟩ := exists_gap_of_token looked
        split at ending
        · simp at ending
        · obtain rfl : behind = left := by simpa using ending
          exact ⟨gap, before, by simp [leading, leadingComma, comma]⟩
        · simp at ending
      · simp at going

theorem exists_items_of_elementsFrom {read : Reader α} (derives : Derives read) {turns : Nat}
    {first : Bool} {done values : List α} {text rest : List Char}
    (accepted : accept? (elementsFrom read turns first done) text = some (values, rest)) :
    ∃ (gap : Gap) (items : List (Laid Document)),
      text = gap.chars ++ (writtenItems first items ++ ']' :: rest) := by
  induction turns generalizing first done text with
  | zero => simp [elementsFrom] at accepted
  | succ turns ih =>
    rw [elementsFrom, accept?_bind_eq_some] at accepted
    obtain ⟨another, left, looked, going⟩ := accepted
    cases another with
    | false =>
      obtain ⟨gap, more, rfl, rfl⟩ := exists_gap_of_nextElement_end looked
      obtain ⟨-, rfl⟩ : done.reverse = values ∧ more = rest := by simpa using going
      exact ⟨gap, [], by simp [writtenItems]⟩
    | true =>
      obtain ⟨gap, before, rfl⟩ := exists_gap_of_nextElement_item looked
      obtain ⟨value, left, taken, later⟩ := accept?_bind_eq_some.mp going
      obtain ⟨ahead, document, rfl⟩ := derives _ _ _ taken
      obtain ⟨after, items, rfl⟩ := ih later
      exact ⟨gap, ⟨before.append ahead, document, after⟩ :: items, by simp [writtenItems]⟩

/-! Members. -/

/-- A reader that takes nothing but a colon and a document behind it. -/
def DerivesContent (read : Reader α) : Prop :=
  ∀ text value rest, accept? read text = some (value, rest) →
    ∃ (behind ahead : Gap) (document : Document),
      text = behind.chars ++ ':' :: (ahead.chars ++ (document.written ++ rest))

theorem DerivesContent.of_colon {read : Reader α} (derives : Derives read) :
    DerivesContent (do colon; read) := by
  intro text value rest accepted
  obtain ⟨_, left, parted, taken⟩ := accept?_bind_eq_some.mp accepted
  obtain ⟨behind, rfl⟩ := exists_gap_of_colon parted
  obtain ⟨ahead, document, rfl⟩ := derives _ _ _ taken
  exact ⟨behind, ahead, document, rfl⟩

theorem DerivesContent.bind_pure {β : Type} {read : Reader α} (derives : DerivesContent read)
    (change : α → β) : DerivesContent (read >>= fun value => pure (change value)) := by
  intro text value rest accepted
  obtain ⟨taken, left, taking, same⟩ := accept?_bind_eq_some.mp accepted
  obtain ⟨-, rfl⟩ : change taken = value ∧ left = rest := by simpa using same
  exact derives text taken left taking

theorem derivesContent_unknownField : DerivesContent unknownField :=
  .of_colon derives_skipValue

theorem derivesContent_field {read : Reader α} (derives : Derives read) (name : String)
    (given : Option α) : DerivesContent (field name given read) := by
  intro text value rest accepted
  cases given with
  | some other => simp [field] at accepted
  | none =>
    refine DerivesContent.of_colon ?_ text value rest accepted
    intro text value rest accepted
    obtain ⟨⟨taken, left⟩, taking, same⟩ := Option.map_eq_some_iff.mp
      ((accept?_map some read text).symm.trans accepted)
    obtain ⟨-, rfl⟩ : some taken = value ∧ left = rest := by simpa using same
    exact derives text taken left taking

theorem exists_gap_of_nextMember_end {first : Bool} {text left : List Char}
    (accepted : accept? (nextMember first) text = some (false, left)) :
    ∃ (gap : Gap) (more : List Char), text = gap.chars ++ left ∧ left = '}' :: more := by
  rw [nextMember, accept?_bind_eq_some] at accepted
  obtain ⟨head, behind, looked, going⟩ := accepted
  obtain ⟨gap, rfl, same⟩ := exists_gap_of_token looked
  split at going
  · simp at going
  · obtain ⟨more, rfl⟩ := List.head?_eq_some_iff.mp same
    obtain rfl : '}' :: more = left := by simpa using going
    exact ⟨gap, more, rfl, rfl⟩
  · split at going
    · split at going <;> simp at going
    · split at going
      · rw [accept?_bind_eq_some] at going
        obtain ⟨_, _, _, looking⟩ := going
        obtain ⟨_, _, _, ending⟩ := accept?_bind_eq_some.mp looking
        split at ending <;> simp at ending
      · simp at going

theorem exists_gap_of_nextMember_member {first : Bool} {text left : List Char}
    (accepted : accept? (nextMember first) text = some (true, left)) :
    ∃ (gap before : Gap) (quoted : List Char), left = '"' :: quoted ∧
      text = gap.chars ++ (leadingComma first ++ (before.chars ++ left)) := by
  rw [nextMember, accept?_bind_eq_some] at accepted
  obtain ⟨head, behind, looked, going⟩ := accepted
  obtain ⟨gap, rfl, same⟩ := exists_gap_of_token looked
  split at going
  · simp at going
  · simp at going
  · obtain ⟨more, rfl⟩ := List.head?_eq_some_iff.mp same
    split at going
    · rename_i leading
      split at going
      · rename_i quote
        obtain rfl := by simpa using going
        exact ⟨gap, Gap.none, more, by rw [quote], by simp [leading, leadingComma]⟩
      · simp at going
    · rename_i leading
      split at going
      · rename_i comma
        rw [accept?_advance_bind] at going
        obtain ⟨next, behind, looked, ending⟩ := accept?_bind_eq_some.mp going
        obtain ⟨before, rfl, quote⟩ := exists_gap_of_token looked
        split at ending
        · obtain ⟨quoted, rfl⟩ := List.head?_eq_some_iff.mp quote
          obtain rfl : '"' :: quoted = left := by simpa using ending
          exact ⟨gap, before, quoted, rfl, by simp [leading, leadingComma, comma]⟩
        · simp at ending
        · simp at ending
        · simp at ending
      · simp at going

theorem exists_members_of_membersFrom {step : σ → String → Reader σ}
    (derives : ∀ state name, DerivesContent (step state name)) {turns : Nat} {first : Bool}
    {state last : σ} {text rest : List Char}
    (accepted : accept? (membersFrom stringBody step turns first state) text = some (last, rest)) :
    ∃ (gap : Gap) (members : List (Member Document)),
      text = gap.chars ++ (writtenMembers first members ++ '}' :: rest) := by
  induction turns generalizing first state text with
  | zero => simp [membersFrom] at accepted
  | succ turns ih =>
    rw [membersFrom, accept?_bind_eq_some] at accepted
    obtain ⟨another, left, looked, going⟩ := accepted
    cases another with
    | false =>
      obtain ⟨gap, more, rfl, rfl⟩ := exists_gap_of_nextMember_end looked
      obtain ⟨-, rfl⟩ : state = last ∧ more = rest := by simpa using going
      exact ⟨gap, [], by simp [writtenMembers]⟩
    | true =>
      obtain ⟨gap, before, quoted, rfl, rfl⟩ := exists_gap_of_nextMember_member looked
      rw [if_pos rfl, accept?_advance_bind] at going
      obtain ⟨name, left, keyed, stepping⟩ := accept?_bind_eq_some.mp going
      obtain ⟨key, _, rfl, -, -⟩ := exists_pieces_of_stringFrom (accept?_eq_some.mp keyed)
      obtain ⟨next, left, stepped, later⟩ := accept?_bind_eq_some.mp stepping
      obtain ⟨behind, ahead, document, rfl⟩ := derives state name _ _ _ stepped
      obtain ⟨after, members, rfl⟩ := ih later
      exact ⟨gap, ⟨before, key, behind, ⟨ahead, document, after⟩⟩ :: members,
        by simp [writtenMembers]⟩

/-! Positions. -/

theorem exists_gap_of_closeList {text rest : List Char}
    (accepted : accept? closeList text = some ((), rest)) :
    ∃ gap : Gap, text = gap.chars ++ ']' :: rest := by
  rw [closeList, accept?_bind_eq_some] at accepted
  obtain ⟨first, left, looked, going⟩ := accepted
  obtain ⟨gap, rfl, head⟩ := exists_gap_of_token looked
  split at going
  · obtain ⟨more, rfl⟩ := List.head?_eq_some_iff.mp head
    obtain rfl : more = rest := by simpa using going
    exact ⟨gap, rfl⟩
  · rw [accept?_bind_eq_some] at going
    obtain ⟨_, _, _, looking⟩ := going
    obtain ⟨_, _, _, ending⟩ := accept?_bind_eq_some.mp looking
    split at ending <;> simp at ending
  · simp at going
  · simp at going

/-- A reader that, up to the end of the list, takes nothing but items. -/
def DerivesItems (read : Reader α) (first : Bool) : Prop :=
  ∀ text value rest,
    accept? (do let value ← read; closeList; pure value) text = some (value, rest) →
      ∃ (gap : Gap) (items : List (Laid Document)),
        text = gap.chars ++ (writtenItems first items ++ ']' :: rest)

theorem derivesItems_pure (value : α) : DerivesItems (pure value) false := by
  intro text value rest accepted
  rw [pure_bind] at accepted
  obtain ⟨_, left, closed, same⟩ := accept?_bind_eq_some.mp accepted
  obtain ⟨gap, rfl⟩ := exists_gap_of_closeList closed
  obtain ⟨-, rfl⟩ : _ ∧ left = rest := by simpa using same
  exact ⟨gap, [], by simp [writtenItems]⟩

theorem derivesItems_element {β : Type} {read : Reader α} (derives : Derives read)
    {next : α → Reader β} (later : ∀ value, DerivesItems (next value) false) (arity : Arity)
    (index : Nat) : DerivesItems (element arity index read >>= next) (index = 0) := by
  intro text value rest accepted
  rw [bind_assoc] at accepted
  obtain ⟨taken, left, taking, going⟩ := accept?_bind_eq_some.mp accepted
  rw [element, accept?_bind_eq_some] at taking
  obtain ⟨another, behind, looked, reading⟩ := taking
  cases another with
  | false => simp at reading
  | true =>
    obtain ⟨gap, before, rfl⟩ := exists_gap_of_nextElement_item looked
    obtain ⟨ahead, document, rfl⟩ := derives _ _ _ reading
    obtain ⟨after, items, rfl⟩ := later taken _ _ _ going
    exact ⟨gap, ⟨before.append ahead, document, after⟩ :: items, by simp [writtenItems]⟩

theorem derives_record {step : σ → String → Reader σ} {start : σ} {finish : σ → Reader α}
    {complete : σ → Option α} {positional : Reader α}
    (contents : ∀ state name, DerivesContent (step state name))
    (finishes : ∀ state text, accept? (finish state) text = (complete state).map (·, text))
    (items : DerivesItems positional true) (name : String) :
    Derives (record name step start finish positional) := by
  intro text value rest accepted
  rw [record, accept?_bind_eq_some] at accepted
  obtain ⟨first, left, looked, going⟩ := accepted
  obtain ⟨gap, more, rfl, rfl⟩ := exists_gap_of_valueToken looked
  refine ⟨gap, ?_⟩
  split at going
  · rw [accept?_advance_bind] at going
    obtain ⟨last, left, folded, finishing⟩ := accept?_bind_eq_some.mp going
    obtain ⟨inner, members, rfl⟩ := exists_members_of_membersFrom contents folded
    rw [finishes] at finishing
    obtain ⟨_, -, same⟩ := Option.map_eq_some_iff.mp finishing
    obtain ⟨-, rfl⟩ := Prod.mk.inj same
    exact ⟨.object inner members, by simp [Document.written]⟩
  · rw [accept?_advance_bind] at going
    obtain ⟨inner, items, rfl⟩ := items _ _ _ going
    exact ⟨.list inner items, by simp [Document.written]⟩
  · simp at going

end GitHistory.Json.Reader
