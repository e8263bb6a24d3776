import GitHistory.Json.Typed

/-! What a reader takes off the front of a text, with the cause of a refusal forgotten. In
these terms a reader is equal to what it means, on accepted and on refused texts alike. -/
namespace GitHistory.Json.Reader

variable {α β : Type}

/-- The value taken and the text left over, if the reader accepts. -/
def accept? (read : Reader α) (text : List Char) : Option (α × List Char) :=
  (read text).toOption

theorem accept?_eq_some {read : Reader α} {text : List Char} {taken : α × List Char} :
    accept? read text = some taken ↔ read text = .ok taken := by
  unfold accept?
  cases read text <;> simp [Except.toOption]

theorem accept?_eq_none {read : Reader α} {text : List Char} :
    accept? read text = none ↔ ∃ failure, read text = .error failure := by
  unfold accept?
  cases read text <;> simp [Except.toOption]

@[simp] theorem accept?_pure (value : α) (text : List Char) :
    accept? (pure value) text = some (value, text) := rfl

@[simp] theorem accept?_bind (read : Reader α) (next : α → Reader β) (text : List Char) :
    accept? (read >>= next) text =
      (accept? read text).bind fun taken => accept? (next taken.1) taken.2 := by
  simp only [accept?, bind, StateT.bind]
  cases read text <;> rfl

theorem accept?_bind_eq_some {read : Reader α} {next : α → Reader β} {text : List Char}
    {taken : β × List Char} : accept? (read >>= next) text = some taken ↔
      ∃ value left, accept? read text = some (value, left) ∧
        accept? (next value) left = some taken := by
  simp [Option.bind_eq_some_iff]

@[simp] theorem accept?_map (change : α → β) (read : Reader α) (text : List Char) :
    accept? (change <$> read) text =
      (accept? read text).map fun taken => (change taken.1, taken.2) := by
  simp only [accept?, Functor.map, StateT.map]
  cases read text <;> rfl

@[simp] theorem accept?_ite (condition : Prop) [Decidable condition] (first second : Reader α)
    (text : List Char) : accept? (if condition then first else second) text =
      if condition then accept? first text else accept? second text := by
  split <;> rfl

@[simp] theorem accept?_failHere (cause : Cause) (text : List Char) :
    accept? (failHere cause : Reader α) text = none := rfl

@[simp] theorem accept?_failAhead (cause : Cause) (text : List Char) :
    accept? (failAhead cause : Reader α) text = none := rfl

@[simp] theorem accept?_failClosing (close : Char) (cause : Cause) (text : List Char) :
    accept? (failClosing close cause : Reader α) text = none := by
  unfold accept? failClosing
  cases dropSpace text <;> rfl

@[simp] theorem accept?_peek (text : List Char) : accept? peek text = some (text.head?, text) := rfl

@[simp] theorem accept?_token (text : List Char) :
    accept? token text = some ((dropSpace text).head?, dropSpace text) := rfl

@[simp] theorem accept?_advance (text : List Char) :
    accept? advance text = some ((), text.drop 1) := rfl

theorem accept?_advance_bind (next : Unit → Reader β) (c : Char) (text : List Char) :
    accept? (advance >>= next) (c :: text) = accept? (next ()) text := rfl

/-- Whatever the value is, a reader of another type refuses it. -/
@[simp] theorem accept?_wrongType (expected : Expected) (text : List Char) :
    accept? (wrongType expected : Reader α) text = none := by
  simp [wrongType]

/-! Whole texts. -/

theorem parse_eq_ok {read : Reader α} {text : List Char} {value : α}
    (accepted : accept? read text = some (value, [])) : parse read text = .ok value := by
  rw [parse, accept?_eq_some.mp accepted]
  rfl

theorem exists_parse_eq_error {read : Reader α} {text : List Char}
    (refused : accept? read text = none) : ∃ failure, parse read text = .error failure := by
  obtain ⟨failure, failed⟩ := accept?_eq_none.mp refused
  exact ⟨failure, by rw [parse, failed]; rfl⟩

/-- A whole text is one value, with nothing but white space behind it. -/
theorem exists_accept?_of_parse {read : Reader α} {text : List Char} {value : α}
    (parsed : parse read text = .ok value) :
    ∃ left, accept? read text = some (value, left) ∧ dropSpace left = [] := by
  rw [parse] at parsed
  cases taken : read text with
  | error failure => simp [taken, bind, Except.bind] at parsed
  | ok result =>
    obtain ⟨first, left⟩ := result
    cases finished : finish left with
    | error failure => simp [taken, finished, bind, Except.bind] at parsed
    | ok rest =>
      obtain rfl : first = value := by
        simpa [taken, finished, bind, Except.bind, pure, Except.pure] using parsed
      refine ⟨left, accept?_eq_some.mpr taken, ?_⟩
      have accepted := accept?_eq_some.mpr finished
      cases spaced : dropSpace left with
      | nil => rfl
      | cons c more => simp [finish, spaced] at accepted

end GitHistory.Json.Reader
