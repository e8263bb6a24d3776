import GitHistory.Proofs.Json.Spelling

/-! A text put between quotes as it is, without escapes. When it is read back unchanged, every
character of it stood for itself: an escape makes the text read shorter than the text written,
and what it leaves over can never be made up for. -/
namespace GitHistory.Json

/-- Characters that can stand inside the escape of a backslash. -/
def isCoded (c : Char) : Bool :=
  c == '\\' || c == 'u' || (hexValue? c).isSome

theorem isCoded_of_escaped? {c meaning : Char} (known : escaped? c = some meaning)
    (coded : isCoded meaning = true) : c = '\\' := by
  rw [escaped?.eq_def] at known
  split at known <;> cases known <;> first | rfl | exact absurd coded (by decide)

theorem isCoded_of_hexValue? {c : Char} {value : Nat} (digit : hexValue? c = some value) :
    isCoded c = true := by
  simp [isCoded, digit]

theorem isCoded_of_hexQuad? {a b c d : Char} {number : Nat}
    (digits : hexQuad? a b c d = some number) :
    ∀ x ∈ ['\\', 'u', a, b, c, d], isCoded x = true := by
  simp only [hexQuad?, Option.pure_def, Option.bind_eq_bind, Option.bind_eq_some_iff] at digits
  obtain ⟨_, first, _, second, _, third, _, fourth, _⟩ := digits
  intro x member
  simp only [List.mem_cons, List.not_mem_nil, or_false] at member
  rcases member with rfl | rfl | rfl | rfl | rfl | rfl
  · decide
  · decide
  · exact isCoded_of_hexValue? first
  · exact isCoded_of_hexValue? second
  · exact isCoded_of_hexValue? third
  · exact isCoded_of_hexValue? fourth

theorem ne_quote_of_isCoded {c : Char} (coded : isCoded c = true) : c ≠ '"' := by
  rintro rfl
  exact absurd coded (by decide)

/-- Written pieces without quotes lie inside the text before the quote. -/
theorem exists_append_of_quote {chunk field tail written : List Char}
    (inside : ∀ c ∈ chunk, c ≠ '"') (taken : field ++ '"' :: tail = chunk ++ written) :
    ∃ more, field = chunk ++ more ∧ more ++ '"' :: tail = written := by
  induction chunk generalizing field with
  | nil => exact ⟨field, rfl, taken⟩
  | cons c rest ih =>
    cases field with
    | nil => exact (inside c (by simp) (List.cons.inj taken).1.symm).elim
    | cons first more =>
      obtain ⟨rfl, going⟩ := List.cons.inj taken
      obtain ⟨left, rfl, ended⟩ := ih (fun c member => inside c (by simp [member])) going
      exact ⟨left, rfl, ended⟩

/-- One character read for several written leaves some of them over. -/
theorem exists_queue {c : Char} {spelled after buffer chunk rest : List Char}
    (long : 2 ≤ buffer.length + chunk.length)
    (same : c :: spelled ++ after = buffer ++ (chunk ++ rest)) :
    ∃ queue, queue ≠ [] ∧ (∀ x ∈ queue, x ∈ buffer ++ chunk) ∧
      spelled ++ after = queue ++ rest := by
  cases whole : buffer ++ chunk with
  | nil => simp [List.append_eq_nil_iff.mp whole] at long
  | cons first queue =>
    rw [← List.append_assoc, whole] at same
    have size : buffer.length + chunk.length = queue.length + 1 := by
      simpa using congrArg List.length whole
    refine ⟨queue, ?_, fun x member => by simp [member], (List.cons.inj same).2⟩
    rintro rfl
    rw [size] at long
    exact absurd long (by decide)

variable {tail rest before after : List Char}

/-- What reading pieces back says about the text they were written from. The buffer is what was
written already but is not read back yet. -/
def ReadsBack (tail rest before after : List Char) (pieces : List Piece) : Prop :=
  ∀ (spelled buffer field : List Char), spelled? pieces = some spelled →
    field ++ '"' :: tail = writtenPieces pieces ++ '"' :: rest →
    (∀ c ∈ buffer, isCoded c = true) → spelled ++ after = buffer ++ (field ++ before) →
    buffer = [] ∧ (∀ c ∈ field, isPlain c = true) ∧ rest = tail

/-- What is written too much stays too much. -/
theorem ReadsBack.stuck {pieces : List Piece} (readsBack : ReadsBack tail rest before after pieces)
    (chunk : List Char) {c : Char} {spelled buffer field : List Char}
    (spells : spelled? pieces = some spelled)
    (taken : field ++ '"' :: tail = chunk ++ (writtenPieces pieces ++ '"' :: rest))
    (coded : ∀ x ∈ chunk, isCoded x = true) (queued : ∀ x ∈ buffer, isCoded x = true)
    (long : 2 ≤ buffer.length + chunk.length)
    (same : c :: spelled ++ after = buffer ++ (field ++ before)) : False := by
  obtain ⟨field, rfl, going⟩ :=
    exists_append_of_quote (fun x member => ne_quote_of_isCoded (coded x member)) taken
  rw [List.append_assoc] at same
  obtain ⟨queue, some, inside, same⟩ := exists_queue long same
  have kept : ∀ x ∈ queue, isCoded x = true := fun x member =>
    (List.mem_append.mp (inside x member)).elim (queued x) (coded x)
  exact some (readsBack spelled queue field spells going kept same).1

theorem readsBack_pieces (ends : ∀ c ∈ after.head?, c ≠ '"' ∧ isCoded c = false)
    (pieces : List Piece) : ReadsBack tail rest before after pieces := by
  fun_induction spelled? pieces with
  | case1 =>
    rintro _ buffer field ⟨⟩ taken queued same
    rw [List.nil_append] at same
    have solid : buffer = [] := by
      cases buffer with
      | nil => rfl
      | cons first more =>
        have head := ends first (by rw [same]; rfl)
        simp [queued first (by simp)] at head
    subst solid
    cases field with
    | nil => exact ⟨rfl, by simp, (List.cons.inj taken).2.symm⟩
    | cons first more =>
      obtain ⟨rfl, _⟩ := List.cons.inj taken
      exact ((ends '"' (by rw [same]; rfl)).1 rfl).elim
  | case2 c shown more ih =>
    intro spelled buffer field spells taken queued same
    obtain ⟨spelled, going, rfl⟩ := Option.map_eq_some_iff.mp spells
    cases buffer with
    | nil =>
      cases field with
      | nil => exact ((isPlain_iff.mp shown).1 (List.cons.inj taken).1.symm).elim
      | cons first field =>
        obtain ⟨rfl, left⟩ := List.cons.inj taken
        obtain ⟨_, plain, ended⟩ := ih spelled [] field going left (by simp) (List.cons.inj same).2
        exact ⟨rfl, by simpa [shown] using plain, ended⟩
    | cons first queue =>
      have coded : isCoded c = true := (List.cons.inj same).1 ▸ queued first (by simp)
      exact (ih.stuck [c] going taken (by simpa using coded) queued (by simp) same).elim
  | case3 c meaning known more ih =>
    intro spelled buffer field spells taken queued same
    obtain ⟨spelled, going, rfl⟩ := Option.map_eq_some_iff.mp spells
    have coded : isCoded meaning = true := by
      cases buffer with
      | nil =>
        cases field with
        | nil => cases (List.cons.inj taken).1
        | cons first field =>
          obtain ⟨rfl, _⟩ := List.cons.inj taken
          rw [(List.cons.inj same).1]
          decide
      | cons first queue => exact (List.cons.inj same).1 ▸ queued first (by simp)
    obtain rfl := isCoded_of_escaped? known coded
    exact (ih.stuck ['\\', '\\'] going taken (by simp [isCoded]) queued (by simp) same).elim
  | case5 a b c d lead digits notTrailing leading e f g h trail more' more trailing ih =>
    intro spelled buffer field spells taken queued same
    obtain ⟨spelled, going, rfl⟩ : ∃ spelled', spelled? more = some spelled' ∧
        surrogatePair lead trail :: spelled' = spelled := by
      simpa [spelled?, notTrailing, leading, trailing] using spells
    have coded : ∀ x ∈ ['\\', 'u', a, b, c, d] ++ ['\\', 'u', e, f, g, h], isCoded x = true :=
      fun x member => (List.mem_append.mp member).elim (isCoded_of_hexQuad? digits x)
        (isCoded_of_hexQuad? more' x)
    exact (ih.stuck _ going taken coded queued (by simp) same).elim
  | case8 a b c d number digits more notTrailing notLeading ih =>
    intro spelled buffer field spells taken queued same
    obtain ⟨spelled, going, rfl⟩ : ∃ spelled', spelled? more = some spelled' ∧
        Char.ofNat number :: spelled' = spelled := by
      rw [spelled?.eq_def] at spells
      simpa [notTrailing, notLeading] using spells
    exact (ih.stuck _ going taken (isCoded_of_hexQuad? digits) queued (by simp) same).elim
  | case4 a b c d number digits more trailing =>
    intro spelled buffer field spells
    rw [spelled?.eq_def] at spells
    simp [trailing] at spells
  | case6 a b c d lead digits notTrailing leading e f g h trail more' more other =>
    intro spelled buffer field spells
    simp [spelled?, notTrailing, leading, other] at spells
  | case7 a b c d lead digits more notTrailing leading alone =>
    intro spelled buffer field spells
    rw [spelled?.eq_def] at spells
    simp [notTrailing, leading] at spells

theorem plain_of_clean (pieces : List Piece) {field : List Char}
    (clean : ∀ c ∈ field, c ≠ '"' ∧ c ≠ '\\')
    (written : field ++ '"' :: tail = writtenPieces pieces ++ '"' :: rest) :
    ∀ c ∈ field, isPlain c = true := by
  induction pieces generalizing field with
  | nil =>
    cases field with
    | nil => simp
    | cons first more => exact ((clean first (by simp)).1 (List.cons.inj written).1).elim
  | cons piece pieces ih =>
    cases field with
    | nil => simp
    | cons first more =>
      cases piece with
      | plain c shown =>
        obtain ⟨rfl, going⟩ := List.cons.inj written
        have later := ih (fun c member => clean c (by simp [member])) going
        simpa [shown] using later
      | letter c meaning known => exact ((clean first (by simp)).2 (List.cons.inj written).1).elim
      | unit a b c d number digits =>
        exact ((clean first (by simp)).2 (List.cons.inj written).1).elim

namespace Reader

variable {read : String} {field : List Char}

/-- A text that is read back, up to what follows it on either side, is all plain. -/
theorem plain_of_read_back (taken : accept? stringBody (field ++ '"' :: tail) = some (read, rest))
    (ends : ∀ c ∈ after.head?, c ≠ '"' ∧ isCoded c = false)
    (same : read.toList ++ after = field ++ before) :
    (∀ c ∈ field, isPlain c = true) ∧ rest = tail ∧ read = String.ofList field := by
  obtain ⟨pieces, spelled, written, spells, rfl⟩ :=
    exists_pieces_of_stringFrom (accept?_eq_some.mp taken)
  have readsBack : ReadsBack tail rest before after pieces := readsBack_pieces ends pieces
  obtain ⟨_, plain, ended⟩ := readsBack spelled [] field spells written (by simp)
    (by simpa using same)
  rw [accept?_stringBody_plain plain, Option.some.injEq, Prod.mk.injEq] at taken
  exact ⟨plain, ended, taken.1.symm⟩

theorem plain_of_read_back_whole
    (taken : accept? stringBody (field ++ '"' :: tail) = some (read, rest))
    (same : read.toList = field) : (∀ c ∈ field, isPlain c = true) ∧ rest = tail := by
  have nothing : ∀ c ∈ ([] : List Char).head?, c ≠ '"' ∧ isCoded c = false := by simp
  obtain ⟨plain, ended, _⟩ := plain_of_read_back taken nothing (congrArg (· ++ []) same)
  exact ⟨plain, ended⟩

/-- Without quotes and backslashes there is nothing to misread. -/
theorem plain_of_unescaped (taken : accept? stringBody (field ++ '"' :: tail) = some (read, rest))
    (clean : ∀ c ∈ field, c ≠ '"' ∧ c ≠ '\\') :
    (∀ c ∈ field, isPlain c = true) ∧ rest = tail ∧ read = String.ofList field := by
  obtain ⟨pieces, spelled, written, _, _⟩ :=
    exists_pieces_of_stringFrom (accept?_eq_some.mp taken)
  have plain := plain_of_clean pieces clean written
  rw [accept?_stringBody_plain plain, Option.some.injEq, Prod.mk.injEq] at taken
  exact ⟨plain, taken.2.symm, taken.1.symm⟩

end Reader

end GitHistory.Json
