import GitHistory.Proofs.Commit.WireFormat
import GitHistory.Proofs.Json.Verbatim

/-! Records expanded by git, which puts every field between its quotes as it is. The stream may
be refused, and it may even be read as something else: the records come back just when all of
their characters stand for themselves. -/
namespace GitHistory

open Json (Reader Document Gap isPlain leadingComma isCoded writtenPieces_pmap spelled?_pmap)
open Json.Reader

variable {σ : Type}

/-- A member with a text between the quotes, whatever this does to the text behind it. -/
def verbatimMember (first : Bool) (key : String) (raw tail : List Char) : List Char :=
  leadingComma first ++ ('"' :: (key.toList ++ ('"' :: ':' :: '"' :: (raw ++ '"' :: tail))))

theorem accept?_membersFrom_key {step : σ → String → Reader σ} {key : String}
    (shown : key.toList.all isPlain = true) (turns : Nat) (first : Bool) (state : σ)
    (text : List Char) :
    accept? (membersFrom stringBody step (turns + 1) first state)
        (leadingComma first ++ ('"' :: (key.toList ++ '"' :: text))) =
      (accept? (step state key) text).bind fun taken =>
        accept? (membersFrom stringBody step turns false taken.1) taken.2 := by
  have next := accept?_nextMember_member first Gap.none Gap.none (key.toList ++ '"' :: text)
  simp only [Gap.none_chars, List.nil_append] at next
  simp only [membersFrom, accept?_bind, next, Option.bind_some, if_true, accept?_advance,
    List.drop_succ_cons, List.drop_zero, accept?_stringBody_plain (List.all_eq_true.mp shown),
    String.ofList_toList]

theorem accept?_membersFrom_end {step : σ → String → Reader σ} {turns : Nat} {first : Bool}
    {state : σ} {text : List Char} {taken : σ × List Char}
    (accepted : accept? (membersFrom stringBody step turns first state) ('}' :: text) =
      some taken) : taken = (state, text) := by
  cases turns with
  | zero => simp [membersFrom] at accepted
  | succ turns =>
    have ended := accept?_nextMember_end first Gap.none text
    simp only [Gap.none_chars, List.nil_append] at ended
    simp [membersFrom, ended] at accepted
    exact accepted.symm

/-- What every step keeps is kept to the end. -/
theorem membersFrom_keeps {step : σ → String → Reader σ} (kept : σ → Prop)
    (keeps : ∀ {state key text taken}, accept? (step state key) text = some taken →
      kept state → kept taken.1)
    {turns : Nat} {first : Bool} {state : σ} {text : List Char} {taken : σ × List Char}
    (accepted : accept? (membersFrom stringBody step turns first state) text = some taken)
    (start : kept state) : kept taken.1 := by
  induction turns generalizing first state text with
  | zero => simp [membersFrom] at accepted
  | succ turns ih =>
    simp only [membersFrom, accept?_bind, Option.bind_eq_some_iff] at accepted
    obtain ⟨⟨more, text⟩, _, accepted⟩ := accepted
    cases more with
    | false =>
      simp at accepted
      simpa [← accepted] using start
    | true =>
      simp only [if_true, accept?_bind, Option.bind_eq_some_iff] at accepted
      obtain ⟨_, _, ⟨key, text⟩, _, ⟨next, text⟩, stepped, accepted⟩ := accepted
      exact ih accepted (keeps stepped start)

/-- The text of a member is read for the field it has in the end, if steps keep this field. -/
theorem exists_string_of_membersFrom (get : σ → Option String) (set : String → σ)
    {step : σ → String → Reader σ} {key : String} (shown : key.toList.all isPlain = true)
    {state : σ} (reads : ∀ text, accept? (step state key) (':' :: '"' :: text) =
      (accept? stringBody text).map fun taken => (set taken.1, taken.2))
    (sets : ∀ read, get (set read) = some read)
    (keeps : ∀ {turns state text taken},
      accept? (membersFrom stringBody step turns false state) text = some taken →
      ∀ value, get state = some value → get taken.1 = some value)
    {turns : Nat} {first : Bool} {raw tail : List Char} {taken : σ × List Char}
    (accepted : accept? (membersFrom stringBody step turns first state)
      (verbatimMember first key raw tail) = some taken)
    {value : String} (given : get taken.1 = some value) :
    ∃ left turns, accept? stringBody (raw ++ '"' :: tail) = some (value, left) ∧
      accept? (membersFrom stringBody step turns false (set value)) left = some taken := by
  cases turns with
  | zero => simp [membersFrom] at accepted
  | succ turns =>
    rw [verbatimMember, accept?_membersFrom_key shown, reads] at accepted
    obtain ⟨_, found, going⟩ := Option.bind_eq_some_iff.mp accepted
    obtain ⟨⟨read, left⟩, body, rfl⟩ := Option.map_eq_some_iff.mp found
    have kept := keeps going read (sets read)
    obtain rfl := Option.some.inj (kept.symm.trans given)
    exact ⟨left, turns, body, going⟩

theorem accept?_field_none {α : Type} (name : String) (read : Reader α) (text : List Char) :
    accept? (field name none read) (':' :: text) =
      (accept? read text).map fun taken => (some taken.1, taken.2) := by
  have colon := accept?_colon Gap.none text
  simp only [Gap.none_chars, List.nil_append] at colon
  simp [field, colon]

theorem accept?_string_quote (text : List Char) :
    accept? (string .string) ('"' :: text) = accept? stringBody text := by
  simp [string, valueToken, Json.isSpace]

theorem accept?_record_object {α : Type} (name : String) (step : σ → String → Reader σ) (start : σ)
    (finish : σ → Reader α) (positional : Reader α) (text : List Char) :
    accept? (record name step start finish positional) ('{' :: text) =
      (accept? (membersFrom stringBody step (text.length + 1) true start) text).bind fun taken =>
        accept? (finish taken.1) taken.2 := by
  simp [record, valueToken, Json.isSpace]
  rfl

theorem field_given_eq_none {α : Type} {name : String} {given : Option α} {read : Reader α}
    {text : List Char} {taken : Option α × List Char}
    (accepted : accept? (field name given read) text = some taken) : given = none := by
  cases given with
  | none => rfl
  | some value => simp [field] at accepted

/-! Texts between quotes, read one behind the other. -/

/-- A text between quotes, what stands behind its closing quote, and what was read for it. -/
structure Quoted where
  raw : List Char
  tail : List Char
  read : String

/-- Each text is read for its part as long as those before it ended at their own quotes. -/
def TakenInTurn (last : Prop) : List Quoted → Prop
  | [] => last
  | quoted :: more => ∃ left, accept? stringBody (quoted.raw ++ '"' :: quoted.tail) =
      some (quoted.read, left) ∧ (left = quoted.tail → TakenInTurn last more)

theorem TakenInTurn.append {last : Prop} {first second : List Quoted}
    (taken : TakenInTurn (TakenInTurn last second) first) : TakenInTurn last (first ++ second) := by
  induction first with
  | nil => exact taken
  | cons quoted more ih =>
    obtain ⟨left, body, going⟩ := taken
    exact ⟨left, body, fun ended => ih (going ended)⟩

theorem TakenInTurn.imp {last other : Prop} (implies : last → other) {texts : List Quoted}
    (taken : TakenInTurn last texts) : TakenInTurn other texts := by
  induction texts with
  | nil => exact implies taken
  | cons quoted more ih =>
    obtain ⟨left, body, going⟩ := taken
    exact ⟨left, body, fun ended => ih (going ended)⟩

theorem TakenInTurn.plain_of_unescaped {last : Prop} {texts : List Quoted}
    (taken : TakenInTurn last texts)
    (clean : ∀ quoted ∈ texts, ∀ c ∈ quoted.raw, c ≠ '"' ∧ c ≠ '\\') :
    (∀ quoted ∈ texts, ∀ c ∈ quoted.raw, isPlain c = true) ∧ last := by
  induction texts with
  | nil => exact ⟨by simp, taken⟩
  | cons quoted more ih =>
    obtain ⟨left, body, going⟩ := taken
    obtain ⟨plain, ended, _⟩ := Json.Reader.plain_of_unescaped body (clean quoted (by simp))
    obtain ⟨later, last⟩ := ih (going ended) fun quoted member => clean quoted (by simp [member])
    exact ⟨List.forall_mem_cons.mpr ⟨plain, later⟩, last⟩

/-! Committers. -/

/-- Fields that were given stay as they are. -/
structure CommitterFields.Extends (given next : CommitterFields) : Prop where
  name : ∀ value, given.name = some value → next.name = some value
  email : ∀ value, given.email = some value → next.email = some value
  date : ∀ value, given.date = some value → next.date = some value

theorem CommitterFields.step_extends {start given : CommitterFields} {key : String}
    {text : List Char} {taken : CommitterFields × List Char}
    (stepped : accept? (given.step key) text = some taken) (extended : start.Extends given) :
    start.Extends taken.1 := by
  rw [CommitterFields.step.eq_def] at stepped
  split at stepped <;> simp only [accept?_bind, accept?_pure, Option.bind_eq_some_iff,
    Option.some.injEq] at stepped <;> obtain ⟨_, found, rfl⟩ := stepped
  case h_1 =>
    have absent := field_given_eq_none found
    exact ⟨fun value given => absurd (extended.name value given) (by simp [absent]),
      extended.email, extended.date⟩
  case h_2 =>
    have absent := field_given_eq_none found
    exact ⟨extended.name, fun value given => absurd (extended.email value given) (by simp [absent]),
      extended.date⟩
  case h_3 =>
    have absent := field_given_eq_none found
    exact ⟨extended.name, extended.email,
      fun value given => absurd (extended.date value given) (by simp [absent])⟩
  case h_4 => exact extended

theorem CommitterFields.extends_of_membersFrom {turns : Nat} {first : Bool}
    {given : CommitterFields} {text : List Char} {taken : CommitterFields × List Char}
    (accepted : accept? (membersFrom stringBody CommitterFields.step turns first given) text =
      some taken) : given.Extends taken.1 :=
  membersFrom_keeps given.Extends CommitterFields.step_extends accepted
    ⟨fun _ given => given, fun _ given => given, fun _ given => given⟩

theorem CommitterFields.complete_eq_some {given : CommitterFields} {committer : Committer} :
    given.complete = some committer ↔ given.name = some committer.name ∧
      given.email = some committer.email ∧ given.date = some committer.date := by
  obtain ⟨name, email, date⟩ := given
  obtain ⟨_, _, _⟩ := committer
  cases name <;> cases email <;> cases date <;> simp [CommitterFields.complete]

/-- The committer of a fragment, from its brace on. -/
def committerText (entry : LogRecord) (rest : List Char) : List Char :=
  '{' :: verbatimMember true "name" entry.name.toList
    (verbatimMember false "email" entry.email.toList
      (verbatimMember false "date" entry.date.toList ('}' :: rest)))

def committerTexts (entry : LogRecord) (rest : List Char) (read : Committer) : List Quoted := [
  ⟨entry.name.toList, verbatimMember false "email" entry.email.toList
    (verbatimMember false "date" entry.date.toList ('}' :: rest)), read.name⟩,
  ⟨entry.email.toList, verbatimMember false "date" entry.date.toList ('}' :: rest), read.email⟩,
  ⟨entry.date.toList, '}' :: rest, read.date⟩]

theorem committer_taken {entry : LogRecord} {rest : List Char} {taken : Committer × List Char}
    (accepted : accept? committerReader (committerText entry rest) = some taken) :
    TakenInTurn (taken.2 = rest) (committerTexts entry rest taken.1) := by
  rw [committerText, committerReader, accept?_record_object] at accepted
  obtain ⟨⟨fields, after⟩, found, finished⟩ := Option.bind_eq_some_iff.mp accepted
  rw [CommitterFields.finishes] at finished
  obtain ⟨committer, complete, rfl⟩ := Option.map_eq_some_iff.mp finished
  obtain ⟨name, email, date⟩ := CommitterFields.complete_eq_some.mp complete
  have reads : ∀ text, accept? (string .string) ('"' :: text) = accept? stringBody text :=
    accept?_string_quote
  obtain ⟨left, turns, body, going⟩ := exists_string_of_membersFrom CommitterFields.name
    (fun text => { name := some text }) (by decide)
    (by simp [CommitterFields.step, accept?_field_none, reads, Function.comp_def])
    (fun _ => rfl) (fun found => (CommitterFields.extends_of_membersFrom found).name) found name
  refine ⟨left, body, ?_⟩
  rintro rfl
  obtain ⟨left, turns, body, going⟩ := exists_string_of_membersFrom CommitterFields.email
    (fun text => { name := some committer.name, email := some text }) (by decide)
    (by simp [CommitterFields.step, accept?_field_none, reads, Function.comp_def])
    (fun _ => rfl) (fun found => (CommitterFields.extends_of_membersFrom found).email) going email
  refine ⟨left, body, ?_⟩
  rintro rfl
  obtain ⟨left, turns, body, going⟩ := exists_string_of_membersFrom CommitterFields.date
    (fun text => { name := some committer.name, email := some committer.email, date := some text })
    (by decide)
    (by simp [CommitterFields.step, accept?_field_none, reads, Function.comp_def])
    (fun _ => rfl) (fun found => (CommitterFields.extends_of_membersFrom found).date) going date
  refine ⟨left, body, ?_⟩
  rintro rfl
  exact (Prod.mk.inj (accept?_membersFrom_end going)).2

/-! Records. -/

structure RecordFields.Extends (given next : RecordFields) : Prop where
  hash : ∀ value, given.hash = some value → next.hash = some value
  committer : ∀ value, given.committer = some value → next.committer = some value
  subject : ∀ value, given.subject = some value → next.subject = some value
  body : ∀ value, given.body = some value → next.body = some value

theorem RecordFields.step_extends {start given : RecordFields} {key : String}
    {text : List Char} {taken : RecordFields × List Char}
    (stepped : accept? (given.step key) text = some taken) (extended : start.Extends given) :
    start.Extends taken.1 := by
  rw [RecordFields.step.eq_def] at stepped
  split at stepped <;> simp only [accept?_bind, accept?_pure, Option.bind_eq_some_iff,
    Option.some.injEq] at stepped <;> obtain ⟨_, found, rfl⟩ := stepped
  case h_1 =>
    have absent := field_given_eq_none found
    exact ⟨fun value given => absurd (extended.hash value given) (by simp [absent]),
      extended.committer, extended.subject, extended.body⟩
  case h_2 =>
    have absent := field_given_eq_none found
    exact ⟨extended.hash, fun value given => absurd (extended.committer value given)
      (by simp [absent]), extended.subject, extended.body⟩
  case h_3 =>
    have absent := field_given_eq_none found
    exact ⟨extended.hash, extended.committer, fun value given =>
      absurd (extended.subject value given) (by simp [absent]), extended.body⟩
  case h_4 =>
    have absent := field_given_eq_none found
    exact ⟨extended.hash, extended.committer, extended.subject,
      fun value given => absurd (extended.body value given) (by simp [absent])⟩
  case h_5 => exact extended

theorem RecordFields.extends_of_membersFrom {turns : Nat} {first : Bool}
    {given : RecordFields} {text : List Char} {taken : RecordFields × List Char}
    (accepted : accept? (membersFrom stringBody RecordFields.step turns first given) text =
      some taken) : given.Extends taken.1 :=
  membersFrom_keeps given.Extends RecordFields.step_extends accepted
    ⟨fun _ given => given, fun _ given => given, fun _ given => given, fun _ given => given⟩

theorem RecordFields.exists_of_complete {given : RecordFields} {entry : LogRecord}
    (complete : given.complete = some entry) :
    given.hash = some entry.hash ∧
      given.committer = some ⟨entry.name, entry.email, entry.date⟩ ∧
      given.subject = some entry.subject ∧ given.body = some entry.body := by
  obtain ⟨hash, committer, subject, body⟩ := given
  cases hash <;> cases committer <;> cases subject <;> cases body <;>
    simp [RecordFields.complete] at complete
  subst complete
  simp [logRecord]

/-- The members of a fragment behind its committer. -/
def messageText (entry : LogRecord) (rest : List Char) : List Char :=
  verbatimMember false "subject" entry.subject.toList
    (verbatimMember false "body" entry.body.toList ('}' :: rest))

def fragmentText (entry : LogRecord) (rest : List Char) : List Char :=
  '{' :: verbatimMember true "commit" entry.hash.toList
    (leadingComma false ++ ('"' :: ("commiter".toList ++ '"' :: ':' ::
      committerText entry (messageText entry rest))))

def fragmentTexts (entry : LogRecord) (rest : List Char) (read : LogRecord) : List Quoted :=
  ⟨entry.hash.toList, leadingComma false ++ ('"' :: ("commiter".toList ++ '"' :: ':' ::
      committerText entry (messageText entry rest))), read.hash⟩ ::
    (committerTexts entry (messageText entry rest) ⟨read.name, read.email, read.date⟩ ++ [
      ⟨entry.subject.toList, verbatimMember false "body" entry.body.toList ('}' :: rest),
        read.subject⟩,
      ⟨entry.body.toList, '}' :: rest, read.body⟩])

theorem expand_append (entry : LogRecord) (rest : List Char) :
    entry.expand.toList ++ rest = fragmentText entry (fragmentSeparator :: rest) := by
  simp [LogRecord.expand, fillFormat, logFormat, fragmentText, committerText, messageText,
    verbatimMember, leadingComma, LogRecord.get, fragmentSeparator]

theorem record_taken {entry : LogRecord} {rest : List Char} {taken : LogRecord × List Char}
    (accepted : accept? LogRecord.reader (fragmentText entry rest) = some taken) :
    TakenInTurn (taken.2 = rest) (fragmentTexts entry rest taken.1) := by
  rw [fragmentText, LogRecord.reader, accept?_record_object] at accepted
  obtain ⟨⟨fields, after⟩, found, finished⟩ := Option.bind_eq_some_iff.mp accepted
  rw [RecordFields.finishes] at finished
  obtain ⟨read, complete, rfl⟩ := Option.map_eq_some_iff.mp finished
  obtain ⟨hash, committer, subject, body⟩ := RecordFields.exists_of_complete complete
  have reads : ∀ text, accept? (string .string) ('"' :: text) = accept? stringBody text :=
    accept?_string_quote
  obtain ⟨left, turns, taken, going⟩ := exists_string_of_membersFrom RecordFields.hash
    (fun text => { hash := some text }) (by decide)
    (by simp [RecordFields.step, accept?_field_none, reads, Function.comp_def])
    (fun _ => rfl) (fun found => (RecordFields.extends_of_membersFrom found).hash) found hash
  refine ⟨left, taken, ?_⟩
  rintro rfl
  cases turns with
  | zero => simp [membersFrom] at going
  | succ turns =>
    rw [accept?_membersFrom_key (by decide)] at going
    obtain ⟨⟨next, left⟩, stepped, going⟩ := Option.bind_eq_some_iff.mp going
    obtain ⟨read', inner, rfl⟩ : ∃ read', accept? committerReader
        (committerText entry (messageText entry rest)) = some (read', left) ∧
        { hash := some read.hash, committer := some read' } = next := by
      simpa [RecordFields.step, accept?_field_none] using stepped
    have kept := (RecordFields.extends_of_membersFrom going).committer read' rfl
    obtain rfl := Option.some.inj (kept.symm.trans committer)
    refine (TakenInTurn.imp ?_ (committer_taken inner)).append
    rintro rfl
    obtain ⟨left, turns, taken, going⟩ := exists_string_of_membersFrom RecordFields.subject
      (fun text =>
        { hash := some read.hash, committer := some ⟨read.name, read.email, read.date⟩,
          subject := some text })
      (by decide)
      (by simp [RecordFields.step, accept?_field_none, reads, Function.comp_def])
      (fun _ => rfl) (fun found => (RecordFields.extends_of_membersFrom found).subject) going
      subject
    refine ⟨left, taken, ?_⟩
    rintro rfl
    obtain ⟨left, turns, taken, going⟩ := exists_string_of_membersFrom RecordFields.body
      (fun text =>
        { hash := some read.hash, committer := some ⟨read.name, read.email, read.date⟩,
          subject := some read.subject, body := some text })
      (by decide)
      (by simp [RecordFields.step, accept?_field_none, reads, Function.comp_def])
      (fun _ => rfl) (fun found => (RecordFields.extends_of_membersFrom found).body) going body
    refine ⟨left, taken, ?_⟩
    rintro rfl
    exact (Prod.mk.inj (accept?_membersFrom_end going)).2

/-! What a fragment may hold. -/

/-- No field has a quote or a backslash. -/
def LogRecord.Unescaped (entry : LogRecord) : Prop :=
  ∀ field, ∀ c ∈ (entry.get field).toList, c ≠ '"' ∧ c ≠ '\\'

theorem LogRecord.Plain.unescaped {entry : LogRecord} (plain : entry.Plain) : entry.Unescaped :=
  fun field c member =>
    have shown := Json.isPlain_iff.mp (plain field c member)
    ⟨shown.1, shown.2.1⟩

theorem plain_of_unescaped {entry read : LogRecord} {rest : List Char} {last : Prop}
    (taken : TakenInTurn last (fragmentTexts entry rest read)) (clean : entry.Unescaped) :
    entry.Plain ∧ last := by
  have inside : ∀ quoted ∈ fragmentTexts entry rest read, ∀ c ∈ quoted.raw, c ≠ '"' ∧ c ≠ '\\' := by
    simp only [fragmentTexts, committerTexts, List.cons_append, List.nil_append,
      List.forall_mem_cons, List.not_mem_nil, false_implies, implies_true, and_true]
    exact ⟨clean .hash, clean .name, clean .email, clean .date, clean .subject, clean .body⟩
  obtain ⟨plain, last⟩ := taken.plain_of_unescaped inside
  simp only [fragmentTexts, committerTexts, List.cons_append, List.nil_append,
    List.forall_mem_cons, List.not_mem_nil, false_implies, implies_true, and_true] at plain
  obtain ⟨hash, name, email, date, subject, body⟩ := plain
  refine ⟨fun field => ?_, last⟩
  cases field <;> assumption

/-- A fragment that is read as its own commit is plain. The texts are settled one by one: each
is followed in the commit by something that no escape can leave over. -/
theorem plain_of_ofRecord_eq {entry read : LogRecord} {rest : List Char} {last : Prop}
    {checkoutPath : String} (taken : TakenInTurn last (fragmentTexts entry rest read))
    (same : Commit.ofRecord checkoutPath read = Commit.ofRecord checkoutPath entry) :
    entry.Plain ∧ last := by
  obtain ⟨hash, author, date, message, _⟩ := Commit.mk.inj same
  have author := congrArg String.toList author
  have message := congrArg String.toList message
  simp only [String.toList_append, List.append_assoc] at author message
  obtain ⟨_, body, taken⟩ := taken
  obtain ⟨plainHash, ended⟩ := plain_of_read_back_whole body (congrArg String.toList hash)
  obtain ⟨_, body, taken⟩ := taken ended
  obtain ⟨plainName, ended, name⟩ := plain_of_read_back body (by simp; decide) author
  have name : read.name = entry.name := name.trans String.ofList_toList
  rw [name, List.append_cancel_left_eq, List.append_cancel_left_eq] at author
  obtain ⟨_, body, taken⟩ := taken ended
  obtain ⟨plainEmail, ended, _⟩ := plain_of_read_back body (by simp; decide) author
  obtain ⟨_, body, taken⟩ := taken ended
  obtain ⟨plainDate, ended⟩ := plain_of_read_back_whole body (congrArg String.toList date)
  obtain ⟨_, body, taken⟩ := taken ended
  obtain ⟨plainSubject, ended, subject⟩ := plain_of_read_back body (by simp; decide) message
  have subject : read.subject = entry.subject := subject.trans String.ofList_toList
  rw [subject, List.append_cancel_left_eq, List.append_cancel_left_eq] at message
  obtain ⟨_, body, last⟩ := taken ended
  obtain ⟨plainBody, ended⟩ := plain_of_read_back_whole body message
  refine ⟨fun field => ?_, last ended⟩
  cases field <;> assumption

end GitHistory
