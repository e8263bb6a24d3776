import GitHistory.Commit.Json
import GitHistory.Proofs.Json.Skipping

/-! Fragments as documents: which documents describe a commit, and that reading a fragment finds
exactly the record it describes. -/
namespace GitHistory

open Json (Document Laid Member Gap Delimited writtenItems sole? allNamed fill slot slot_none_join)
open Json.Reader

/-- The committer that members describe: each of the three texts once, beside any others. -/
def namedCommitter? (members : List (Member Document)) : Option Committer :=
  if allNamed members then do
    let name ← (sole? "name" members).bind Document.text?
    let email ← (sole? "email" members).bind Document.text?
    let date ← (sole? "date" members).bind Document.text?
    pure ⟨name, email, date⟩
  else none

/-- The committer that items describe: just the three texts, in order. -/
def orderedCommitter? : List (Laid Document) → Option Committer
  | [name, email, date] => do
    pure ⟨← name.value.text?, ← email.value.text?, ← date.value.text?⟩
  | _ => none

def committer? : Document → Option Committer
  | .object _ members => namedCommitter? members
  | .list _ items => orderedCommitter? items
  | _ => none

/-- The record that members describe: each of the four fields once, beside any others. -/
def namedRecord? (members : List (Member Document)) : Option LogRecord :=
  if allNamed members then do
    let hash ← (sole? "commit" members).bind Document.text?
    let committer ← (sole? "commiter" members).bind committer?
    let subject ← (sole? "subject" members).bind Document.text?
    let body ← (sole? "body" members).bind Document.text?
    pure (logRecord hash committer subject body)
  else none

/-- The record that items describe: just the four fields, in order. -/
def orderedRecord? : List (Laid Document) → Option LogRecord
  | [hash, committer, subject, body] => do
    let hash ← hash.value.text?
    let committer ← committer? committer.value
    let subject ← subject.value.text?
    let body ← body.value.text?
    pure (logRecord hash committer subject body)
  | _ => none

def record? : Document → Option LogRecord
  | .object _ members => namedRecord? members
  | .list _ items => orderedRecord? items
  | _ => none

/-! Committers. -/

def CommitterFields.absorb (given : CommitterFields) (key : String) (document : Document) :
    Option CommitterFields :=
  match key with
  | "name" => (fill given.name document.text?).map fun name => { given with name := name }
  | "email" => (fill given.email document.text?).map fun email => { given with email := email }
  | "date" => (fill given.date document.text?).map fun date => { given with date := date }
  | _ => some given

def CommitterFields.complete (given : CommitterFields) : Option Committer := do
  pure ⟨← given.name, ← given.email, ← given.date⟩

theorem CommitterFields.absorbs : Absorbs CommitterFields.step CommitterFields.absorb := by
  intro given key behind ahead document rest delimited
  have text {name : String} (slot : Option String) :=
    accept?_field (reads_string .string) name slot behind ahead document delimited
  have skipped := reads_skipValue ahead document rest delimited
  rw [CommitterFields.step.eq_def, CommitterFields.absorb.eq_def]
  split
  · simp [text, Option.map_map, Function.comp_def]
  · simp [text, Option.map_map, Function.comp_def]
  · simp [text, Option.map_map, Function.comp_def]
  · simp [unknownField, accept?_colon, skipped]

theorem CommitterFields.absorbed (given : CommitterFields) (members : List (Member Document)) :
    absorbed? CommitterFields.absorb given members =
      if allNamed members then do
        let name ← slot "name" Document.text? given.name members
        let email ← slot "email" Document.text? given.email members
        let date ← slot "date" Document.text? given.date members
        pure ⟨name, email, date⟩
      else none := by
  induction members generalizing given with
  | nil => rfl
  | cons member rest ih =>
    rw [absorbed?_cons]
    cases named : member.name? with
    | none => simp [allNamed, named]
    | some key =>
      have all : allNamed (member :: rest) = allNamed rest := by simp [allNamed, named]
      simp only [Option.bind_some, all, slot, named, Option.some.injEq]
      rw [CommitterFields.absorb.eq_def]
      split
      · cases fill given.name member.content.value.text? with
        | none => simp
        | some name => simpa using ih { given with name := name }
      · cases fill given.email member.content.value.text? with
        | none => simp
        | some email => simpa using ih { given with email := email }
      · cases fill given.date member.content.value.text? with
        | none => simp
        | some date => simpa using ih { given with date := date }
      · rename_i name email date
        simpa only [Option.bind_some, if_neg name, if_neg email, if_neg date] using ih given

theorem CommitterFields.absorbed_complete (members : List (Member Document)) :
    (absorbed? CommitterFields.absorb {} members).bind CommitterFields.complete =
      namedCommitter? members := by
  rw [CommitterFields.absorbed, namedCommitter?]
  simp only [← slot_none_join]
  split
  · cases slot "name" Document.text? none members <;>
      cases slot "email" Document.text? none members <;>
        cases slot "date" Document.text? none members <;> simp [CommitterFields.complete]
  · rfl

theorem CommitterFields.finishes (given : CommitterFields) (text : List Char) :
    accept? given.finish text = given.complete.map (·, text) := by
  simp only [CommitterFields.finish, CommitterFields.complete]
  cases given.name <;> cases given.email <;> cases given.date <;> rfl

theorem committer_places : Places committerByPosition true orderedCommitter? := by
  have text := reads_string .string
  have places := places_element text (fun name => places_element text (fun email =>
    places_element text (fun date => places_pure (Committer.mk name email date))
      (.record "Signature" 3) 2) (.record "Signature" 3) 1) (.record "Signature" 3) 0
  intro gap items rest
  refine (places gap items rest).trans (congrArg _ ?_)
  rcases items with _ | ⟨name, _ | ⟨email, _ | ⟨date, _ | more⟩⟩⟩ <;> simp [orderedCommitter?]

theorem reads_committer : Reads committerReader committer? := by
  intro gap document rest delimited
  refine (reads_record CommitterFields.absorbs {} CommitterFields.finishes committer_places
    "Signature" gap document rest delimited).trans (congrArg _ ?_)
  cases document with
  | object inner members => exact CommitterFields.absorbed_complete members
  | _ => rfl

/-! Log records. -/

def RecordFields.absorb (given : RecordFields) (key : String) (document : Document) :
    Option RecordFields :=
  match key with
  | "commit" => (fill given.hash document.text?).map fun hash => { given with hash := hash }
  | "commiter" => (fill given.committer (committer? document)).map fun committer =>
    { given with committer := committer }
  | "subject" => (fill given.subject document.text?).map fun subject =>
    { given with subject := subject }
  | "body" => (fill given.body document.text?).map fun body => { given with body := body }
  | _ => some given

def RecordFields.complete (given : RecordFields) : Option LogRecord := do
  pure (logRecord (← given.hash) (← given.committer) (← given.subject) (← given.body))

theorem RecordFields.absorbs : Absorbs RecordFields.step RecordFields.absorb := by
  intro given key behind ahead document rest delimited
  have text {name : String} (slot : Option String) :=
    accept?_field (reads_string .string) name slot behind ahead document delimited
  have committer {name : String} (slot : Option Committer) :=
    accept?_field reads_committer name slot behind ahead document delimited
  have skipped := reads_skipValue ahead document rest delimited
  rw [RecordFields.step.eq_def, RecordFields.absorb.eq_def]
  split
  · simp [text, Option.map_map, Function.comp_def]
  · simp [committer, Option.map_map, Function.comp_def]
  · simp [text, Option.map_map, Function.comp_def]
  · simp [text, Option.map_map, Function.comp_def]
  · simp [unknownField, accept?_colon, skipped]

theorem RecordFields.absorbed (given : RecordFields) (members : List (Member Document)) :
    absorbed? RecordFields.absorb given members =
      if allNamed members then do
        let hash ← slot "commit" Document.text? given.hash members
        let committer ← slot "commiter" committer? given.committer members
        let subject ← slot "subject" Document.text? given.subject members
        let body ← slot "body" Document.text? given.body members
        pure ⟨hash, committer, subject, body⟩
      else none := by
  induction members generalizing given with
  | nil => rfl
  | cons member rest ih =>
    rw [absorbed?_cons]
    cases named : member.name? with
    | none => simp [allNamed, named]
    | some key =>
      have all : allNamed (member :: rest) = allNamed rest := by simp [allNamed, named]
      simp only [Option.bind_some, all, slot, named, Option.some.injEq]
      rw [RecordFields.absorb.eq_def]
      split
      · cases fill given.hash member.content.value.text? with
        | none => simp
        | some hash => simpa using ih { given with hash := hash }
      · cases fill given.committer (committer? member.content.value) with
        | none => simp
        | some committer => simpa using ih { given with committer := committer }
      · cases fill given.subject member.content.value.text? with
        | none => simp
        | some subject => simpa using ih { given with subject := subject }
      · cases fill given.body member.content.value.text? with
        | none => simp
        | some body => simpa using ih { given with body := body }
      · rename_i hash committer subject body
        simpa only [Option.bind_some, if_neg hash, if_neg committer, if_neg subject, if_neg body]
          using ih given

theorem RecordFields.absorbed_complete (members : List (Member Document)) :
    (absorbed? RecordFields.absorb {} members).bind RecordFields.complete =
      namedRecord? members := by
  rw [RecordFields.absorbed, namedRecord?]
  simp only [← slot_none_join]
  split
  · cases slot "commit" Document.text? none members <;>
      cases slot "commiter" committer? none members <;>
        cases slot "subject" Document.text? none members <;>
          cases slot "body" Document.text? none members <;> simp [RecordFields.complete]
  · rfl

theorem RecordFields.finishes (given : RecordFields) (text : List Char) :
    accept? given.finish text = given.complete.map (·, text) := by
  simp only [RecordFields.finish, RecordFields.complete]
  cases given.hash <;> cases given.committer <;> cases given.subject <;> cases given.body <;> rfl

theorem record_places : Places recordByPosition true orderedRecord? := by
  have text := reads_string .string
  let arity : Json.Arity := .record "CommitFragment" 4
  have places := places_element text (fun hash => places_element reads_committer (fun committer =>
    places_element text (fun subject => places_element text (fun body =>
      places_pure (logRecord hash committer subject body)) arity 3) arity 2) arity 1) arity 0
  intro gap items rest
  refine (places gap items rest).trans (congrArg _ ?_)
  rcases items with _ | ⟨hash, _ | ⟨committer, _ | ⟨subject, _ | ⟨body, _ | more⟩⟩⟩⟩ <;>
    simp [orderedRecord?]

theorem reads_logRecord : Reads LogRecord.reader record? := by
  intro gap document rest delimited
  refine (reads_record RecordFields.absorbs {} RecordFields.finishes record_places
    "CommitFragment" gap document rest delimited).trans (congrArg _ ?_)
  cases document with
  | object inner members => exact RecordFields.absorbed_complete members
  | _ => rfl

end GitHistory
