import GitHistory.Commit.Json
import GitHistory.Proofs.Json.Order

/-! Commits as documents: a commit is read from any document that describes it, and what is printed
for it is one. -/
namespace GitHistory

open Json (Document Laid Member Spacing Value sole? sole?_printed allNamed allNamed_printed fill
  slot slot_none_join printedItems printedMembers)
open Json.Reader

/-- The commit that members describe: each of the five texts once, beside any others. -/
def namedCommit? (members : List (Member Document)) : Option Commit :=
  if allNamed members then do
    let hash ← (sole? "hash" members).bind Document.text?
    let author ← (sole? "author" members).bind Document.text?
    let date ← (sole? "date" members).bind Document.text?
    let message ← (sole? "message" members).bind Document.text?
    let checkoutPath ← (sole? "checkout_path" members).bind Document.text?
    pure ⟨hash, author, date, message, checkoutPath⟩
  else none

/-- The commit that items describe: just the five texts, in order. -/
def orderedCommit? : List (Laid Document) → Option Commit
  | [hash, author, date, message, checkoutPath] => do
    pure ⟨← hash.value.text?, ← author.value.text?, ← date.value.text?, ← message.value.text?,
      ← checkoutPath.value.text?⟩
  | _ => none

def commit? : Document → Option Commit
  | .object _ members => namedCommit? members
  | .list _ items => orderedCommit? items
  | _ => none

def CommitFields.absorb (given : CommitFields) (key : String) (document : Document) :
    Option CommitFields :=
  match key with
  | "hash" => (fill given.hash document.text?).map fun hash => { given with hash := hash }
  | "author" => (fill given.author document.text?).map fun author => { given with author := author }
  | "date" => (fill given.date document.text?).map fun date => { given with date := date }
  | "message" => (fill given.message document.text?).map fun message =>
    { given with message := message }
  | "checkout_path" => (fill given.checkoutPath document.text?).map fun checkoutPath =>
    { given with checkoutPath := checkoutPath }
  | _ => some given

def CommitFields.complete (given : CommitFields) : Option Commit := do
  pure ⟨← given.hash, ← given.author, ← given.date, ← given.message, ← given.checkoutPath⟩

theorem CommitFields.absorbs : Absorbs CommitFields.step CommitFields.absorb := by
  intro given key behind ahead document rest delimited
  have text {name : String} (slot : Option String) :=
    accept?_field (reads_string .string) name slot behind ahead document delimited
  have skipped := reads_skipValue ahead document rest delimited
  rw [CommitFields.step.eq_def, CommitFields.absorb.eq_def]
  split
  · simp [text, Option.map_map, Function.comp_def]
  · simp [text, Option.map_map, Function.comp_def]
  · simp [text, Option.map_map, Function.comp_def]
  · simp [text, Option.map_map, Function.comp_def]
  · simp [text, Option.map_map, Function.comp_def]
  · simp [unknownField, accept?_colon, skipped]

theorem CommitFields.absorbed (given : CommitFields) (members : List (Member Document)) :
    absorbed? CommitFields.absorb given members =
      if allNamed members then do
        let hash ← slot "hash" Document.text? given.hash members
        let author ← slot "author" Document.text? given.author members
        let date ← slot "date" Document.text? given.date members
        let message ← slot "message" Document.text? given.message members
        let checkoutPath ← slot "checkout_path" Document.text? given.checkoutPath members
        pure ⟨hash, author, date, message, checkoutPath⟩
      else none := by
  induction members generalizing given with
  | nil => rfl
  | cons member rest ih =>
    rw [absorbed?_cons]
    cases named : member.name? with
    | none => simp [allNamed, named]
    | some key =>
      have all : allNamed (member :: rest) = allNamed rest := by simp [allNamed, named]
      simp only [Option.bind_some, all, slot, named, Option.some.injEq]
      rw [CommitFields.absorb.eq_def]
      split
      · cases fill given.hash member.content.value.text? with
        | none => simp
        | some hash => simpa using ih { given with hash := hash }
      · cases fill given.author member.content.value.text? with
        | none => simp
        | some author => simpa using ih { given with author := author }
      · cases fill given.date member.content.value.text? with
        | none => simp
        | some date => simpa using ih { given with date := date }
      · cases fill given.message member.content.value.text? with
        | none => simp
        | some message => simpa using ih { given with message := message }
      · cases fill given.checkoutPath member.content.value.text? with
        | none => simp
        | some checkoutPath => simpa using ih { given with checkoutPath := checkoutPath }
      · rename_i hash author date message checkoutPath
        simpa only [Option.bind_some, if_neg hash, if_neg author, if_neg date, if_neg message,
          if_neg checkoutPath] using ih given

theorem CommitFields.absorbed_complete (members : List (Member Document)) :
    (absorbed? CommitFields.absorb {} members).bind CommitFields.complete =
      namedCommit? members := by
  rw [CommitFields.absorbed, namedCommit?]
  simp only [← slot_none_join]
  split
  · cases slot "hash" Document.text? none members <;>
      cases slot "author" Document.text? none members <;>
        cases slot "date" Document.text? none members <;>
          cases slot "message" Document.text? none members <;>
            cases slot "checkout_path" Document.text? none members <;>
              simp [CommitFields.complete]
  · rfl

theorem CommitFields.finishes (given : CommitFields) (text : List Char) :
    accept? given.finish text = given.complete.map (·, text) := by
  simp only [CommitFields.finish, CommitFields.complete]
  cases given.hash <;> cases given.author <;> cases given.date <;> cases given.message <;>
    cases given.checkoutPath <;> rfl

theorem commit_places : Places commitByPosition true orderedCommit? := by
  have text := reads_string .string
  let arity : Json.Arity := .record "Commit" 5
  have places := places_element text (fun hash => places_element text (fun author =>
    places_element text (fun date => places_element text (fun message =>
      places_element text (fun checkoutPath =>
        places_pure (Commit.mk hash author date message checkoutPath))
        arity 4) arity 3) arity 2) arity 1) arity 0
  intro gap items rest
  refine (places gap items rest).trans (congrArg _ ?_)
  rcases items with _ | ⟨hash, _ | ⟨author, _ | ⟨date, _ | ⟨message, _ | ⟨path, _ | more⟩⟩⟩⟩⟩ <;>
    simp [orderedCommit?]

theorem reads_commit : Reads Commit.reader commit? := by
  intro gap document rest delimited
  refine (reads_record CommitFields.absorbs {} CommitFields.finishes commit_places
    "Commit" gap document rest delimited).trans (congrArg _ ?_)
  cases document with
  | object inner members => exact CommitFields.absorbed_complete members
  | _ => rfl

/-! What is printed. -/

/-- The members that are printed, in their order. -/
def Commit.members (commit : Commit) : List (String × Value) := [
  ("hash", .string commit.hash),
  ("author", .string commit.author),
  ("date", .string commit.date),
  ("message", .string commit.message),
  ("checkout_path", .string commit.checkoutPath)]

theorem Commit.toJson_eq (commit : Commit) : commit.toJson = .object commit.members := rfl

theorem Commit.members_scalar (commit : Commit) :
    ∀ member ∈ commit.members, member.2.isScalar = true := by
  simp [members, Value.isScalar]

theorem Commit.members_once (commit : Commit) : (commit.members.map Prod.fst).Nodup := by
  simp [members]

/-- The members of a commit describe it in any order. -/
theorem commit?_members (spacing : Spacing) (level : Nat) {commit : Commit}
    {moved : List (String × Value)} (perm : commit.members.Perm moved) :
    commit? ((Value.object moved).document spacing level) = some commit := by
  have once : (moved.map Prod.fst).Nodup := (perm.map Prod.fst).nodup_iff.mp commit.members_once
  have sole {name text : String} (member : (name, .string text) ∈ commit.members) :
      (sole? name (printedMembers spacing level moved)).bind Document.text? = some text := by
    rw [sole?_printed once (perm.mem_iff.mp member)]
    simp [Value.document, Document.text?]
  have hash := @sole "hash" commit.hash (by simp [Commit.members])
  have author := @sole "author" commit.author (by simp [Commit.members])
  have date := @sole "date" commit.date (by simp [Commit.members])
  have message := @sole "message" commit.message (by simp [Commit.members])
  have checkoutPath := @sole "checkout_path" commit.checkoutPath (by simp [Commit.members])
  rw [Value.document, commit?, namedCommit?, if_pos (allNamed_printed spacing level moved), hash,
    author, date, message, checkoutPath]
  rfl

theorem takes_reordered_commit (spacing : Spacing) (level : Nat) {commit : Commit} {value : Value}
    (reordered : commit.toJson.Reordered value) :
    Takes Commit.reader (value.document spacing level) commit := by
  rw [Commit.toJson_eq] at reordered
  obtain ⟨moved, rfl, perm⟩ := reordered.of_scalars commit.members_scalar
  exact reads_commit.takes (commit?_members spacing level perm)

theorem commit?_printed (spacing : Spacing) (level : Nat) (commit : Commit) :
    commit? (commit.toSortedJson.document spacing level) = some commit := by
  simp [Commit.toSortedJson, Value.document, printedMembers, commit?, namedCommit?, allNamed, sole?,
    Member.name?, Document.text?]

theorem mapM_commit?_printed (spacing : Spacing) (level : Nat) (commits : List Commit) :
    ((printedItems spacing level (commits.map Commit.toSortedJson)).mapM fun item =>
      commit? item.value) = some commits := by
  induction commits with
  | nil => rfl
  | cons commit rest ih => simp [printedItems, List.mapM_cons, commit?_printed, ih]

end GitHistory
