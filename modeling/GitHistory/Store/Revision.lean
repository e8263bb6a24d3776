import GitHistory.Pattern.Reader
import GitHistory.Revision.Moment
import GitHistory.Revision.Range
import GitHistory.Store.Message
import GitHistory.Store.Reference
import GitHistory.Store.Walk
import GitHistory.Text.Numeral

/-!
What a revision stands for in a repository. It is read from left to right: first a name, which
may be an id, the beginning of one, a reference, or a description that ends in an id; then steps
to parents, ancestors, or what a tag is about.
-/
namespace GitHistory

namespace Revision

/-- A revision that cannot be read. -/
def malformed : StoreFault := ⟨.invalidSpec, .invalid, "malformed revision"⟩

/-- A revision that leads to nothing. -/
def unknown : StoreFault := ⟨.notFound, .reference, "revision not found"⟩

/-- What stands up to a closing brace, and what follows it. -/
def braced (text : List Char) : Except StoreFault (List Char × List Char) :=
  match Text.cut? '\x7d' text with
  | some found => .ok found
  | none => .error malformed

def countLimit : Nat := Nat.pow 2 31

/-- A count of 31 bits, which is one where no digits stand. -/
def count (digits : List Char) : Except StoreFault Nat :=
  match digits with
  | [] => .ok 1
  | digits =>
    match Text.digits? digits with
    | some count => if count < countLimit then .ok count else .error malformed
    | none => .error malformed

/-- The generations that tildes and their counts amount to, and what follows them; the first
tilde has been read. Sums are kept to 32 bits. -/
def generations (text : List Char) : Except StoreFault (Nat × List Char) := do
  let run := text.takeWhile fun c => c == '~' || c.isDigit
  let counts ← (Text.splitOn '~' run).mapM count
  pure (counts.foldl Nat.add 0 % Nat.pow 2 32, text.drop run.length)

/-- Bytes as characters of the same codes. -/
def byteChars (bytes : List UInt8) : List Char := bytes.map fun b => Char.ofNat b.toNat

/-- The pattern of a search, which must not be empty. -/
def pattern (text : List Char) : Except StoreFault Pattern :=
  match text with
  | [] => .error malformed
  | text =>
    match Pattern.ofText? (byteChars (Text.utf8 text)) with
    | some pattern => .ok pattern
    | none => .error malformed

def isHexDigit (c : Char) : Bool := CharKind.hexDigit.holds c

/-- Digits of an id. -/
def idDigits : Nat := 40

/-- Fewest digits that may stand for an id. -/
def leastDigits : Nat := 4

/-- What follows the first place where `-g` stands. -/
def afterMark? : List Char → Option (List Char)
  | '-' :: 'g' :: rest => some rest
  | _ :: rest => afterMark? rest
  | [] => none

/-- Whether a text starts with a count and the beginning of an id, each with its mark. -/
def startsDescription (text : List Char) : Bool :=
  match text with
  | '-' :: text =>
    match text.takeWhile Char.isDigit, text.dropWhile Char.isDigit with
    | _ :: _, '-' :: 'g' :: digit :: _ => isHexDigit digit
    | _, _ => false
  | _ => false

/-- Whether a count and the beginning of an id stand somewhere behind another character of the
same line. -/
def isDescription : List Char → Bool
  | [] => false
  | c :: rest => (c != '\n' && startsDescription rest) || isDescription rest

end Revision

/-- How far a revision has been read: the name so far, or what it and the steps lead to. -/
structure RevisionState where
  name : List Char := []
  target : Option Target := none
  deriving Repr, DecidableEq

namespace Store

/-- The object whose id begins with some digits. -/
def abbreviated (store : Store) (digits : List Char) : Except StoreFault Target :=
  let isMatch := fun (id : ObjectId) => (digits.map Char.toLower).isPrefixOf id.toList
  if !digits.all Revision.isHexDigit || Revision.idDigits < digits.length then
    .error Revision.unknown
  else if digits.length < Revision.leastDigits then
    .error ⟨.ambiguous, .database, "prefix length too short"⟩
  else
    match (store.objects.map (·.1)).filter isMatch with
    | [] => .error Revision.unknown
    | [id] => store.load id
    | _ => .error ⟨.ambiguous, .database, "multiple matches for prefix"⟩

/-- The object that a description ends in. -/
def described (store : Store) (name : List Char) : Except StoreFault Target :=
  match Revision.afterMark? name with
  | some digits =>
    if Revision.isDescription name then store.abbreviated digits else .error Revision.unknown
  | none => .error Revision.unknown

/-- The object of a full id. -/
def identified (store : Store) (digits : List Char) : Except StoreFault Target :=
  if digits.length = Revision.idDigits ∧ digits.all Revision.isHexDigit then
    store.load (String.ofList (digits.map Char.toLower))
  else .error Revision.unknown

/-- Goes on to something else where nothing was found. -/
def ifMissing {α : Type} (other : Except StoreFault α) :
    Except StoreFault α → Except StoreFault α
  | .ok found => .ok found
  | .error fault => if fault.code = .notFound then other else .error fault

/-- The object that a name stands for. -/
def lookup (store : Store) (name : List Char) : Except StoreFault Target :=
  let isShort := decide (name.length < Revision.idDigits)
  let begun := if isShort then store.abbreviated name else .error Revision.unknown
  let referred :=
    match store.named (String.ofList name) with
    | .ok reference => store.load reference.target
    | .error fault => ifMissing (ifMissing (store.described name) begun) (.error fault)
  ifMissing referred (store.identified name)

/-- What has been read so far leads to an object; there has to be a name at least, and an at sign
alone is the name of HEAD. -/
def base (store : Store) (state : RevisionState) : Except StoreFault Target :=
  match state.target with
  | some target => .ok target
  | none =>
    match state.name with
    | [] => .error Revision.malformed
    | ['@'] => store.lookup "HEAD".toList
    | name => store.lookup name

/-- The newest commit of a walk whose message matches a pattern. -/
def search (store : Store) (pattern : Pattern) (tips : List ObjectId) :
    Except StoreFault Target := do
  let (walk, taken) ← store.walkFrom tips none
  let found ← (Heap.sorted walk.isNewer taken).findM? fun id => do
    let (_, text) ← store.readCommit id
    pure (pattern.occursIn (Revision.byteChars (Message.content text.message)))
  match found with
  | some id => pure (.commit id)
  | none => throw Revision.unknown

/-- The step that braces behind a caret ask for. -/
def bracedStep (store : Store) (target : Target) (content : List Char) :
    Except StoreFault Target :=
  match content with
  | [] => store.untag target
  | '/' :: text => do
    let pattern ← Revision.pattern text
    store.search pattern [← store.committish target]
  | content =>
    match ObjectKind.ofName? (String.ofList content) with
    | some kind => store.peel kind target
    | none => .error Revision.malformed

/-- The commit that steps to parents start from. -/
def start (store : Store) (target : Target) : Except StoreFault ObjectId :=
  (store.peelToCommit target).mapError fun fault =>
    if fault.code = .notFound ∨ fault.code = .ambiguous then Revision.malformed else fault

/-- A parent counted from one; zero stands for the commit itself. -/
def parentStep (store : Store) (target : Target) (number : Nat) : Except StoreFault Target := do
  let id ← store.start target
  match number with
  | 0 => pure (.commit id)
  | number + 1 => pure (.commit (← store.parent id number))

def ancestorStep (store : Store) (target : Target) (generations : Nat) :
    Except StoreFault Target := do
  pure (.commit (← store.ancestor generations (← store.start target)))

/-- What is behind a colon: a path in a tree, of which it only matters here that no commit is
there, or with nothing on the left a search through all references. -/
def colonStep (store : Store) (state : RevisionState) (text : List Char) :
    Except StoreFault Target :=
  if state.target.isSome || !state.name.isEmpty then do
    (store.peel .tree (← store.base state)).mapError fun fault =>
      if fault.code = .notFound then Revision.malformed else fault
  else
    match text with
    | '/' :: text => do
      let pattern ← Revision.pattern text
      store.search pattern (← store.referredCommits)
    | _ => .error ⟨.generic, .invalid, "unimplemented"⟩

/-- Whether changes of a reference are on record: those of branches and of HEAD are. -/
def hasLog (name : String) : Bool :=
  name = "HEAD" || ["refs/heads/", "refs/remotes/", "refs/notes/"].any fun directory =>
    directory.toList.isPrefixOf name.toList

/-- What a reference led to at a date. The record has one entry, which says where the reference
is now, and stands for all dates. -/
def atDate (store : Store) (name : String) : Except StoreFault Target := do
  let reference ←
    if name = "HEAD" then
      match store.reference? name with
      | some reference => pure reference
      | none => throw Revision.unknown
    else store.named name
  if hasLog reference.name then store.load reference.target else throw Revision.unknown

/-- What a reference led to at another time, as told by the text in braces. Nothing is known of
changes before the last one, nor of earlier branches. -/
def atMoment (store : Store) (name : String) (content : List Char) :
    Except StoreFault Target := do
  match Moment.ofText? content with
  | none => throw Revision.malformed
  | some .present => store.load (← store.named name).target
  | some .date => store.atDate name
  | some .changesAgo =>
    if name = "HEAD" then throw Revision.unknown
    let _ ← store.named name
    throw Revision.unknown
  | some .earlierBranch =>
    throw (if name.isEmpty then Revision.unknown else Revision.malformed)

/-- Reads a revision on from a state. -/
def readOn (store : Store) : Nat → RevisionState → List Char → Except StoreFault Target
  | 0, state, _ => store.base state
  | _, state, [] => store.base state
  | turns + 1, state, c :: rest => do
    match c, rest with
    | '^', '\x7b' :: rest =>
      let target ← store.base state
      let (content, rest) ← Revision.braced rest
      let target ← store.bracedStep target content
      store.readOn turns { state with target := some target } rest
    | '^', rest =>
      let target ← store.base state
      let number ← Revision.count (rest.takeWhile Char.isDigit)
      let target ← store.parentStep target number
      store.readOn turns { state with target := some target } (rest.dropWhile Char.isDigit)
    | '~', rest =>
      let (generations, rest) ← Revision.generations rest
      let target ← store.ancestorStep (← store.base state) generations
      store.readOn turns { state with target := some target } rest
    | ':', text => store.colonStep state text
    | '@', '\x7b' :: rest =>
      let (content, rest) ← Revision.braced rest
      if state.target.isSome then throw Revision.malformed
      let target ← store.atMoment (String.ofList state.name) content
      store.readOn turns { state with target := some target } rest
    | c, rest =>
      if state.target.isSome then throw Revision.malformed
      store.readOn turns { state with name := state.name ++ [c] } rest

/-- The commit that a revision stands for. -/
def revision (store : Store) (text : List Char) : Except StoreFault ObjectId := do
  store.peelToCommit (← store.readOn (text.length + 1) {} text)

/-- A text with a zero byte cannot be handed to the store. -/
def nulFault : StoreFault :=
  ⟨.generic, .none, "data contained a nul byte that could not be represented as a string"⟩

/-- Whether a fault says that a revision stands for nothing. -/
def isUnresolved (fault : StoreFault) : Bool :=
  [.notFound, .invalidSpec, .ambiguous].contains fault.code

/-- The commit that a revision stands for, unless it looks like an option. -/
def resolve (store : Store) (reference : String) : Except GitError ObjectId := do
  let reference ← checkRevision reference
  if reference.toList.contains '\x00' then throw (.store nulFault)
  (store.revision reference.toList).mapError fun fault =>
    if isUnresolved fault then .notFound reference else .store fault

end Store

end GitHistory
