import GitHistory.Proofs.InProcess.HandedOut

/-! The texts of the commits that are handed out in-process. Each of the four parts that a commit's
author and message are made of is there in full if its bytes are UTF-8, and not at all otherwise; no
query fails on account of them. -/
namespace GitHistory

/-- What is told of some bytes: the text that they encode, or nothing if they encode none. -/
def PartTold (bytes : List UInt8) (text : String) : Prop :=
  Text.utf8 text.toList = bytes ∨ ¬ Text.IsUtf8 bytes ∧ text = ""

theorem partTold_decodeUtf8OrEmpty (bytes : List UInt8) :
    PartTold bytes (Text.decodeUtf8OrEmpty bytes) :=
  Text.decodeUtf8OrEmpty_cases bytes

namespace PartTold

variable {bytes first second : List UInt8} {text firstText secondText : String}

theorem eq_iff (told : PartTold bytes text) :
    Text.utf8 text.toList = bytes ↔ Text.IsUtf8 bytes := by
  constructor
  · intro encodes
    exact ⟨text, encodes⟩
  · intro isUtf8
    rcases told with encodes | ⟨isNot, -⟩
    · exact encodes
    · exact absurd isUtf8 isNot

theorem length_le (told : PartTold bytes text) : (Text.utf8 text.toList).length ≤ bytes.length := by
  rcases told with encodes | ⟨-, rfl⟩
  · exact Nat.le_of_eq (congrArg List.length encodes)
  · exact Nat.zero_le _

theorem eq_of_length (told : PartTold bytes text)
    (length : (Text.utf8 text.toList).length = bytes.length) : Text.utf8 text.toList = bytes := by
  rcases told with encodes | ⟨isNot, rfl⟩
  · exact encodes
  · obtain rfl : bytes = [] := List.length_eq_zero_iff.mp length.symm
    rfl

end PartTold

/-- A text made of two parts, with something between them and behind them: each part is told as its
bytes allow, and the text is all there just if both of them are UTF-8. -/
structure PairTold (first : List UInt8) (between : String) (second : List UInt8) (behind : String)
    (text : String) : Prop where
  parts : ∃ firstText secondText, PartTold first firstText ∧ PartTold second secondText ∧
    text = firstText ++ between ++ secondText ++ behind
  whole : Text.utf8 text.toList =
      first ++ Text.utf8 between.toList ++ second ++ Text.utf8 behind.toList ↔
    Text.IsUtf8 first ∧ Text.IsUtf8 second

theorem PartTold.pair {first second : List UInt8} {firstText secondText : String}
    (firstTold : PartTold first firstText) (secondTold : PartTold second secondText)
    (between behind : String) :
    PairTold first between second behind (firstText ++ between ++ secondText ++ behind) := by
  refine ⟨⟨firstText, secondText, firstTold, secondTold, rfl⟩, ?_⟩
  rw [← firstTold.eq_iff, ← secondTold.eq_iff]
  simp only [String.toList_append, Text.utf8_append]
  constructor
  · intro same
    -- no part is told longer than it is, so nothing can stand in for what is missing
    have length := congrArg List.length same
    have firstShort := firstTold.length_le
    have secondShort := secondTold.length_le
    simp only [List.length_append] at length
    exact ⟨firstTold.eq_of_length (by omega), secondTold.eq_of_length (by omega)⟩
  · rintro ⟨firstEncodes, secondEncodes⟩
    rw [firstEncodes, secondEncodes]

/-- Who a commit is by, and what it says, as told from the text of its object. -/
structure TextsTold (text : CommitText) (commit : Commit) : Prop where
  author : PairTold text.committer.name " <" text.committer.email ">" commit.author
  message : PairTold (Message.summary text.message) "\n" (Message.body text.message) ""
    commit.message

namespace Store

variable {store : Store} {root : String} {text : CommitText} {commit : Commit}

theorem textsTold_ofRecord (root : String) (id : ObjectId) (text : CommitText) (date : String) :
    TextsTold text (Commit.ofRecord root (recordOf id text date)) where
  author := (partTold_decodeUtf8OrEmpty _).pair (partTold_decodeUtf8OrEmpty _) " <" ">"
  message := by
    have pair := (partTold_decodeUtf8OrEmpty (Message.summary text.message)).pair
      (partTold_decodeUtf8OrEmpty (Message.body text.message)) "\n" ""
    rwa [String.append_empty] at pair

theorem ReadFrom.textsTold (read : store.ReadFrom root text commit) : TextsTold text commit := by
  rw [read.told]
  exact textsTold_ofRecord root _ text _

/-- A commit that has a text and a date is read, whatever bytes the text is made of. -/
theorem read_of_text {id : ObjectId} {object : CommitObject} {date : String}
    (readable : store.readCommit id = .ok (object, text))
    (dated : isoStrict text.committer.seconds text.committer.offset = .ok date) :
    store.read root id = .ok (Commit.ofRecord root (recordOf id text date)) := by
  rw [read_eq readable, dated]
  rfl

end Store

namespace InProcess

variable {world : World} {caller : Caller} {root : RawPath} {store : Store}

/-- The texts of commits. What is handed out tells of each part what its bytes allow; and commits
that can be read and dated are handed out, whatever their texts are. -/
theorem texts_told (opened : openStore world root = .ok store) (live : caller.cancelled = false) :
    (∀ request commits, commitsForRange world caller root request = .ok commits →
      ∀ commit ∈ commits, ∃ object text, store.readCommit commit.hash = .ok (object, text) ∧
        TextsTold text commit) ∧
    (∀ reference commit, commitByReference world caller root reference = .ok commit →
      ∃ object text, store.readCommit commit.hash = .ok (object, text) ∧ TextsTold text commit) ∧
    (∀ reference id object text date, store.resolve reference = .ok id →
      store.readCommit id = .ok (object, text) →
      isoStrict text.committer.seconds text.committer.offset = .ok date →
      ∃ commit, commitByReference world caller root reference = .ok commit ∧ commit.hash = id) ∧
    ∀ request ids, store.range request.range request.count.toNat = .ok ids →
      (∀ id ∈ ids, ∃ object text date, store.readCommit id = .ok (object, text) ∧
        isoStrict text.committer.seconds text.committer.offset = .ok date) →
      ∃ commits, commitsForRange world caller root request = .ok commits ∧
        commits.map Commit.hash = ids := by
  refine ⟨?_, ?_, ?_, ?_⟩
  · intro request commits handed commit member
    obtain ⟨text, read⟩ := commitsForRange_readFrom opened handed commit member
    obtain ⟨object, readable⟩ := read.readable
    exact ⟨object, text, readable, read.textsTold⟩
  · intro reference commit handed
    obtain ⟨text, read⟩ := commitByReference_readFrom opened handed
    obtain ⟨object, readable⟩ := read.readable
    exact ⟨object, text, readable, read.textsTold⟩
  · intro reference id object text date resolved readable dated
    refine ⟨Commit.ofRecord root.shown (Store.recordOf id text date), ?_, rfl⟩
    rw [commitByReference_eq opened live, Store.commitByReference, resolved]
    exact Store.read_of_text readable dated
  · intro request ids range each
    have read :
        ∀ id ∈ ids, ∃ commit, store.read root.shown id = .ok commit ∧ commit.hash = id := by
      intro id member
      obtain ⟨object, text, date, readable, dated⟩ := each id member
      exact ⟨_, Store.read_of_text readable dated, rfl⟩
    obtain ⟨commits, all, hashes, -⟩ := Store.mapM_read_of_each read
    refine ⟨commits, ?_, hashes⟩
    rw [commitsForRange_eq opened live, Store.commitsForRange, range]
    exact all

end InProcess

namespace Store

/-- A commit with nothing but a name and a message. -/
def worded (name message : List UInt8) : Object :=
  .commit ⟨[], name ++ Text.utf8 " <a> 1700000000 +0000".toList, message, []⟩

/-- A commit with texts, one whose name is no UTF-8, and one whose body is none. -/
def texts : Store where
  objects := byDigit [
    ('a', worded (Text.utf8 "Ada".toList) (Text.utf8 "one\n\ntwo\n".toList)),
    ('b', worded [0xFF] (Text.utf8 "one\n\ntwo\n".toList)),
    ('c', worded (Text.utf8 "Ada".toList) (Text.utf8 "one\n\n".toList ++ [0xFF]))]
  references := [("refs/heads/main", idOf 'a'), ("refs/heads/named", idOf 'b'),
    ("refs/heads/said", idOf 'c')]
  head := .symbolic "refs/heads/main"
  remotes := []
  full := full_byDigit (by decide)

end Store

namespace InProcess

theorem texts_told_texts :
    openStore (World.ofStore .texts) "/repo" = .ok .texts ∧ ({} : Caller).cancelled = false ∧
    ∃ commit, commitByReference (World.ofStore .texts) {} "/repo" "main" = .ok commit ∧
      commit.hash = Store.idOf 'a' := by
  have opened := openStore_ofStore .texts
  have live : ({} : Caller).cancelled = false := rfl
  have told := texts_told opened live
  exact ⟨opened, live, told.2.2.1 "main" (Store.idOf 'a') _ _ _ rfl rfl rfl⟩

/-- Commits are handed out without the text that is no UTF-8. -/
theorem commitByReference_drops_texts :
    (¬ Text.IsUtf8 [0xFF] ∧ ∃ object text, Store.texts.readCommit (Store.idOf 'b') =
      .ok (object, text) ∧ text.committer.name = [0xFF]) ∧
    (∃ commit, commitByReference (World.ofStore .texts) {} "/repo" "named" = .ok commit ∧
      commit.author = " <a>") ∧
    ∃ object text, Store.texts.readCommit (Store.idOf 'c') = .ok (object, text) ∧
      Message.body text.message = [0xFF] ∧
      ∃ commit, commitByReference (World.ofStore .texts) {} "/repo" "said" = .ok commit ∧
        commit.message = "one\n" := by
  have opened := openStore_ofStore .texts
  have live : ({} : Caller).cancelled = false := rfl
  have named : Store.texts.resolve "named" = .ok (Store.idOf 'b') := rfl
  have said : Store.texts.resolve "said" = .ok (Store.idOf 'c') := rfl
  refine ⟨⟨?_, _, _, rfl, rfl⟩, ⟨_, commitByReference_of_text opened live named rfl, rfl⟩,
    _, _, rfl, rfl, _, commitByReference_of_text opened live said rfl, rfl⟩
  rintro ⟨text, encodes⟩
  cases (Text.decodeUtf8_eq_ok_iff.mpr encodes)

end InProcess

end GitHistory
