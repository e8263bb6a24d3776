import GitHistory.CommandLine.Outcome
import GitHistory.Proofs.Checkout
import GitHistory.Proofs.Commit.Batch
import GitHistory.Proofs.Commit.Printed
import GitHistory.Proofs.Commit.Verbatim
import GitHistory.Proofs.FileStats.Printed
import GitHistory.Proofs.FileStats.Totals
import GitHistory.Proofs.Manager.Replied

/-! What the commands print is what the backend gave: read as JSON, the text on standard output is
the commits, the commit, or the statistics with their totals. -/
namespace GitHistory.CommandLine

open Json (Reader Gap Spacing Value Document Document.text? printedItems printedMembers)
open Json.Reader

/-! A reader for what is told of statistics. -/

/-- What is told of the changes between two revisions. -/
structure StatsReport where
  commit : String
  against : Option String
  additions : UInt64
  deletions : UInt64
  binary : List String
  files : FileStats

structure ReportFields where
  commit : Option String := none
  against : Option (Option String) := none
  additions : Option UInt64 := none
  deletions : Option UInt64 := none
  binary : Option (List String) := none
  files : Option FileStats := none

def ReportFields.step (given : ReportFields) (key : String) : Reader ReportFields := do
  match key with
  | "commit" => pure { given with commit := ← field key given.commit (string .string) }
  | "against" => pure {
      given with against := ← field key given.against (optional (string .string)) }
  | "additions" => pure { given with additions := ← field key given.additions (count .count) }
  | "deletions" => pure { given with deletions := ← field key given.deletions (count .count) }
  | "binary" => pure { given with binary := ← field key given.binary (listOf (string .string)) }
  | "files" => pure { given with files := ← field key given.files FileStats.reader }
  | _ => do
    unknownField
    pure given

def ReportFields.finish (given : ReportFields) : Reader StatsReport := do
  pure {
    commit := ← Json.Reader.required "commit" given.commit
    against := ← Json.Reader.required "against" given.against
    additions := ← Json.Reader.required "additions" given.additions
    deletions := ← Json.Reader.required "deletions" given.deletions
    binary := ← Json.Reader.required "binary" given.binary
    files := ← Json.Reader.required "files" given.files }

/-- Reads an object that has each of the six members once, beside any others. -/
def StatsReport.reader : Reader StatsReport := do
  match ← valueToken with
  | '{' => do
    advance
    ReportFields.finish (← members stringBody ReportFields.step {})
  | _ => wrongType .object

variable (spacing : Spacing) (level : Nat)

theorem takes_texts (texts : List String) :
    Takes (listOf (string .string)) ((Value.list (texts.map .string)).document spacing level)
      texts := by
  refine takes_listOf (reads_string .string) ?_
  induction texts with
  | nil => rfl
  | cons text rest ih =>
    have first : ((Value.string text).document spacing (level + 1)).text? = some text := by
      simp [Value.document, Document.text?]
    simp [printedItems, List.mapM_cons, first, ih]

/-- The members that are printed, in their order. -/
def StatsReport.members (report : StatsReport) : List (String × Value) := [
  ("additions", .number report.additions.toNat),
  ("against", .ofOptional report.against),
  ("binary", .list (report.binary.map .string)),
  ("commit", .string report.commit),
  ("deletions", .number report.deletions.toNat),
  ("files", report.files.toSortedJson)]

theorem ReportFields.folds (report : StatsReport) :
    Folds ReportFields.step {} (printedMembers spacing level report.members)
      ⟨some report.commit, some report.against, some report.additions, some report.deletions,
        some report.binary, some report.files⟩ := by
  refine .printed ((takes_count .count report.additions).steps
    (fun (given : ReportFields) value => { given with additions := value }) (by simp [step])) ?_
  refine .printed ((takes_ofOptional spacing (level + 1) report.against).steps
    (fun given value => { given with against := value }) (by simp [step])) ?_
  refine .printed ((takes_texts spacing (level + 1) report.binary).steps
    (fun given value => { given with binary := value }) (by simp [step])) ?_
  refine .printed ((takes_string .string report.commit).steps
    (fun given value => { given with commit := value }) (by simp [step])) ?_
  refine .printed ((takes_count .count report.deletions).steps
    (fun given value => { given with deletions := value }) (by simp [step])) ?_
  exact .printed ((FileStats.takes_printed spacing (level + 1) report.files).steps
    (fun given value => { given with files := value }) (by simp [step])) .none

/-- What is told of statistics is read back from the object that is printed for it. -/
theorem takes_report (report : StatsReport) :
    Takes StatsReport.reader ((Value.object report.members).document spacing level) report := by
  intro gap rest _
  have read := (ReportFields.folds spacing level report).members Gap.none rest
  simp only [Gap.none_chars, List.nil_append] at read
  rw [StatsReport.reader, accept?_bind, accept?_valueToken]
  simp [Value.document, Document.written, read, ReportFields.finish]

/-! What is printed. -/

/-- The text that a command prints on standard output, if it comes to a result. -/
def Command.printed? (command : Command) (manager : Manager) (caller : Caller) (repo : String)
    (stage : Stage) : Option String :=
  (Outcome.ofResult (command.run manager caller repo stage).1).stdout?

/-- A text as it is printed is read as what its value is taken for. -/
theorem parse_printed {α : Type} {read : Reader α} {value : Value} {result : α}
    (takes : Takes read (value.document Json.laidOutSpacing 0) result) :
    read.parse (value.renderLaidOut ++ "\n").toList = .ok result := by
  rw [String.toList_append, Json.renderLaidOut_eq]
  exact takes.parse ⟨['\n'], by simp [Json.isSpace]⟩

/-- A report that tells of statistics just what they hold. -/
structure Reports (report : StatsReport) (reference : String) (against : Option String)
    (stats : FileStats) : Prop where
  commit : report.commit = reference
  against : report.against = against
  files : report.files = stats
  additions : report.additions.toNat = stats.addedLines
  deletions : report.deletions.toNat = stats.deletedLines
  ascending : report.binary.Pairwise PathBefore
  binary : ∀ path, path ∈ report.binary ↔ stats.get? path = some .binary

/-- What each command prints can be read as just what the backend returned. -/
structure PrintsReturned (manager : Manager) (caller : Caller) (repo : String) (stage : Stage) :
    Prop where
  ofLog : ∀ branch oldest newest count commits after,
    manager.log caller repo (logRequest branch oldest newest count) stage = (.ok commits, after) →
    ∃ text,
      (Command.log branch oldest newest count).printed? manager caller repo stage = some text ∧
      (listOf Commit.reader).parse text.toList = .ok commits
  ofShow : ∀ reference commit after,
    manager.commitByReference caller repo reference stage = (.ok commit, after) →
    ∃ text,
      (Command.show reference).printed? manager caller repo stage = some text ∧
      Commit.reader.parse text.toList = .ok commit
  ofStats : ∀ reference against stats after,
    manager.diffStats caller repo reference against stage = (.ok stats, after) →
    stats.addedLines < UInt64.size → stats.deletedLines < UInt64.size →
    ∃ text report,
      (Command.stats reference against).printed? manager caller repo stage = some text ∧
      StatsReport.reader.parse text.toList = .ok report ∧ Reports report reference against stats

theorem takes_commits (commits : List Commit) :
    Takes (listOf Commit.reader) ((commitsOutput commits).document spacing level) commits :=
  takes_listOf reads_commit (mapM_commit?_printed spacing level commits)

theorem takes_commit (commit : Commit) :
    Takes Commit.reader (commit.toSortedJson.document spacing level) commit :=
  reads_commit.takes (commit?_printed spacing level commit)

/-- Statistics whose totals are counts are told of by a report that is true to them. -/
theorem exists_report {stats : FileStats} (additions : stats.addedLines < UInt64.size)
    (deletions : stats.deletedLines < UInt64.size) (reference : String) (against : Option String) :
    ∃ report : StatsReport, statsOutput reference against stats = .ok (.object report.members) ∧
      Reports report reference against stats := by
  obtain ⟨added, totalAdded, sumAdded⟩ := FileStats.totalAdditions_eq_ok additions
  obtain ⟨deleted, totalDeleted, sumDeleted⟩ := FileStats.totalDeletions_eq_ok deletions
  refine ⟨⟨reference, against, added, deleted, stats.binaryFiles, stats⟩, ?_, rfl, rfl, rfl,
    sumAdded, sumDeleted, stats.binaryFiles_ascending, stats.mem_binaryFiles_iff⟩
  rw [statsOutput, totalAdded, totalDeleted]
  rfl

section
variable {manager : Manager} {caller : Caller} {repo : String} {stage after : Stage}

theorem printed?_log {branch : String} {oldest newest : Option String} {count : UInt64}
    {commits : List Commit} (returned : manager.log caller repo
      (logRequest branch oldest newest count) stage = (.ok commits, after)) :
    (Command.log branch oldest newest count).printed? manager caller repo stage =
      some ((commitsOutput commits).renderLaidOut ++ "\n") := by
  have drained : (CommitBatch.ofCommits commits).drain = .ok commits := CommitBatch.drain_eq _
  have ran : ((Command.log branch oldest newest count).run manager caller repo stage).1 =
      .ok (commitsOutput commits) := by
    simp only [Command.run, bind, StateT.bind, returned, Except.bind, drained]
    rfl
  rw [Command.printed?, ran]
  rfl

theorem printed?_show {reference : String} {commit : Commit}
    (returned : manager.commitByReference caller repo reference stage = (.ok commit, after)) :
    (Command.show reference).printed? manager caller repo stage =
      some (commit.toSortedJson.renderLaidOut ++ "\n") := by
  have ran : ((Command.show reference).run manager caller repo stage).1 =
      .ok commit.toSortedJson := by
    simp only [Command.run, bind, StateT.bind, returned]
    rfl
  rw [Command.printed?, ran]
  rfl

/-- What is told of statistics that are returned; that their totals overflow is a crash. -/
theorem run_stats {reference : String} {against : Option String} {stats : FileStats}
    (returned : manager.diffStats caller repo reference against stage = (.ok stats, after)) :
    ((Command.stats reference against).run manager caller repo stage).1 =
      (statsOutput reference against stats).mapError .crash := by
  simp only [Command.run, bind, StateT.bind, returned]
  cases statsOutput reference against stats <;> rfl

theorem printed?_stats {reference : String} {against : Option String} {stats : FileStats}
    {value : Value}
    (returned : manager.diffStats caller repo reference against stage = (.ok stats, after))
    (told : statsOutput reference against stats = .ok value) :
    (Command.stats reference against).printed? manager caller repo stage =
      some (value.renderLaidOut ++ "\n") := by
  rw [Command.printed?, run_stats returned, told]
  rfl

end

theorem prints_returned (manager : Manager) (caller : Caller) (repo : String) (stage : Stage) :
    PrintsReturned manager caller repo stage := by
  constructor
  · intro branch oldest newest count commits after returned
    exact ⟨_, printed?_log returned, parse_printed (takes_commits _ 0 commits)⟩
  · intro reference commit after returned
    exact ⟨_, printed?_show returned, parse_printed (takes_commit _ 0 commit)⟩
  · intro reference against stats after returned additions deletions
    obtain ⟨report, told, reports⟩ := exists_report additions deletions reference against
    exact ⟨_, report, printed?_stats returned told, parse_printed (takes_report _ 0 report),
      reports⟩

/-- A stage with a checkout, on which the next command prints a text. -/
def repliedStage (stdout : String) : Stage where
  world := { tree := workTree, current := ["work"], environment := [], stores := [] }
  replies := [.output (.ok stdout)]

/-- A record without anything to escape, and the commit it tells of. -/
def sampleRecord : LogRecord :=
  ⟨"1a2b3c4d", "Ann", "ann@example.com", "2024-01-02T03:04:05+00:00", "fix", "why"⟩

theorem decodeLog_sampleRecord (root : String) :
    decodeLog (printedLog [sampleRecord]) root = .ok [.ofRecord root sampleRecord] := by
  have plain : ∀ entry ∈ [sampleRecord], entry.Plain := by decide
  exact (decodeLog_printed_plain plain root _).mpr ⟨by decide, rfl⟩

/-- The commit that git printed, printed for the two commands that read commits, and the counts that
it printed with their totals. -/
theorem prints_returned_replied :
    (∃ text, (Command.log "main" none none 5).printed? (.executable "git" Stage.rehearsalHost) {}
        ".//repo/./" (repliedStage (printedLog [sampleRecord])) = some text ∧
      (listOf Commit.reader).parse text.toList = .ok [.ofRecord "/work/repo/" sampleRecord]) ∧
    (∃ text, (Command.show "main").printed? (.executable "git" Stage.rehearsalHost) {} "/repo"
        (repliedStage (printedLog [sampleRecord])) = some text ∧
      Commit.reader.parse text.toList = .ok (.ofRecord "/repo" sampleRecord)) ∧
    ∃ text report, (Command.stats "main" none).printed? (.executable "git" Stage.rehearsalHost) {}
        "/repo" (repliedStage "3\t1\ta\x00-\t-\tb\x00") = some text ∧
      StatsReport.reader.parse text.toList = .ok report ∧
      Reports report "main" none (.ofList [("a", .text 3 1), ("b", .binary)]) := by
  have prepared : ∀ stdout, (repliedStage stdout).replies.head? = some (.output (.ok stdout)) :=
    fun _ => rfl
  obtain ⟨_, logReply⟩ := run_rehearsal (prepared (printedLog [sampleRecord])) _
  obtain ⟨_, showReply⟩ := run_rehearsal (prepared (printedLog [sampleRecord])) _
  obtain ⟨_, statsReply⟩ := run_rehearsal (prepared "3\t1\ta\x00-\t-\tb\x00") _
  have counted : Numstat.parseFields "3\t1\ta\x00-\t-\tb\x00" =
      .ok (.ofList [("a", .text 3 1), ("b", .binary)]) := by decide +kernel
  refine ⟨?_, ?_, ?_⟩
  · have printed := prints_returned (.executable "git" Stage.rehearsalHost) {} ".//repo/./"
      (repliedStage (printedLog [sampleRecord]))
    exact printed.ofLog _ _ _ _ _ _ (log_of_reply "git" openCheckout_workTree rfl logReply rfl
      (decodeLog_sampleRecord "/work/repo/"))
  · have printed := prints_returned (.executable "git" Stage.rehearsalHost) {} "/repo"
      (repliedStage (printedLog [sampleRecord]))
    exact printed.ofShow _ _ _ (commitByReference_of_reply "git" "/repo" rfl showReply rfl
      (decodeLog_sampleRecord "/repo"))
  · have printed := prints_returned (.executable "git" Stage.rehearsalHost) {} "/repo"
      (repliedStage "3\t1\ta\x00-\t-\tb\x00")
    exact printed.ofStats _ _ _ _ (diffStats_of_reply "git" "/repo" rfl statsReply rfl counted)
      (by decide +kernel) (by decide +kernel)

end GitHistory.CommandLine
