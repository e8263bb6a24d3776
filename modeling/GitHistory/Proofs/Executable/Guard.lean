import GitHistory.Executable.Operations
import GitHistory.Proofs.Executable.Plan
import GitHistory.Proofs.Revision.Range

/-! No text from outside reaches git as an option: every command that an operation runs has fixed
words at fixed places, and what stands between them does not look like an option. -/
namespace GitHistory.Executable

variable {α σ : Type}

/-- A place in a command line. -/
inductive Place where
  | fixed (word : String)
  /-- For a text made from what a caller gave. -/
  | outside

def Place.Admits : Place → String → Prop
  | .fixed word, argument => argument = word
  | .outside, argument => looksLikeOption argument = false

/-- Arguments that fill the places one by one. -/
def Fits : List Place → List String → Prop
  | [], [] => True
  | place :: places, argument :: arguments => place.Admits argument ∧ Fits places arguments
  | _, _ => False

def logLayout (root : String) (count : UInt64) : List Place :=
  [.fixed "-C", .fixed root, .fixed "log", .outside, .fixed "-n", .fixed (toString count.toNat),
    .fixed dateOption, .fixed formatOption]

def showLayout (root : String) : List Place :=
  [.fixed "-C", .fixed root, .fixed "show", .outside, .fixed dateOption, .fixed formatOption,
    .fixed "-s"]

def diffLayout (root : String) : List Place :=
  [.fixed "-C", .fixed root, .fixed "diff", .fixed "--numstat", .fixed "-z",
    .fixed "--no-renames", .outside, .outside]

def initLayout (root : String) (bare : Bool) : List Place :=
  [.fixed "-C", .fixed root, .fixed "init"] ++ if bare then [.fixed "--bare"] else []

def remoteLayout (root : String) : List Place :=
  [.fixed "-C", .fixed root, .fixed "remote", .fixed "add", .fixed "origin", .outside]

/-- The error for the first revision that looks like an option. -/
def refusal? (revisions : List String) : Option GitError :=
  (revisions.find? looksLikeOption).map .invalidReference

/-- On a host, a plan runs nothing but commands of a program that fit the layouts, and does
nothing at all if it has to be refused. -/
structure Guarded (host : Plan.Host σ) (program : String) (layouts : List (List Place))
    (refusal : Option GitError) (plan : Plan α) : Prop where
  fits : ∀ state, ∀ call ∈ plan.calls host state,
    call.program = program ∧ ∃ layout ∈ layouts, Fits layout call.arguments
  refuses : ∀ error, refusal = some error → ∀ state,
    plan.calls host state = [] ∧ plan.execute host state = (.error error, state)

theorem logArguments_eq (root : String) (request : Request) :
    logArguments root request =
      match refusal? (usedRevisions request.branchRef request.oldest request.newest) with
      | some error => .error error
      | none => .ok ["-C", root, "log",
          (RevisionRange.resolve request.branchRef request.oldest request.newest).text,
          "-n", toString request.count.toNat, dateOption, formatOption] := by
  rw [logArguments, rangeArguments_eq, refusal?]
  cases (usedRevisions request.branchRef request.oldest request.newest).find? looksLikeOption <;>
    rfl

theorem showArguments_eq (root reference : String) :
    showArguments root reference =
      match refusal? [reference] with
      | some error => .error error
      | none => .ok ["-C", root, "show", peeled reference, dateOption, formatOption, "-s"] := by
  rw [showArguments, refusal?, List.find?_singleton]
  by_cases option : looksLikeOption reference = true
  · rw [checkRevision_eq_error option, if_pos option]
    rfl
  · rw [checkRevision_eq_ok (Bool.eq_false_iff.mpr option), if_neg option]
    rfl

/-- The revisions of a query for change counts. -/
def comparedRevisions (revision : String) (other : Option String) : List String :=
  revision :: (nonEmpty? other).toList

/-- The sides of a comparison: with one revision only, its first parent and itself. -/
def comparedSides (revision : String) (other : Option String) : String × String :=
  match nonEmpty? other with
  | some other => (revision, other)
  | none => (firstParent revision, revision)

theorem sides_pass {revision : String} {other : Option String}
    (passes : ∀ used ∈ comparedRevisions revision other, looksLikeOption used = false) :
    looksLikeOption (comparedSides revision other).1 = false ∧
      looksLikeOption (comparedSides revision other).2 = false := by
  have first := passes revision (by simp [comparedRevisions])
  rw [comparedRevisions] at passes
  rw [comparedSides]
  cases given : nonEmpty? other with
  | none => exact ⟨looksLikeOption_append _ first (by decide), first⟩
  | some other => exact ⟨first, passes other (by simp [given])⟩

theorem diffArguments_eq (root revision : String) (other : Option String) :
    diffArguments root revision other =
      match refusal? (comparedRevisions revision other) with
      | some error => .error error
      | none => .ok ["-C", root, "diff", "--numstat", "-z", "--no-renames",
          (comparedSides revision other).1, (comparedSides revision other).2] := by
  rw [diffArguments, refusal?, comparedRevisions, comparedSides]
  by_cases option : looksLikeOption revision = true
  · rw [checkRevision_eq_error option, List.find?_cons_of_pos option]
    rfl
  · rw [checkRevision_eq_ok (Bool.eq_false_iff.mpr option), List.find?_cons_of_neg option]
    cases nonEmpty? other with
    | none => rfl
    | some other =>
      by_cases option : looksLikeOption other = true
      · simp [checkRevision_eq_error option, option]
        rfl
      · have passes := Bool.eq_false_iff.mpr option
        simp [checkRevision_eq_ok passes, passes]
        rfl

theorem refusal?_eq_none {revisions : List String} (passes : refusal? revisions = none) :
    ∀ revision ∈ revisions, looksLikeOption revision = false := by
  simpa [refusal?] using passes

theorem runs_query {program : String} {arguments : Except GitError (List String)}
    {decode : Except GitError String → Except GitError α} {call : Invocation}
    (runs : (query program arguments decode).Runs call) :
    ∃ words, arguments = .ok words ∧ call = ⟨program, words⟩ := by
  cases arguments with
  | error error => cases runs
  | ok words =>
    cases runs with
    | here next => exact ⟨words, rfl, rfl⟩
    | afterRun other next reply later => cases later

/-- A query runs one command at most, and only if its arguments pass. -/
theorem guarded_query (host : Plan.Host σ) {program : String} {layout : List Place}
    {refusal : Option GitError} {words : List String} {arguments : Except GitError (List String)}
    (checked : arguments = match refusal with | some error => .error error | none => .ok words)
    (fits : refusal = none → Fits layout words)
    (decode : Except GitError String → Except GitError α) :
    Guarded host program [layout] refusal (query program arguments decode) := by
  constructor
  · intro state call member
    obtain ⟨given, same, rfl⟩ := runs_query (Plan.runs_of_mem_calls member)
    cases refusal with
    | some error => simp [same] at checked
    | none =>
      obtain rfl : given = words := Except.ok.inj (same.symm.trans checked)
      exact ⟨rfl, layout, by simp, fits rfl⟩
  · rintro error rfl state
    simp only [checked, query]
    exact ⟨rfl, rfl⟩

theorem runs_init {program root url : String} {bare : Bool} {call : Invocation}
    (runs : (init program root url bare).Runs call) :
    looksLikeOption url = false ∧
      (call = ⟨program, initArguments root bare⟩ ∨ call = ⟨program, remoteArguments root url⟩) := by
  rw [init] at runs
  split at runs
  · cases runs
  · rename_i option
    refine ⟨Bool.eq_false_iff.mpr option, ?_⟩
    cases runs with
    | afterDirectories path next made later =>
      cases made with
      | error source => cases later
      | ok _ =>
        cases later with
        | here next => exact .inl rfl
        | afterRun other next reply later =>
          dsimp only at later
          split at later
          · cases later
          · cases later with
            | here next => exact .inr rfl
            | afterRun other next reply later =>
              dsimp only at later
              split at later <;> cases later

theorem guarded_init (host : Plan.Host σ) (program root url : String) (bare : Bool) :
    Guarded host program [initLayout root bare, remoteLayout root]
      (if looksLikeOption url then some (.remote url "URL must not start with '-'") else none)
      (init program root url bare) := by
  constructor
  · intro state call member
    obtain ⟨passes, rfl | rfl⟩ := runs_init (Plan.runs_of_mem_calls member)
    · refine ⟨rfl, initLayout root bare, by simp, ?_⟩
      cases bare <;> simp [initArguments, initLayout, Fits, Place.Admits]
    · refine ⟨rfl, remoteLayout root, by simp, ?_⟩
      simp [remoteArguments, remoteLayout, Fits, Place.Admits, passes]
  · intro error refused state
    split at refused
    · rename_i option
      obtain rfl := Option.some.inj refused
      rw [init, if_pos option]
      exact ⟨rfl, rfl⟩
    · cases refused

/-- The operations of the executable backend, whatever they are given and whoever runs their
commands. -/
theorem operations_guarded (host : Plan.Host σ) (program root : String) :
    (∀ request : Request, Guarded host program [logLayout root request.count]
      (refusal? (usedRevisions request.branchRef request.oldest request.newest))
      (commitsForRange program root request)) ∧
    (∀ reference, Guarded host program [showLayout root] (refusal? [reference])
      (commitByReference program root reference)) ∧
    (∀ revision other, Guarded host program [diffLayout root]
      (refusal? (comparedRevisions revision other)) (diffStats program root revision other)) ∧
    (∀ url bare, Guarded host program [initLayout root bare, remoteLayout root]
      (if looksLikeOption url then some (.remote url "URL must not start with '-'") else none)
      (init program root url bare)) := by
  refine ⟨fun request => ?_, fun reference => ?_, fun revision other => ?_, fun url bare => ?_⟩
  · refine guarded_query host (logArguments_eq root request) (fun passes => ?_) _
    have range : looksLikeOption
        (RevisionRange.resolve request.branchRef request.oldest request.newest).text = false :=
      looksLikeOption_text (by rw [revisions_resolve]; exact refusal?_eq_none passes)
    simp [logLayout, Fits, Place.Admits, range]
  · refine guarded_query host (showArguments_eq root reference) (fun passes => ?_) _
    have named := refusal?_eq_none passes reference (by simp)
    have commit : looksLikeOption (peeled reference) = false :=
      looksLikeOption_append _ named (by decide)
    simp [showLayout, Fits, Place.Admits, commit]
  · refine guarded_query host (diffArguments_eq root revision other) (fun passes => ?_) _
    obtain ⟨old, new⟩ := sides_pass (refusal?_eq_none passes)
    simp [diffLayout, Fits, Place.Admits, old, new]
  · exact guarded_init host program root url bare

end GitHistory.Executable
