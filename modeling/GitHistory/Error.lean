import GitHistory.Text.Quoted

/-!
Everything that can go wrong, by cause, and the one place where each cause gets its words.
-/
namespace GitHistory

/-- Failures of the operating system. -/
inductive IoError where
  | notFound
  | permissionDenied
  | alreadyExists
  | notADirectory
  | nameTooLong
  | tooManyLinks
  | notExecutable
  | emptyPath
  | nulInPath
  | nulInArguments
  | other (text : String)
  deriving Repr, DecidableEq

/-- What went wrong, without a number. -/
def IoError.text : IoError → String
  | .notFound => "No such file or directory"
  | .permissionDenied => "Permission denied"
  | .alreadyExists => "File exists"
  | .notADirectory => "Not a directory"
  | .nameTooLong => "File name too long"
  | .tooManyLinks => "Too many levels of symbolic links"
  | .notExecutable => "Exec format error"
  | .emptyPath => "cannot make an empty path absolute"
  | .nulInPath => "file name contained an unexpected NUL byte"
  | .nulInArguments => "nul byte found in provided data"
  | .other text => text

/-- The number of an error that the system knows. -/
def IoError.number? : IoError → Option Nat
  | .notFound => some 2
  | .permissionDenied => some 13
  | .alreadyExists => some 17
  | .notADirectory => some 20
  | .nameTooLong => some 36
  | .tooManyLinks => some 40
  | .notExecutable => some 8
  | _ => none

def IoError.message (error : IoError) : String :=
  match error.number? with
  | some number => s!"{error.text} (os error {number})"
  | none => error.text

/-- Result codes of the object store. -/
inductive StoreCode where
  | generic
  | notFound
  | exists
  | ambiguous
  | bufferSize
  | bareRepository
  | unbornBranch
  | invalidSpec
  | authentication
  | certificate
  | peel
  | invalid
  deriving Repr, DecidableEq

/-- Name and number of a code; a generic failure has none to show. -/
def StoreCode.label? : StoreCode → Option (String × Int)
  | .generic => none
  | .notFound => some ("NotFound", -3)
  | .exists => some ("Exists", -4)
  | .ambiguous => some ("Ambiguous", -5)
  | .bufferSize => some ("BufSize", -6)
  | .bareRepository => some ("BareRepo", -8)
  | .unbornBranch => some ("UnbornBranch", -9)
  | .invalidSpec => some ("InvalidSpec", -12)
  | .authentication => some ("Auth", -16)
  | .certificate => some ("Certificate", -17)
  | .peel => some ("Peel", -19)
  | .invalid => some ("Invalid", -21)

/-- Parts of the object store that a failure may come from. -/
inductive StoreClass where
  | none
  | system
  | invalid
  | reference
  | repository
  | database
  | object
  | tag
  deriving Repr, DecidableEq

def StoreClass.label? : StoreClass → Option (String × Int)
  | .none => Option.none
  | .system => some ("Os", 2)
  | .invalid => some ("Invalid", 3)
  | .reference => some ("Reference", 4)
  | .repository => some ("Repository", 6)
  | .database => some ("Odb", 9)
  | .object => some ("Object", 11)
  | .tag => some ("Tag", 13)

/-- A failure of the object store. -/
structure StoreFault where
  code : StoreCode
  origin : StoreClass
  text : String
  deriving Repr, DecidableEq

private def labelled (title : String) : Option (String × Int) → String
  | none => ""
  | some (name, number) => s!"; {title}={name} ({number})"

def StoreFault.message (fault : StoreFault) : String :=
  fault.text ++ labelled "class" fault.origin.label? ++ labelled "code" fault.code.label?

inductive GitError where
  | io (path : String) (source : IoError)
  | init (path : String) (reason : String)
  | remote (url : String) (reason : String)
  | notARepository (path : String)
  | spawn (command : String) (source : IoError)
  | process (command : String) (code : Option Int) (stderr : String)
  | authentication (command : String) (stderr : String)
  | decode (reason : String)
  | notFound (reference : String)
  | invalidReference (reference : String)
  | cancelled
  | exhausted (consumed : Nat)
  | store (fault : StoreFault)
  | worker (panic : String)
  deriving Repr, DecidableEq

inductive ErrorKind where
  | io
  | init
  | remote
  | notARepository
  | process
  | authentication
  | decode
  | notFound
  | invalidReference
  | cancelled
  | exhausted
  deriving Repr, DecidableEq

def ErrorKind.name : ErrorKind → String
  | .io => "Io"
  | .init => "Init"
  | .remote => "Remote"
  | .notARepository => "NotARepository"
  | .process => "Process"
  | .authentication => "Authentication"
  | .decode => "Decode"
  | .notFound => "NotFound"
  | .invalidReference => "InvalidReference"
  | .cancelled => "Cancelled"
  | .exhausted => "Exhausted"

/-- The kind that a result code of the object store stands for. -/
def StoreCode.kind : StoreCode → ErrorKind
  | .authentication => .authentication
  | .certificate => .authentication
  | .notFound => .notFound
  | _ => .process

def GitError.kind : GitError → ErrorKind
  | .io .. => .io
  | .init .. => .init
  | .remote .. => .remote
  | .notARepository .. => .notARepository
  | .spawn .. => .process
  | .process .. => .process
  | .worker .. => .process
  | .authentication .. => .authentication
  | .decode .. => .decode
  | .notFound .. => .notFound
  | .invalidReference .. => .invalidReference
  | .cancelled => .cancelled
  | .exhausted .. => .exhausted
  | .store fault => fault.code.kind

/-- An exit code as messages show it; a process killed by a signal has none. -/
def exitCodeText : Option Int → String
  | some code => s!"Some({code})"
  | none => "None"

/-- How the end of a worker that panicked is told. -/
def workerText (panic : String) : String := s!"task N panicked with message {Text.quoted panic}"

def GitError.message : GitError → String
  | .io path source => s!"IO error at {path}: {source.message}"
  | .init path reason => s!"Failed to initialize repository at {path}: {reason}"
  | .remote url reason => s!"Failed to add remote {url}: {reason}"
  | .notARepository path => s!"Not a git repository: {path}"
  | .spawn command source => s!"Failed to run `{command}`: {source.message}"
  | .process command code stderr =>
    s!"`{command}` failed (exit code {exitCodeText code}): {stderr}"
  | .authentication command stderr => s!"Authentication failed for `{command}`: {stderr}"
  | .decode reason => s!"Failed to decode git output: {reason}"
  | .notFound reference => s!"No commit found for reference: {reference}"
  | .invalidReference reference => s!"Invalid reference: {reference}"
  | .cancelled => "Operation cancelled"
  | .exhausted consumed => s!"Commit iterator exhausted after {consumed} commits"
  | .store fault => s!"Git error: {fault.message}"
  | .worker panic => s!"Worker task failed: {workerText panic}"

/-- The failure underneath, where an error passes one on. -/
def GitError.source? : GitError → Option String
  | .io _ source => some source.message
  | .spawn _ source => some source.message
  | .store fault => some fault.message
  | .worker panic => some (workerText panic)
  | _ => none

/-- A sum of counts passed 2^64 - 1. -/
inductive Overflow where
  | addition
  deriving Repr, DecidableEq

def Overflow.message : Overflow → String
  | .addition => "attempt to add with overflow"

end GitHistory
