import GitHistory.Shell.Token

/-!
Commands out of tokens. A script is understood as a whole or not at all.
-/
namespace GitHistory.Shell

/-- The keyword that a token is, if it could be one. -/
def Token.keyword? : Token → Option String
  | .word _ [.text content false] => some content
  | _ => none

def isSeparator : Token → Bool
  | .operator text => text == ";" || text == "\n" || text == "&"
  | _ => false

def isLineBreak : Token → Bool
  | .operator text => text == "\n"
  | _ => false

/-- Whether a token ends the list of commands before it. -/
def closesList (token : Token) : Bool :=
  match token with
  | .operator text => text == ";;" || text == ")"
  | _ =>
    match token.keyword? with
    | some word => ["done", "esac", "fi", "then", "else", "elif", "do", "\x7d"].contains word
    | none => false

/-- Takes a keyword off the front. -/
def expect (keyword : String) : List Token → Option (List Token)
  | token :: rest => if token.keyword? = some keyword then some rest else none
  | [] => none

/-- The words and redirections of a simple command. -/
def simpleParts : List Token → List Word × List Redirect × List Token
  | .word _ word :: rest =>
    let (words, redirects, rest) := simpleParts rest
    (word :: words, redirects, rest)
  | .redirect redirect :: rest =>
    let (words, redirects, rest) := simpleParts rest
    (words, redirect :: redirects, rest)
  | rest => ([], [], rest)

/-- The redirections that stand here. -/
def redirectsHere : List Token → List Redirect × List Token
  | .redirect redirect :: rest =>
    let (redirects, rest) := redirectsHere rest
    (redirect :: redirects, rest)
  | rest => ([], rest)

/-- The patterns of a branch, up to and with its closing parenthesis. -/
def patterns : List Token → Option (List Word × List Token)
  | .word _ word :: .operator "|" :: rest =>
    (patterns rest).map fun (words, rest) => (word :: words, rest)
  | .word _ word :: .operator ")" :: rest => some ([word], rest)
  | _ => none

private def redirected (command : Command) (tokens : List Token) : Command × List Token :=
  match redirectsHere tokens with
  | ([], rest) => (command, rest)
  | (redirects, rest) => (.redirected command redirects, rest)

mutual

/-- Commands up to a token that closes the list, which stays. -/
def readList : Nat → List Token → Option (List Command × List Token)
  | 0, _ => none
  | turns + 1, tokens =>
    match tokens.dropWhile isSeparator with
    | [] => some ([], [])
    | token :: rest =>
      if closesList token then some ([], token :: rest)
      else do
        let (command, rest) ← readChain turns (token :: rest)
        let ended :=
          match rest with
          | [] => true
          | next :: _ => isSeparator next || closesList next
        if !ended then none
        let (more, rest) ← readList turns rest
        pure (command :: more, rest)

/-- Commands joined by `&&` and `||`, which bind to the left. -/
def readChain : Nat → List Token → Option (Command × List Token)
  | 0, _ => none
  | turns + 1, tokens => do
    let (first, rest) ← readPipeline turns tokens
    readChainFrom turns first rest

def readChainFrom : Nat → Command → List Token → Option (Command × List Token)
  | 0, _, _ => none
  | turns + 1, first, tokens =>
    match tokens with
    | .operator "&&" :: rest => do
      let (second, rest) ← readPipeline turns (rest.dropWhile isLineBreak)
      readChainFrom turns (.both first second) rest
    | .operator "||" :: rest => do
      let (second, rest) ← readPipeline turns (rest.dropWhile isLineBreak)
      readChainFrom turns (.either first second) rest
    | rest => some (first, rest)

/-- Commands of which each reads what the one before it wrote. -/
def readPipeline : Nat → List Token → Option (Command × List Token)
  | 0, _ => none
  | turns + 1, tokens => do
    let (negated, tokens) :=
      match expect "!" tokens with
      | some rest => (true, rest)
      | none => (false, tokens)
    let (first, rest) ← readCommand turns tokens
    let (command, rest) ← readPipelineFrom turns first rest
    pure (if negated then .negation command else command, rest)

def readPipelineFrom : Nat → Command → List Token → Option (Command × List Token)
  | 0, _, _ => none
  | turns + 1, first, tokens =>
    match tokens with
    | .operator "|" :: rest => do
      let (second, rest) ← readCommand turns (rest.dropWhile isLineBreak)
      readPipelineFrom turns (.pipe first second) rest
    | rest => some (first, rest)

def readCommand : Nat → List Token → Option (Command × List Token)
  | 0, _ => none
  | turns + 1, tokens =>
    match tokens with
    | [] => none
    | .operator "(" :: rest => do
      let (body, rest) ← readList turns rest
      match rest with
      | .operator ")" :: rest => pure (redirected (.subshell body) rest)
      | _ => none
    | token :: rest =>
      match token.keyword? with
      | some "\x7b" => do
        let (body, rest) ← readList turns rest
        let rest ← expect "\x7d" rest
        pure (redirected (.group body) rest)
      | some "for" => do
        let (command, rest) ← readRepeated turns rest
        pure (redirected command rest)
      | some "while" => do
        let (command, rest) ← readLoop turns true rest
        pure (redirected command rest)
      | some "until" => do
        let (command, rest) ← readLoop turns false rest
        pure (redirected command rest)
      | some "case" => do
        let (command, rest) ← readChoice turns rest
        pure (redirected command rest)
      | some "if" => do
        let (command, rest) ← readCondition turns rest
        pure (redirected command rest)
      | _ =>
        if closesList token then none
        else
          match simpleParts (token :: rest) with
          | ([], [], _) => none
          | (words, [], rest) => some (.simple (lineOf token) words, rest)
          | (words, redirects, rest) =>
            some (.redirected (.simple (lineOf token) words) redirects, rest)
where
  lineOf : Token → Nat
    | .word line _ => line
    | _ => 1

def readRepeated : Nat → List Token → Option (Command × List Token)
  | 0, _ => none
  | turns + 1, tokens => do
    let (name, rest) ←
      match tokens with
      | token :: rest => token.keyword?.map fun name => (name, rest)
      | [] => none
    let (words, rest) ←
      match expect "in" rest with
      | some rest =>
        match simpleParts rest with
        | (words, [], rest) => some (words, rest)
        | _ => none
      | none => some ([[.parameter "@" none true]], rest)
    let rest ← expect "do" (rest.dropWhile isSeparator)
    let (body, rest) ← readList turns rest
    let rest ← expect "done" rest
    pure (.repeated name words body, rest)

def readLoop : Nat → Bool → List Token → Option (Command × List Token)
  | 0, _, _ => none
  | turns + 1, goesOn, tokens => do
    let (test, rest) ← readList turns tokens
    let rest ← expect "do" rest
    let (body, rest) ← readList turns rest
    let rest ← expect "done" rest
    pure (.loop goesOn test body, rest)

def readChoice : Nat → List Token → Option (Command × List Token)
  | 0, _ => none
  | turns + 1, tokens => do
    let (subject, rest) ←
      match tokens with
      | .word _ subject :: rest => some (subject, rest)
      | _ => none
    let rest ← expect "in" (rest.dropWhile isLineBreak)
    let (branches, rest) ← readBranches turns rest
    pure (.choice subject branches, rest)

def readBranches : Nat → List Token → Option (List (List Word × List Command) × List Token)
  | 0, _ => none
  | turns + 1, tokens =>
    match tokens.dropWhile isLineBreak with
    | [] => none
    | token :: rest =>
      if token.keyword? = some "esac" then some ([], rest)
      else do
        let (words, rest) ←
          match token with
          | .operator "(" => patterns rest
          | _ => patterns (token :: rest)
        let (body, rest) ← readList turns rest
        match rest with
        | .operator ";;" :: rest => do
          let (branches, rest) ← readBranches turns rest
          pure ((words, body) :: branches, rest)
        | rest => do
          let rest ← expect "esac" rest
          pure ([(words, body)], rest)

def readCondition : Nat → List Token → Option (Command × List Token)
  | 0, _ => none
  | turns + 1, tokens => do
    let (test, rest) ← readList turns tokens
    let rest ← expect "then" rest
    let (yes, rest) ← readList turns rest
    match rest with
    | [] => none
    | token :: rest =>
      match token.keyword? with
      | some "fi" => pure (.condition test yes [], rest)
      | some "else" => do
        let (no, rest) ← readList turns rest
        let rest ← expect "fi" rest
        pure (.condition test yes no, rest)
      | some "elif" => do
        let (no, rest) ← readCondition turns rest
        pure (.condition test yes [no], rest)
      | _ => none

end

/-- The commands of a script. -/
def readScript (script : String) : Option (List Command) := do
  let tokens ← tokens script
  let (commands, rest) ← readList (6 * tokens.length + 6) tokens
  if rest.isEmpty then some commands else none

end GitHistory.Shell
