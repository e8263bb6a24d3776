import GitHistory.CommandLine.Parameter

/-!
What is shown instead of a result: help, the version, or a hint after a misuse.
-/
namespace GitHistory.CommandLine

/-- How the program is called. -/
def helpText : String :=
  "Usage: gitsift [OPTIONS] [COMMAND]\n\n" ++
  "Commands:\n" ++
  "  init <DIR> <REMOTE_URL> [--bare]\n" ++
  "  log [-b <BRANCH>] [--from <HASH>] [--to <HASH>] [-n <COUNT>]\n" ++
  "  show <REFERENCE>\n" ++
  "  stats <REFERENCE> [--against <REVISION>]\n\n" ++
  "Options:\n" ++
  "  -r, --repo <PATH>\n" ++
  "  --backend <cli|libgit2>\n" ++
  "  --git-binary <PROGRAM>\n" ++
  "  --askpass <PATH>\n" ++
  "  --username <NAME>\n" ++
  "  --password <PASSWORD>\n" ++
  "  --timeout-secs <SECONDS>\n" ++
  "  -v, --verbose\n" ++
  "  -q, --quiet\n" ++
  "  -h, --help\n" ++
  "  -V, --version\n"

def versionText : String := "gitsift 0.1.0\n"

/-- What is wrong with a command line, in words. -/
def Usage.message : Usage → String
  | .displayHelp => helpText
  | .displayVersion => versionText
  | .unknownArgument => "unexpected argument found"
  | .invalidSubcommand => "unrecognized subcommand"
  | .invalidValue => "a value is required"
  | .valueValidation => "invalid value"
  | .argumentConflict => "an argument cannot be used multiple times"
  | .tooManyValues => "unexpected value found; no more were expected"
  | .missingRequiredArgument => "required arguments were not provided"

end GitHistory.CommandLine
