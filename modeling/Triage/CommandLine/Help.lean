/-
What is said when a command line is not carried out.
-/
import Triage.CommandLine.Grammar

namespace Triage.CommandLine

/-- The name and the version of the program. -/
def versionText : String :=
  "triage 0.1.0"

/-- The commands and their options. -/
def helpText : String :=
  "\n".intercalate
    ["Train and inspect ad and topic classifiers for short messages",
     "",
     "Usage: triage [OPTIONS] <COMMAND>",
     "",
     "Commands:",
     "  train      -d CSV -o DIR [-t ad|topic|all] [-c FILE] [--seed N] [--epochs N]",
     "  normalize  TEXT...",
     "  predict    -b DIR [-t ad|topic] [--threshold X] TEXT...",
     "  inspect    -b DIR [-t ad|topic]",
     "  help       [COMMAND]",
     "",
     "Options:",
     "  -v, --verbose          say more",
     "  -q, --quiet            say less",
     "  -f, --format <FORMAT>  human or json",
     "      --pretty           spread JSON over lines",
     "  -h, --help             show this",
     "  -V, --version          show the version"]

/-- What is said about a refusal. -/
def Refusal.message : Refusal → String
  | .help | .nothing => helpText
  | .version => versionText
  | .missingCommand => "error: a command is required"
  | .unknownCommand => "error: unrecognized command"
  | .unknownArgument => "error: unexpected argument found"
  | .missingArgument => "error: a required argument was not provided"
  | .value => "error: an option lacks its value or has one that is not possible"
  | .malformedValue => "error: invalid value for an option"
  | .needlessValue => "error: a value was given to an option that takes none"
  | .repeated => "error: an option cannot be used multiple times"

end Triage.CommandLine
