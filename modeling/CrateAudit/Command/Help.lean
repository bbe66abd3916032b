import CrateAudit.Command.Run

namespace CrateAudit.Command

def helpText : String := "\n".intercalate [
  "usage: unsafe-ast [-h] [--version] [-v] <command> ...",
  "",
  "Summarise every unsafe operation of a type-checked crate as a",
  "nested JSON record, for corpus-wide auditing.",
  "",
  "commands:",
  "  analyze [-f FORMAT] [-o FILE] [--out-dir DIR] [--snippet-length N]",
  "          [--record-all-calls] [--derive NAME] DUMP [DUMP ...]",
  "                      Emit unsafe ASTs for tree dumps.",
  "  decode [--indent INDENT] RECORDS",
  "                      Summarise emitted records.",
  "",
  "options:",
  "  -h, --help          show this help message and exit",
  "  --version           show program's version number and exit",
  "  -v, --verbose       Increase verbosity (-v info, -vv debug).",
  "  -f, --format        Dump format, json or sexp (default: by file suffix).",
  "  -o, --output        Record sink (omit for stderr, \"-\" for stdout).",
  "  --out-dir           The host build's output directory; 'deps' suppresses emission.",
  "  --snippet-length    Maximum snippet length (default: 40).",
  "  --record-all-calls  Record every call site, not only unsafe or foreign ones.",
  "  --derive            Additional derivable trait name (repeatable).",
  "  --indent            JSON indent.",
  ""]

def causeText : Log.Cause → String
  | .system => "the operating system refused"
  | .record e => e.message

def logLine (e : Log.Entry) : String :=
  "[" ++ e.level.text ++ "] " ++ e.speaker.text ++ ": " ++ e.message ++
    (e.cause.map causeText).getD ""

def failureText : Failure → String
  | .reported d => d.text
  | .unusableName => "a list or an object where a name belongs"
  | .raised .noKey => "a field that is not there"
  | .raised .wrongType => "a value of another type"
  | .raised .badValue => "a value out of range"
  | .raised .noFields => "fields of what is no object"
  | .raised .overflow => "an infinite number where an integer belongs"
  | .longInteger => "an integer of too many digits"
  | .badPath => "a path with a null character"
  | .record e => e.message
  | .undecodable => "a file that is not UTF-8"
  | .system => "the operating system refused"
  | .bareOption => "an option without a value"
  | .noHome => "the home of an unknown user"
  | .indentRange => "an indentation out of range"
  | .outOfMemory => "out of memory"

end CrateAudit.Command
