import PackageGate.CommandLine.Options
import PackageGate.Gate.Outcome
import PackageGate.Text.Escape

/-!
# What the user sees

Everything goes to standard error, so that standard output is the package
manager's alone. Only help and version go to standard output, where they are all
that is asked for.

- `Console.notice`, `Console.prompt`, `Console.event`: what a run tells and asks.
- `Console.warning`: what is said of an unknown field of a configuration file.
- `Console.failure`: what is said of a run that fails: its causes, outermost first.
- `Console.refusal`: what is said of a refused command line.
- `Console.firstLine`: the answer in what is typed.
-/

namespace PackageGate.Console

/-- A text as a line. -/
def line (text : String) : String := text ++ "\n"

/-- A notice. Progress is only shown on a terminal. -/
def notice : Notice → String
  | .report text => line text
  | .error text => line text
  | .completion text => line "" ++ line text
  | .track _ => ""
  | .stopTracking => ""

/-- A text in a style of the terminal. -/
def styled (on off text : String) : String :=
  "\x1b[" ++ on ++ "m" ++ text ++ "\x1b[" ++ off ++ "m"

/-- A text in bold. -/
def bold (text : String) : String := styled "1" "0" text

/-- A text in red. -/
def red (text : String) : String := styled "31" "39" text

/-- A text in yellow. -/
def yellow (text : String) : String := styled "33" "39" text

/-- The question whether flagged packages are to be installed. -/
def prompt (flagged : List Finding) : String :=
  line (red (bold s!"⚠️  {flagged.length} package(s) flagged as malicious:")) ++
    String.join (flagged.map fun f => line s!"   - {yellow f.key}: {f.summary}") ++
    "Install anyway? [y/N] "

/-- What a run does, as far as the user sees it. -/
def event : Gate.Event → String
  | .told n => notice n
  | .asked flagged => prompt flagged
  | .lookedUp _ => ""
  | .started _ _ => ""

/-- A warning about an unknown field. -/
def warning (field : String) : String :=
  line s!"⚠️  Warning: Unknown config field '{field}' will be ignored."

/-- A failure with its causes. -/
def failure (e : Failure) : String :=
  line "\n❌ An error occurred:\n" ++
    (match e.messages with
      | [] => ""
      | outer :: causes =>
        line outer ++ String.join (causes.map fun cause => line s!"\nCaused by: {cause}")) ++
    line ""

/-- What is said of a refused command line. It is styled for a terminal and shown without the
styles, and so without escape sequences that the user has given. -/
def refusal (why : CommandLine.Refusal) : String :=
  let given := styled "33" "0"
  let known := styled "1" "0"
  let error := styled "1" "0" (styled "31" "0" "error:")
  let help := known "--help"
  Text.Escape.strip
    (line s!"{error} {why.message given known}" ++ line "" ++
      line s!"For more information, try '{help}'.")

/-- The first line of what is typed, with its end; a failure when there is nothing left. -/
def firstLine (input : String) : Except Failure String :=
  let cs := input.toList
  if cs = [] then .error (.of .promptClosed)
  else
    let text := cs.takeWhile (· ≠ '\n')
    .ok (String.ofList (text ++ (cs.drop text.length).take 1))

/-- What is said when the version is asked for. -/
def versionText : String := line "pmguard 0.4.0"

/-- What is said when help is asked for. -/
def helpText : String := String.join ([
  "Scan every package an install would pull in for malware before running it",
  "",
  "Usage: pmguard [OPTIONS] <MANAGER> <ACTION> [ARGS]...",
  "",
  "Arguments:",
  "  <MANAGER>  Package manager to run: npm, pnpm, yarn, pip or pip3",
  "  <ACTION>   Package manager subcommand, e.g. install",
  "  [ARGS]...  Arguments passed to the package manager unchanged",
  "",
  "Options:",
  "      --config <PATH>       Path to a pmguard.config.yml file " ++
    "(defaults to ./pmguard.config.yml when present)",
  "      --dry-run             Scan and ask for confirmation, but never run the package manager",
  "      --workers <N>         Number of concurrent analysis workers",
  "      --queue-capacity <N>  Capacity of the analysis work queue",
  "      --timeout <SECS>      Per-package scan timeout in seconds",
  "      --skip-failed-roots   Keep scanning the remaining packages when one fails " ++
    "to resolve or fetch",
  "  -v, --verbose...          Increase log verbosity (-v info, -vv debug)",
  "  -h, --help                Print help",
  "  -V, --version             Print version"].map line)

end PackageGate.Console
