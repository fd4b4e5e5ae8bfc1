import PackageGate.Analysis.Service
import PackageGate.CommandLine.Reader
import PackageGate.Config.Source
import PackageGate.Console
import PackageGate.Gate.Machine

/-!
# The program

A run of the program reads its command line, loads its configuration, and then
either scans the packages of the command or, where there are none, hands the
command on.

- `Program.Plan`: what is to be done, settled before anything is asked or started.
- `Program.plan`: the plan of a command line, with the fields of the configuration
  file that are unknown.
- `Program.stopCode`, `Program.exitCode`: the exit code of a run.
- `Program.stopOutput`, `Program.stopErrors`: what is printed where there is no command.
-/

namespace PackageGate.Program

/-- What is to be done. -/
inductive Plan
  /-- The command names no package. -/
  | handOn (request : Request)
  | scan (request : Request) (settings : Settings) (registry : Registry)
      (service : Analysis.Service)
deriving DecidableEq

/-- What is to be done under a configuration. A scan needs an analysis service. -/
def Plan.of (request : Request) (c : Config) : Except Failure Plan :=
  match request.command.rootPackages with
  | .error why => .error why.failure
  | .ok [] => .ok (.handOn request)
  | .ok _ => do
    let url ← c.requiredServiceUrl
    return .scan request c.settings (c.registry request.command.manager.ecosystem)
      (.ofUrl url c.analysisApiKey)

/-- The request of a command line. -/
def request (args : CommandLine.Arguments) : Request :=
  ⟨args.command, args.options.isDryRun⟩

/-- The plan of a command line, when the configuration file is loaded. -/
def planWith (args : CommandLine.Arguments) (file : Option Config.File)
    (env : String → Option String) : Except Failure Plan := do
  let c ← Config.resolve args.options.overrides file env
  Plan.of (request args) c

/-- The plan of a command line, and the unknown fields of the configuration file that has
been loaded on the way. `read` reads files, `env` looks up environment variables. -/
def plan (args : CommandLine.Arguments) (read : String → Config.Source)
    (env : String → Option String) : List String × Except Failure Plan :=
  match Config.locate args.options.config read with
  | .error e => ([], .error e)
  | .ok file => ((file.map (·.unknown)).getD [], planWith args file env)

/-- The gate at the beginning of a planned run. Answers of the registry are remembered. -/
def Plan.gate : Plan → Gate
  | .handOn request => (Gate.initial request {} none).passThrough
  | .scan request settings _ _ => .start request settings (some .empty)

/-- The exit code of a command line that gives no command. -/
def stopCode : CommandLine.Stop → ExitCode
  | .help | .version => .success
  | .refused _ => .invalidArguments

/-- What a command line that gives no command puts on standard output. -/
def stopOutput : CommandLine.Stop → String
  | .help => Console.helpText
  | .version => Console.versionText
  | .refused _ => ""

/-- What a command line that gives no command puts on standard error. -/
def stopErrors : CommandLine.Stop → String
  | .help | .version => ""
  | .refused why => Console.refusal why

/-- The exit code of a run. -/
def exitCode : Except Failure Outcome → Int
  | .ok o => o.exitCode
  | .error e => e.exitCode.code

end PackageGate.Program
