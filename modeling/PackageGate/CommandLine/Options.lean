import PackageGate.CommandLine.Refusal
import PackageGate.Config.Resolve
import PackageGate.InstallCommand

/-!
# The guard's own options

- `CommandLine.Switch`: the options, with their names.
- `CommandLine.Options`: what the options in front of a command ask for.
- `CommandLine.Arguments`: options and command together.
-/

namespace PackageGate.CommandLine

/-- An option. -/
inductive Switch
  | config
  | dryRun
  | workers
  | queueCapacity
  | timeout
  | skipFailedRoots
  | verbose
  | help
  | version
deriving DecidableEq, Inhabited

namespace Switch

/-- Every option. -/
def all : List Switch :=
  [config, dryRun, workers, queueCapacity, timeout, skipFailedRoots, verbose, help, version]

/-- The name of an option, behind two dashes. -/
def name : Switch → String
  | config => "config"
  | dryRun => "dry-run"
  | workers => "workers"
  | queueCapacity => "queue-capacity"
  | timeout => "timeout"
  | skipFailedRoots => "skip-failed-roots"
  | verbose => "verbose"
  | help => "help"
  | version => "version"

/-- The option with a name. -/
def ofName? (name : List Char) : Option Switch :=
  all.find? (·.name.toList = name)

/-- The option that one letter stands for, behind one dash. -/
def ofLetter? : Char → Option Switch
  | 'v' => some verbose
  | 'h' => some help
  | 'V' => some version
  | _ => none

/-- What the value of an option is called; nothing if it takes none. -/
def valueName? : Switch → Option String
  | config => some "PATH"
  | workers | queueCapacity => some "N"
  | timeout => some "SECS"
  | _ => none

/-- Whether an option takes a value. -/
def takesValue (s : Switch) : Bool := s.valueName?.isSome

/-- An option as it is spoken of. -/
def shown (s : Switch) : String :=
  match s.valueName? with
  | some value => s!"--{s.name} <{value}>"
  | none => if s = verbose then "--verbose..." else "--" ++ s.name

end Switch

/-- What the options ask for. -/
structure Options where
  config : Option String := none
  isDryRun : Bool := false
  workers : Option Nat := none
  queueCapacity : Option Nat := none
  timeout : Option Nat := none
  skipsFailedRoots : Bool := false
  verbosity : Nat := 0
deriving DecidableEq, Inhabited

namespace Options

/-- What the options say about the configuration. -/
def overrides (o : Options) : Config.Overrides where
  queueCapacity := o.queueCapacity
  analysisWorkers := o.workers
  scanTimeoutSecs := o.timeout
  skipsFailedRoots := o.skipsFailedRoots

/-- How much is logged. -/
def logLevel (o : Options) : String :=
  match o.verbosity with
  | 0 => "warn"
  | 1 => "info"
  | _ => "debug"

/-- The most that `verbosity` counts. -/
def verbosityLimit : Nat := 255

/-- The options when more is asked for. -/
def louder (o : Options) (count : Nat) : Options :=
  { o with verbosity := min verbosityLimit (o.verbosity + count) }

/-- Whether a switch that is given once is given already. -/
def has (o : Options) : Switch → Bool
  | .config => o.config.isSome
  | .dryRun => o.isDryRun
  | .workers => o.workers.isSome
  | .queueCapacity => o.queueCapacity.isSome
  | .timeout => o.timeout.isSome
  | .skipFailedRoots => o.skipsFailedRoots
  | _ => false

/-- Reads the value of a numeric option. -/
def number (s : Switch) (value : String) : Except Refusal Nat :=
  (Number.read value).mapError (.badNumber s.shown value)

/-- The options with a value for `s`. -/
def setValue (o : Options) (s : Switch) (value : String) : Except Refusal Options :=
  if o.has s then .error (.repeated s.shown)
  else
    match s with
    | .config =>
      if value.isEmpty then .error (.missingValue s.shown)
      else .ok { o with config := some value }
    | .workers => (number s value).map fun n => { o with workers := some n }
    | .queueCapacity => (number s value).map fun n => { o with queueCapacity := some n }
    | .timeout => (number s value).map fun n => { o with timeout := some n }
    | _ => .ok o

end Options

/-- Options and command. -/
structure Arguments where
  options : Options
  command : InstallCommand
deriving DecidableEq, Inhabited

end PackageGate.CommandLine
