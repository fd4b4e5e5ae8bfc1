import PackageGate.CommandLine.Options

/-!
# Reading a command line

A command line is options, a package manager, an action, and then arguments that
are the package manager's own. The guard's options may stand anywhere in front of
the first of these arguments; from there on everything is taken as it is. Behind a
lone `--` there are no options any more.

A value is looked at only when the next argument is known to be none of it, so
the first thing that is wrong is not always the first that is noticed.

- `CommandLine.Reader`: what has been read, and what is still to be settled.
- `CommandLine.read`: options and command, or why there are none.
-/

namespace PackageGate.CommandLine

/-- Why a command line gives no command. -/
inductive Stop
  | help
  | version
  | refused (why : Refusal)
deriving DecidableEq

/-- Something that is still to be settled. -/
inductive Pending
  | value (s : Switch) (given : Option String)
  | manager (text : String)
  | action (text : String)
deriving DecidableEq

/-- A reader in the middle of a command line. -/
structure Reader where
  options : Options
  manager : Option Manager
  action : Option String
  pending : Option Pending
  /-- How many of the positional arguments, manager and action, have been met. -/
  met : Nat
deriving DecidableEq, Inhabited

namespace Reader

/-- A reader at the beginning of a command line. -/
def start : Reader := ⟨{}, none, none, none, 0⟩

/-- Whether the next argument may be the value of an option. -/
def awaitsValue (r : Reader) : Bool :=
  match r.pending with
  | some (.value _ none) => true
  | _ => false

/-- Settles what is pending. -/
def settle (r : Reader) : Except Stop Reader :=
  match r.pending with
  | none => .ok r
  | some (.value s none) => .error (.refused (.missingValue s.shown))
  | some (.value s (some value)) =>
    match r.options.setValue s value with
    | .ok options => .ok { r with options, pending := none }
    | .error why => .error (.refused why)
  | some (.manager text) =>
    match Manager.ofName? text with
    | some m => .ok { r with manager := some m, pending := none }
    | none => .error (.refused (.badManager text))
  | some (.action text) => .ok { r with action := some text, pending := none }

/-- Takes a switch without a value. -/
def turn (r : Reader) (s : Switch) : Except Stop Reader := do
  let r ← r.settle
  if r.options.has s then throw (.refused (.repeated s.shown))
  match s with
  | .help => throw .help
  | .version => throw .version
  | .dryRun => return { r with options.isDryRun := true }
  | .skipFailedRoots => return { r with options.skipsFailedRoots := true }
  | .verbose => return { r with options := r.options.louder 1 }
  | _ => return r

/-- Takes an option with the value attached to it, or waits for its value. -/
def take (r : Reader) (s : Switch) (value : Option String) : Except Stop Reader := do
  let r ← r.settle
  match value with
  | some _ => settle { r with pending := some (.value s value) }
  | none => return { r with pending := some (.value s none) }

/-- Whether everything but the guard's own options belongs to the package manager. -/
def isOpen (r : Reader) : Bool := 2 ≤ r.met

/-- Takes a cluster of letters. -/
def letters (r : Reader) : List Char → Except Stop Reader
  | [] => .ok r
  | c :: cs =>
    match Switch.ofLetter? c with
    | some s =>
      match r.turn s with
      | .ok r => letters r cs
      | .error stop => .error stop
    | none => .error (.refused (.unknown ("-" ++ String.singleton c)))

/-- Takes an argument that starts with two dashes: a name, and possibly a value behind an
equals sign. Nothing if it is the package manager's. -/
def long (r : Reader) (body : List Char) : Except Stop (Option Reader) :=
  let name := body.takeWhile (· ≠ '=')
  let value := match body.dropWhile (· ≠ '=') with
    | _ :: value => some (String.ofList value)
    | [] => none
  match Switch.ofName? name with
  | some s =>
    if s.takesValue then (r.take s value).map some
    else
      match value with
      | some value => .error (.refused (.superfluousValue s.shown value))
      | none => (r.turn s).map some
  | none =>
    if r.isOpen then .ok none else .error (.refused (.unknown ("--" ++ String.ofList name)))

/-- Takes an argument that starts with one dash. Nothing if it is the package manager's. -/
def short (r : Reader) (cluster : List Char) : Except Stop (Option Reader) :=
  if r.isOpen && cluster.any fun c => (Switch.ofLetter? c).isNone then .ok none
  else (r.letters cluster).map some

/-- Takes an option. Nothing if the argument is none. -/
def option (r : Reader) (arg : String) : Except Stop (Option Reader) :=
  match arg.toList with
  | '-' :: '-' :: body => r.long body
  | '-' :: c :: cluster => r.short (c :: cluster)
  | _ => .ok none

/-- Takes a value of the option that waits for one. -/
def fill (r : Reader) (arg : String) : Reader :=
  match r.pending with
  | some (.value s _) => { r with pending := some (.value s (some arg)) }
  | _ => r

/-- The command line that has been read, in front of the package manager's arguments `rest`. -/
def finish (r : Reader) (rest : List String) : Except Stop Arguments := do
  let r ← r.settle
  match r.manager, r.action with
  | some manager, some action => return ⟨r.options, manager, action, rest⟩
  | _, _ => throw (.refused .incomplete)

/-- Takes an argument that is no option: the manager, then the action, then the package
manager's first argument, with which all others are its own. -/
def positional (r : Reader) (arg : String) (rest : List String)
    (next : Reader → Except Stop Arguments) : Except Stop Arguments := do
  let r ← r.settle
  match r.met with
  | 0 => next { r with pending := some (.manager arg), met := 1 }
  | 1 => next { r with pending := some (.action arg), met := 2 }
  | _ => r.finish (arg :: rest)

/-- Reads the rest of a command line; `isEscaped` holds behind a lone `--`. -/
def run (r : Reader) (isEscaped : Bool) : List String → Except Stop Arguments
  | [] => r.finish []
  | arg :: rest =>
    if isEscaped then r.positional arg rest fun r => run r true rest
    else if arg = "--" then run r true rest
    else
      match r.option arg with
      | .error stop => .error stop
      | .ok (some r) => run r false rest
      | .ok none =>
        if r.awaitsValue then run (r.fill arg) false rest
        else r.positional arg rest fun r => run r false rest

end Reader

/-- Reads a command line. -/
def read (args : List String) : Except Stop Arguments :=
  Reader.start.run false args

end PackageGate.CommandLine
