import PackageGate.Fault
import PackageGate.Findings
import PackageGate.Gate.Session
import PackageGate.Gate.State

/-!
# Outcomes

- `Outcome`: how a run ended, with the way to it.
- `Outcome.exitCode`: a blocked install has an exit code of its own; otherwise
  the package manager's counts, if it was run.
- `Notice`: what a run tells the user while it goes on.
- `Gate.Event`: everything that a run does to its outside by itself, one by one.
-/

namespace PackageGate

/-- How a run ended. -/
structure Outcome where
  finalState : Gate.State
  sessions : List Session
  flagged : List Finding
  managerCode : Option Int
  transitions : List Gate.State
deriving DecidableEq

namespace Outcome

/-- Whether the user was asked about flagged packages. -/
def passedThroughFlagged (o : Outcome) : Bool := o.transitions.contains .flagged

/-- Whether the package manager was run. -/
def wasExecuted (o : Outcome) : Bool := o.managerCode.isSome

/-- The exit code of the run. -/
def exitCode (o : Outcome) : Int :=
  match o.finalState, o.managerCode with
  | .blocked, _ => ExitCode.installBlocked.code
  | _, some code => code
  | _, none => ExitCode.success.code

end Outcome

/-- Something told to the user. -/
inductive Notice
  | report (text : String)
  | error (text : String)
  | completion (text : String)
  | track (label : String)
  | stopTracking
deriving DecidableEq

namespace Notice

/-- A root is about to be scanned. -/
def scanning (root : String) : Notice := .report s!"🔍 Scanning {root} and its dependencies..."

/-- A root has been scanned. -/
def analyzed (count : Nat) (root : String) : Notice :=
  .report s!"   - {count} package(s) analyzed for {root}"

/-- A root could not be scanned and is skipped. -/
def skipping (root reason : String) : Notice := .error s!"⚠️  Warning: skipping {root}: {reason}"

/-- Nothing was found. -/
def allClean (count : Nat) : Notice :=
  .report s!"✅ No malicious packages found in {count} package(s)"

/-- The user has declined. -/
def installCancelled : Notice :=
  .completion "🛑 Installation cancelled. Nothing was installed."

/-- The command is shown instead of being run. -/
def dryRun (program : String) (args : List String) : Notice :=
  let line := " ".intercalate (program :: args)
  .completion s!"Dry run: would run \x60{line}\x60"

end Notice

/-- Something that the gate does to its outside. -/
inductive Gate.Event
  | told (n : Notice)
  /-- The registry is asked for the newest version of a package. -/
  | lookedUp (name : String)
  /-- The user is asked about flagged packages. -/
  | asked (flagged : List Finding)
  /-- The package manager is started. -/
  | started (program : String) (args : List String)
deriving DecidableEq

end PackageGate
