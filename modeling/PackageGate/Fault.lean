import PackageGate.Text.Hint

/-!
# Faults

- `Fault`: the kinds of failure that the guard itself tells apart.
- `Fault.isRecoverable`: those that concern one dependency or one analysis only.
- `ExitCode`: what the guard's own decisions end the program with.
-/

namespace PackageGate

/-- A failure of a kind that the guard tells apart. -/
inductive Fault
  | resolution (package details : String)
  | fetch (package details : String)
  | analysis (package details : String)
  | cancelled (package : String) (budget : Nat)
  | invalidSpec (spec reason : String)
  | executor (program details : String)
  | validation (message : String)
deriving DecidableEq, Inhabited

namespace Fault

/-- The text of a fault: what failed, why, and what may help. A budget is in
milliseconds and is shown in whole seconds. -/
def message : Fault → String
  | resolution package details =>
    Text.withHint s!"Failed to resolve a version for package: {package}\nDetails: {details}"
      "Check the package name and that the registry is reachable"
  | fetch package details =>
    Text.withHint s!"Failed to fetch dependency manifest: {package}\nDetails: {details}"
      "The registry may be unreachable or the version may not exist"
  | analysis package details =>
    Text.withHint s!"Failed to analyze package: {package}\nDetails: {details}"
      "The package was treated as unverified"
  | cancelled package budget =>
    Text.withHint s!"Scan of {package} was cancelled after {budget / 1000}s"
      "Raise the scan timeout with --timeout or scan_timeout_secs"
  | invalidSpec spec reason =>
    Text.withHint s!"Invalid package spec: {spec}\nReason: {reason}"
      "Use the form name, name@version or @scope/name@version"
  | executor program details =>
    Text.withHint s!"Failed to run package manager: {program}\nDetails: {details}"
      s!"Make sure {program} is installed and on your PATH"
  | validation message => s!"Validation error: {message}"

/-- Whether the fault concerns one dependency or one analysis only. -/
def isRecoverable : Fault → Bool
  | fetch _ _ | analysis _ _ => true
  | _ => false

end Fault

/-- How a run ends when the guard decides it. -/
inductive ExitCode
  | success
  | installBlocked
  | invalidArguments
  | applicationError
deriving DecidableEq

namespace ExitCode

/-- Every exit code, in rising order. -/
def all : List ExitCode := [success, installBlocked, invalidArguments, applicationError]

/-- The code given to the operating system. -/
def code : ExitCode → Nat
  | success => 0
  | installBlocked => 1
  | invalidArguments => 2
  | applicationError => 3

/-- The name of an exit code. -/
def display : ExitCode → String
  | success => "Success (0)"
  | installBlocked => "Install Blocked (1)"
  | invalidArguments => "Invalid Arguments (2)"
  | applicationError => "Application Error (3)"

end ExitCode

end PackageGate
