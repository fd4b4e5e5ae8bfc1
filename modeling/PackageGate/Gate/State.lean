/-!
# States of the gate

- `Gate.State`: where one run of the guard stands.
- `Gate.State.canBecome`: the legal transitions. A run scans its roots one by
  one, each followed by an aggregation, and ends clean, blocked or in an error.
-/

namespace PackageGate.Gate

/-- Where a run of the guard stands. -/
inductive State
  | idle
  | scanning (root : String)
  | aggregating
  | flagged
  | clean
  | blocked
  | error
deriving DecidableEq, Inhabited

namespace State

/-- The name under which a state is shown. -/
def display : State → String
  | idle => "idle"
  | scanning root => s!"scanning({root})"
  | aggregating => "aggregating"
  | flagged => "flagged"
  | clean => "clean"
  | blocked => "blocked"
  | error => "error"

/-- The states in which a run ends. -/
def isTerminal : State → Bool
  | clean | blocked | error => true
  | _ => false

/-- The legal transitions. -/
def canBecome : State → State → Bool
  | idle, scanning _ => true
  | scanning _, aggregating => true
  | scanning _, error => true
  | aggregating, scanning _ => true
  | aggregating, clean => true
  | aggregating, flagged => true
  | aggregating, error => true
  | flagged, clean => true
  | flagged, blocked => true
  | _, _ => false

end State

end PackageGate.Gate
