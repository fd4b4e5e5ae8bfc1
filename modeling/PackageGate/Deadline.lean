import PackageGate.Failure

/-!
# Deadlines

The scan of a root has one deadline for everything that it does.

Points in time and budgets are numbers without a bound. It is assumed that the clock of the
machine can tell every instant that a budget leads to.

- `Deadline.after`: a deadline that lies a budget ahead.
- `Deadline.isExpired`: whether it has come.
- `Deadline.cancelled`: what is said of a scan that it ended.
-/

namespace PackageGate

/-- A point in time, and the budget that led to it, in milliseconds. -/
structure Deadline where
  instant : Nat
  budget : Nat
deriving DecidableEq, Inhabited

namespace Deadline

/-- The deadline that lies `budget` ahead of `now`. -/
def after (now budget : Nat) : Deadline := ⟨now + budget, budget⟩

/-- Whether a deadline has come at the time `now`. -/
def isExpired (d : Deadline) (now : Nat) : Bool := d.instant ≤ now

/-- The failure of a scan that ran past its deadline. -/
def cancelled (d : Deadline) (key : String) : Failure := .ofFault (.cancelled key d.budget)

end Deadline

end PackageGate
