import PackageGate.Text.LetterCase
import PackageGate.Text.Blank

/-!
# Policies

- `RootFailurePolicy`: whether a root that cannot be scanned ends the run or is
  skipped.
- `isAffirmative`: the answers that let flagged packages be installed: `y` or
  `yes`, in any letter case. Every other answer blocks the install.
-/

namespace PackageGate

/-- What a run does when one of its roots cannot be scanned. -/
inductive RootFailurePolicy
  | failFast
  | skipRoot
deriving DecidableEq, Inhabited

namespace RootFailurePolicy

/-- The name of a policy. -/
def name : RootFailurePolicy → String
  | failFast => "fail-fast"
  | skipRoot => "skip-root"

/-- The policy that a text names, in any letter case and with `_` for `-`. -/
def ofText? (text : String) : Option RootFailurePolicy :=
  let word := text.toList.map fun c => if c = '_' then '-' else c
  if Text.readsAs word failFast.name then some failFast
  else if Text.readsAs word skipRoot.name then some skipRoot
  else none

end RootFailurePolicy

/-- Whether an answer agrees to install flagged packages. -/
def isAffirmative (answer : String) : Bool :=
  let word := Text.trim answer.toList
  Text.readsAs word "y" || Text.readsAs word "yes"

end PackageGate
