import PackageGate.Failure
import PackageGate.Package.Specifier

/-!
# The version of a root

- `Resolution.direct?`: a root asked for with a version is taken in that version,
  and the registry is not asked.
- `Resolution.ofLatest`: a root asked for without one is taken in the version that
  the registry calls the newest.
-/

namespace PackageGate.Resolution

/-- The root in the version it is asked for, if it is asked for in one. -/
def direct? (root : Package) : Option Package :=
  if Text.isBlankText root.version then none
  else some (root.withVersion (Specifier.normalize root.version))

/-- The failure of a root whose version cannot be settled. -/
def failed (root : Package) (details : String) : Failure :=
  .ofFault (.resolution root.name details)

/-- The root in the version that the registry answers with. -/
def ofLatest (root : Package) : Except Failure (Option String) → Except Failure Package
  | .ok (some version) => .ok (root.withVersion version)
  | .ok none => .error (failed root "The registry publishes no latest version")
  | .error e => .error (failed root e.text)

end PackageGate.Resolution
