import PackageGate.Package

/-!
# Sessions

The session of a root says what came of scanning it.

- `Session.completed`: a scan that went through; it is flagged when one of its
  packages was found malicious.
- `Session.failed`: a scan that did not; nothing is known of its packages.
-/

namespace PackageGate

/-- What came of scanning a root. -/
inductive Session.Status
  | clean
  | flagged
  | failed (reason : String)
deriving DecidableEq

/-- The scan of one root. The key lists stand in the order of the root's tree. -/
structure Session where
  requested : Package
  resolved : Option Package
  analyzedKeys : List String
  flaggedKeys : List String
  status : Session.Status
deriving DecidableEq

namespace Session

/-- A scan that did not go through. -/
def failed (requested : Package) (resolved : Option Package) (reason : String) : Session :=
  ⟨requested, resolved, [], [], .failed reason⟩

/-- A scan that went through. -/
def completed (requested resolved : Package) (analyzed flagged : List String) : Session :=
  ⟨requested, some resolved, analyzed, flagged, if flagged.isEmpty then .clean else .flagged⟩

/-- Whether the scan did not go through. -/
def isFailed (s : Session) : Bool :=
  match s.status with
  | .failed _ => true
  | _ => false

end Session

end PackageGate
