/-!
# Visits

Which keys the walk of one root has claimed. A key is claimed by the task that
marks it first; every later task finds it marked and leaves the package to that
one. A key that names a tag or a range is also remembered with the version that
its request was answered with.

- `Visits.mark`: claims a key, and tells whether it was still free.
- `Visits.recordResolution`, `Visits.resolution?`: the version behind a key.
-/

namespace PackageGate

/-- The claimed keys of a walk, newest first, and the versions behind them. -/
structure Visits where
  keys : List String
  resolutions : List (String × String)
deriving DecidableEq, Inhabited

namespace Visits

/-- Nothing visited. -/
def empty : Visits := ⟨[], []⟩

/-- Whether `key` is claimed. -/
def contains (v : Visits) (key : String) : Bool := v.keys.contains key

/-- How many keys are claimed. -/
def size (v : Visits) : Nat := v.keys.length

/-- Claims `key`; tells whether it was still free. -/
def mark (v : Visits) (key : String) : Bool × Visits :=
  if v.contains key then (false, v) else (true, { v with keys := key :: v.keys })

/-- Remembers that the request for `key` was answered with `version`. -/
def recordResolution (v : Visits) (key version : String) : Visits :=
  { v with resolutions := (key, version) :: v.resolutions }

/-- The version last remembered for `key`. -/
def resolution? (v : Visits) (key : String) : Option String :=
  v.resolutions.lookup key

end Visits

end PackageGate
