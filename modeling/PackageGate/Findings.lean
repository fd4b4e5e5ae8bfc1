/-!
# Findings

The malicious packages found so far, shared by all roots of one run. A finding
is never changed or withdrawn: the first summary recorded for a key stays.

- `Findings.record`: adds a finding unless its key is known, and tells which.
- `Findings.snapshot`: all findings, in rising order of their keys.
-/

namespace PackageGate

/-- A malicious package, as it is shown to the user. -/
structure Finding where
  key : String
  summary : String
deriving DecidableEq, Inhabited

/-- The findings of a run, in rising order of their keys. -/
structure Findings where
  entries : List Finding
deriving DecidableEq, Inhabited

namespace Findings

/-- No finding. -/
def empty : Findings := ⟨[]⟩

/-- Whether the package with the key `key` was found malicious. -/
def contains (f : Findings) (key : String) : Bool :=
  f.entries.any (·.key == key)

/-- How many packages were found malicious. -/
def size (f : Findings) : Nat := f.entries.length

/-- All findings, in rising order of their keys. -/
def snapshot (f : Findings) : List Finding := f.entries

/-- Puts a finding in its place; a finding with the same key stays instead. -/
def insert (x : Finding) : List Finding → List Finding
  | [] => [x]
  | y :: r =>
    if x.key < y.key then x :: y :: r
    else if x.key = y.key then y :: r
    else y :: insert x r

/-- Records that the package with the key `key` is malicious; tells whether that was new. -/
def record (f : Findings) (key summary : String) : Bool × Findings :=
  (!f.contains key, ⟨insert ⟨key, summary⟩ f.entries⟩)

end Findings

end PackageGate
