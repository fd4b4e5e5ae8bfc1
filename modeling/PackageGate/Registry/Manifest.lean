/-!
# Manifests

- `Manifest`: what a registry knows of one version of a package. The
  dependencies stand in rising order of their names, one range per name.
- `Manifest.ofEntries`: a dependency list in that order; of two entries for one
  name the later one counts.
-/

namespace PackageGate

/-- One version of a package, as its registry describes it. -/
structure Manifest where
  name : String
  version : String
  dependencies : List (String × String)
deriving DecidableEq, Inhabited

namespace Manifest

/-- Puts a dependency in its place; one of the same name is replaced. -/
def insertDependency (name range : String) : List (String × String) → List (String × String)
  | [] => [(name, range)]
  | (other, old) :: r =>
    if name < other then (name, range) :: (other, old) :: r
    else if name = other then (name, range) :: r
    else (other, old) :: insertDependency name range r

/-- Dependencies in rising order of their names. -/
def ofEntries (entries : List (String × String)) : List (String × String) :=
  entries.foldl (fun deps (name, range) => insertDependency name range deps) []

end Manifest

end PackageGate
