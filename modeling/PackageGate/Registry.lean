import PackageGate.Registry.Pypi

/-!
# Registries

- `Registry`: an ecosystem's registry at a base URL.
- `Registry.latest`, `Registry.manifest`: the lookups that answer its questions;
  a question whose parts must not stand in a URL has none.
- `Registry.ask`: runs a lookup.
-/

namespace PackageGate

/-- An ecosystem's registry at a base URL. -/
structure Registry where
  ecosystem : Ecosystem
  base : String
deriving DecidableEq, Inhabited

namespace Registry

/-- The public registry of an ecosystem. -/
def publicUrl : Ecosystem → String
  | .npm => "https://registry.npmjs.org"
  | .pypi => "https://pypi.org"

/-- The registry of an ecosystem at a configured URL. -/
def ofUrl (e : Ecosystem) (url : String) : Registry := ⟨e, Http.trimBase url⟩

/-- The lookup of a package's newest version. -/
def latest (r : Registry) (name : String) : Except Failure (Http.Lookup (Option String)) :=
  match r.ecosystem with
  | .npm => Npm.latest r.base name
  | .pypi => Pypi.latest r.base name

/-- The lookup of a version's manifest. -/
def manifest (r : Registry) (p : Package) : Except Failure (Http.Lookup Manifest) :=
  match r.ecosystem with
  | .npm => Npm.manifest r.base p
  | .pypi => Pypi.manifest r.base p

/-- Runs a lookup, if there is one. -/
def ask {α ω : Type} (t : Http.Transport ω) (l : Except Failure (Http.Lookup α)) (world : ω) :
    Http.Finish α × ω :=
  match l with
  | .ok l => l.run t Http.Lookup.attempts world
  | .error why => (⟨.error why, []⟩, world)

end Registry

end PackageGate
