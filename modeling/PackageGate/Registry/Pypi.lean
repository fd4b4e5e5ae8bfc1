import PackageGate.Package.Requirement
import PackageGate.Package.Specifier
import PackageGate.Registry.Npm

/-!
# The Python index

- `Pypi.latest`: the document of a package, which describes its newest release.
- `Pypi.manifest`: the document of one release; the tag `latest` means the
  document of the package.
- `Pypi.readManifest`: the dependencies are the declared requirements, read one
  by one.
-/

namespace PackageGate.Pypi

/-- What the index says of a release. -/
structure Info where
  name : Option String
  version : Option String
  requirements : Option (List String)
deriving DecidableEq, Inhabited

/-- Reads what a document says of its release. -/
def Info.ofJson? (v : Json.Value) : Option Info := do
  let fields ← v.record? ["name", "version", "requires_dist"]
  let name ← Json.Value.field? fields "name" (some none) (·.optional? (·.text?))
  let version ← Json.Value.field? fields "version" (some none) (·.optional? (·.text?))
  let requirements ← Json.Value.field? fields "requires_dist" (some none)
    (·.optional? (·.list? (·.text?)))
  return { name, version, requirements }

/-- Reads a document. -/
def readInfo (v : Json.Value) : Option Info := do
  let fields ← v.record? ["info"]
  Json.Value.field? fields "info" none Info.ofJson?

/-- The manifest of a release. -/
def Info.manifest (i : Info) (p : Package) : Manifest where
  name := i.name.getD p.name
  version := i.version.getD p.version
  dependencies := Manifest.ofEntries ((i.requirements.getD []).filterMap Requirement.ofDeclared)

/-- The URL of a document: of a release, or of a package when no version is given. -/
def documentUrl (base name : String) (version : Option String) : Except Failure Http.Url := do
  Http.Component.check "Package name" name
  let name := Http.Component.encode name
  match version with
  | none => return ⟨base, ["pypi", name, "json"]⟩
  | some version =>
    Http.Component.check "Version" version
    return ⟨base, ["pypi", name, Http.Component.encode version, "json"]⟩

/-- The lookup of a package's newest version. -/
def latest (base name : String) : Except Failure (Http.Lookup (Option String)) := do
  let url ← documentUrl base name none
  return ⟨url, fun v => (readInfo v).map (·.version), .packageMissing .pypi name⟩

/-- The lookup of a release's manifest. -/
def manifest (base : String) (p : Package) : Except Failure (Http.Lookup Manifest) := do
  let version := if p.version = Specifier.latest then none else some p.version
  let url ← documentUrl base p.name version
  return ⟨url, fun v => (readInfo v).map (·.manifest p), .versionMissing .pypi p.name p.version⟩

end PackageGate.Pypi
