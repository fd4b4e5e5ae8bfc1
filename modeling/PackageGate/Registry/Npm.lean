import PackageGate.Http.Lookup
import PackageGate.Json.Record
import PackageGate.Registry.Manifest

/-!
# The npm registry

- `Npm.nameSegment`: a name as one segment of a path. A scoped name keeps its `@`,
  and the slash behind its scope is encoded.
- `Npm.latest`: the document of a package, with its tags.
- `Npm.manifest`: the document of one version; a version may be a tag as well.
-/

namespace PackageGate.Npm

/-- Scope and name of a scoped name. -/
def splitScope? : List Char → Option (List Char × List Char)
  | '@' :: r =>
    match r.dropWhile (· ≠ '/') with
    | _ :: name => some (r.takeWhile (· ≠ '/'), name)
    | [] => none
  | _ => none

/-- A name as one segment of a path. -/
def nameSegment (name : String) : Except Failure String :=
  match splitScope? name.toList with
  | none => do
    Http.Component.check "Package name" name
    return Http.Component.encode name
  | some (scope, bare) => do
    let scope := String.ofList scope
    let bare := String.ofList bare
    Http.Component.check "Package name" bare
    Http.Component.check "Package scope" scope
    return "@" ++ Http.Component.encode scope ++ "%2F" ++ Http.Component.encode bare

/-- The tags of a package's document: the version behind each tag. A tag that is
repeated means its last version. -/
def tags? (v : Json.Value) : Option (List (String × String)) := do
  let fields ← v.record? ["dist-tags"]
  Json.Value.field? fields "dist-tags" (some []) fun tags =>
    (tags.dictionary? (·.text?)).map Manifest.ofEntries

/-- Reads the newest version from a package's document. -/
def readLatest (v : Json.Value) : Option (Option String) :=
  (tags? v).map (·.lookup "latest")

/-- Reads the document of a version. A name or a version that is left out is the one
asked for. -/
def readManifest (p : Package) (v : Json.Value) : Option Manifest := do
  let fields ← v.record? ["name", "version", "dependencies"]
  let name ← Json.Value.field? fields "name" (some none) (·.optional? (·.text?))
  let version ← Json.Value.field? fields "version" (some none) (·.optional? (·.text?))
  let dependencies ← Json.Value.field? fields "dependencies" (some []) (·.dictionary? (·.text?))
  return ⟨name.getD p.name, version.getD p.version, Manifest.ofEntries dependencies⟩

/-- The lookup of a package's newest version. -/
def latest (base name : String) : Except Failure (Http.Lookup (Option String)) := do
  let name' ← nameSegment name
  return ⟨⟨base, [name']⟩, readLatest, .packageMissing .npm name⟩

/-- The lookup of a version's manifest. -/
def manifest (base : String) (p : Package) : Except Failure (Http.Lookup Manifest) := do
  Http.Component.check "Version" p.version
  let name ← nameSegment p.name
  return ⟨⟨base, [name, Http.Component.encode p.version]⟩, readManifest p,
    .versionMissing .npm p.name p.version⟩

end PackageGate.Npm
