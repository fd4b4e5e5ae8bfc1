import PackageGate.Text.Blank

/-!
# Packages

A package is a name and a version; an empty version means that none was given.

- `Package.key`: `name@version`, the identity under which a package is visited,
  analyzed and recorded.
- `Package.make`: the only check a package meets: a name that is not blank, and
  both parts within their length limits, counted in UTF-8 bytes.
- `Package.withVersion`: another version of the same package, taken unchecked.
-/

namespace PackageGate

/-- A package of some registry. -/
structure Package where
  name : String
  version : String
deriving DecidableEq, Inhabited

namespace Package

/-- The longest name, in UTF-8 bytes. -/
def nameLimit : Nat := 214

/-- The longest version, in UTF-8 bytes. -/
def versionLimit : Nat := 256

/-- Why a name and a version make no package. -/
inductive Invalid
  | blankName
  | longName (bytes : Nat)
  | longVersion (bytes : Nat)
deriving DecidableEq

/-- The text of an invalid package. -/
def Invalid.message : Invalid → String
  | .blankName => "Package name cannot be empty"
  | .longName n =>
    s!"Package name is too long ({n} bytes). Maximum allowed: {nameLimit} bytes"
  | .longVersion n =>
    s!"Package version is too long ({n} bytes). Maximum allowed: {versionLimit} bytes"

/-- The first of the two texts that is longer than its limit. -/
def checkLengths (name version : String) : Except Invalid Unit :=
  if nameLimit < name.utf8ByteSize then .error (.longName name.utf8ByteSize)
  else if versionLimit < version.utf8ByteSize then .error (.longVersion version.utf8ByteSize)
  else .ok ()

/-- The package of `name` and `version`, if the name is not blank and both keep
their limits. -/
def make (name version : String) : Except Invalid Package :=
  if Text.isBlankText name then .error .blankName
  else (checkLengths name version).map fun _ => ⟨name, version⟩

/-- The same package in another version. -/
def withVersion (p : Package) (version : String) : Package :=
  { p with version := version }

/-- `name@version`, also when the version is empty. -/
def key (p : Package) : String :=
  p.name ++ "@" ++ p.version

/-- The package as people write it: the version is left out when it is empty. -/
def display (p : Package) : String :=
  if p.version.isEmpty then p.name else p.key

end Package

end PackageGate
