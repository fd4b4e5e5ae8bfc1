import PackageGate.Package
import PackageGate.Text.Split

/-!
# Written packages: `name`, `name@version`, `@scope/name@version`

- `Package.ofSpec`: reads a written package. A leading `@` belongs to a scope;
  of the rest, `@` separates the version.
- `Package.SpecError`: why a text is no written package: it is malformed as
  written, or what it names is no package.
-/

namespace PackageGate.Package

/-- How a written package is malformed. -/
inductive Malformed
  | manySeparators
  | emptyName
  | scopeWithoutName
  | noLeadingName
deriving DecidableEq

/-- The reason shown for a malformed package. -/
def Malformed.reason : Malformed → String
  | .manySeparators => "more than one '@' version separator"
  | .emptyName => "package name is empty"
  | .scopeWithoutName => "scoped package is missing '/name'"
  | .noLeadingName => "requirement does not start with a package name"

/-- Why a written package cannot be read. -/
inductive SpecError
  | malformed (spec : String) (why : Malformed)
  | invalid (why : Invalid)
deriving DecidableEq

/-- Whether the text starts with a scope mark, and the text without it. -/
def splitScope : List Char → Bool × List Char
  | '@' :: r => (true, r)
  | cs => (false, cs)

/-- Name and version of a written package, before the limits are checked. -/
def specParts (spec : List Char) : Except Malformed (List Char × List Char) :=
  let (hasScope, body) := splitScope spec
  let finish (name version : List Char) : Except Malformed (List Char × List Char) :=
    if name = [] then .error .emptyName
    else if hasScope && !name.contains '/' then .error .scopeWithoutName
    else .ok (if hasScope then '@' :: name else name, version)
  match Text.splitAt '@' body with
  | [name] => finish name []
  | [name, version] => finish name version
  | _ => .error .manySeparators

/-- Reads a written package. -/
def ofSpec (spec : String) : Except SpecError Package :=
  match specParts spec.toList with
  | .error why => .error (.malformed spec why)
  | .ok (name, version) =>
    (make (String.ofList name) (String.ofList version)).mapError .invalid

end PackageGate.Package
