import PackageGate.Package.Spec
import PackageGate.Text.Alphanumeric

/-!
# Requirements: `name[extra] ==1.0`

Requirements name packages of the Python index, on a command line and in the
dependency lists of other packages.

- `Package.ofRequirement`: a requirement as an install argument. A pin `==V`
  gives the version; any other clause leaves it open.
- `Requirement.ofDeclared`: an entry of a dependency list, with its marker; an
  entry that asks for an extra declares no dependency.
-/

namespace PackageGate

namespace Requirement

/-- The characters of a package name. -/
def isNameChar (c : Char) : Bool :=
  Text.isAlphanumeric c || c = '-' || c = '_' || c = '.'

/-- What stands behind the first `]`; nothing if there is none. -/
def afterBracket (cs : List Char) : List Char :=
  (cs.dropWhile (· ≠ ']')).drop 1

/-- Drops a leading list of extras. -/
def dropExtras : List Char → List Char
  | '[' :: r => afterBracket r
  | cs => cs

/-- What follows a leading `==`. -/
def pinned? : List Char → Option (List Char)
  | '=' :: '=' :: r => some r
  | _ => none

/-- Everything that a requirement fixes about the version: the text of its only
`==` clause, or nothing. -/
def pin (constraint : List Char) : List Char :=
  match pinned? constraint with
  | some v => if v.contains ',' then [] else Text.trim v
  | none => []

/-- Splits at the first `;` into requirement and marker. -/
def splitMarker (cs : List Char) : List Char × Option (List Char) :=
  match cs.dropWhile (· ≠ ';') with
  | [] => (cs, none)
  | _ :: marker => (cs.takeWhile (· ≠ ';'), some marker)

/-- Whether `needle` occurs in `cs` without a gap. -/
def occursIn (needle : List Char) : List Char → Bool
  | [] => needle.isEmpty
  | c :: r => needle.isPrefixOf (c :: r) || occursIn needle r

/-- Drops every `(` in front and every `)` at the end. -/
def dropParens (cs : List Char) : List Char :=
  (((cs.dropWhile (· = '(')).reverse.dropWhile (· = ')'))).reverse

/-- The version that a declared constraint asks for: the text of its only `==`
clause when that is no wildcard, else any version. -/
def declaredVersion (constraint : List Char) : List Char :=
  match pinned? constraint with
  | some v => if v.contains ',' || v.contains '*' then ['*'] else Text.trim v
  | none => ['*']

/-- The name and the version that an entry of a dependency list asks for. An entry
under a marker that mentions `extra`, or without a name, asks for nothing. -/
def ofDeclared (entry : String) : Option (String × String) :=
  let (spec, marker) := splitMarker entry.toList
  if marker.any (occursIn "extra".toList) then none
  else
    let spec := Text.trim spec
    let name := spec.takeWhile isNameChar
    if name = [] then none
    else
      let rest := dropExtras (Text.trimStart (spec.dropWhile isNameChar))
      let constraint := Text.trim (dropParens (Text.trim rest))
      some (String.ofList name, String.ofList (declaredVersion constraint))

end Requirement

/-- Reads a requirement given as an install argument. -/
def Package.ofRequirement (requirement : String) : Except Package.SpecError Package :=
  let cs := Text.trim requirement.toList
  let name := cs.takeWhile Requirement.isNameChar
  if name = [] then .error (.malformed (String.ofList cs) .noLeadingName)
  else
    let rest := Requirement.dropExtras (cs.dropWhile Requirement.isNameChar)
    let version := Requirement.pin (Text.trim rest)
    (Package.make (String.ofList name) (String.ofList version)).mapError .invalid

end PackageGate
