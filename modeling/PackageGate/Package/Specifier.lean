import PackageGate.Text.Blank

/-!
# Version specifiers

A registry is asked for a version or for a tag. A specifier becomes one of
these by losing its blanks and at most one range mark.

- `Specifier.normalize`: `*` is the tag `latest`, and one leading `^` or `~` goes.
- `Specifier.ofEdge`: what a declared dependency asks for; never empty.
-/

namespace PackageGate.Specifier

/-- The tag that names a package's newest release. -/
def latest : String := "latest"

/-- Drops one leading range mark. -/
def dropMark : List Char → List Char
  | '^' :: r => r
  | '~' :: r => r
  | cs => cs

/-- The version or tag that `raw` asks for. -/
def normalize (raw : String) : String :=
  let cs := Text.trim raw.toList
  if cs = ['*'] then latest else String.ofList (dropMark cs)

/-- The version that a dependency declared with `range` asks for: a range that
normalizes to nothing asks for the newest release. -/
def ofEdge (range : String) : String :=
  let version := normalize range
  if version.isEmpty then latest else version

end PackageGate.Specifier
