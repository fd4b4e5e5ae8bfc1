import PackageGate.Config.Resolve

/-!
# Where a configuration comes from

A file that is named has to be there. The file that is looked for by default may
be missing.

- `Config.Source`: what comes of reading a file.
- `Config.locate`: the file of a run, if there is one.
-/

namespace PackageGate.Config

/-- What comes of reading a file. -/
inductive Source
  | missing
  | unreadable (why : String)
  | content (text : String)
deriving DecidableEq, Inhabited

/-- What is said of a file that is not there. -/
def missingText : String := "No such file or directory (os error 2)"

/-- Loads the file at `path`. -/
def File.ofSource (path : String) : Source → Except Failure File
  | .missing => .error ((Failure.of (.told missingText)).during (.readingConfig path))
  | .unreadable why => .error ((Failure.of (.told why)).during (.readingConfig path))
  | .content text => load path text

/-- The path of the file that is looked for. -/
def defaultPath : String := "./" ++ fileName

/-- Loads the file that is named, or else the default one if it is there. `read` reads files. -/
def locate (named : Option String) (read : String → Source) : Except Failure (Option File) :=
  match named with
  | some path => (File.ofSource path (read path)).map some
  | none =>
    match read defaultPath with
    | .missing => .ok none
    | source => (File.ofSource defaultPath source).map some

end PackageGate.Config
