import PackageGate.Config.Source
import PackageGate.Text.Split

/-!
# Files of a simulated machine

A place is the list of the names on the way to it from the root. A path is followed
name by name, so what is wrong first on the way is what is reported.

- `Files`: the files and folders of a machine.
- `Files.find`: the place that a path leads to.
- `Files.read`: what comes of reading a file.
- `Files.around`: a machine with some files in the current folder.
-/

namespace PackageGate.Simulation

/-- A file. -/
inductive File
  | text (content : String)
  /-- A file that is no text. -/
  | program
deriving DecidableEq, Inhabited

/-- The files of a machine and its folders, by their places. Where a file is, there are the
folders on the way to it. -/
structure Files where
  files : List (List String × File)
  folders : List (List String)
deriving Inhabited

namespace Files

/-- Why a path does not lead to what is looked for. -/
inductive Problem
  | missing
  | notFolder
  | tooLong
  | folder
  | denied
  | notText
deriving DecidableEq, Inhabited

/-- The text of what is wrong. -/
def Problem.message : Problem → String
  | .missing => Config.missingText
  | .notFolder => "Not a directory (os error 20)"
  | .tooLong => "File name too long (os error 36)"
  | .folder => "Is a directory (os error 21)"
  | .denied => "Permission denied (os error 13)"
  | .notText => "stream did not contain valid UTF-8"

/-- Whether a folder is at a place. -/
def hasFolder (t : Files) (place : List String) : Bool :=
  t.folders.any place.isPrefixOf || t.files.any fun (p, _) => place ≠ p && place.isPrefixOf p

/-- Whether anything is at a place. -/
def hasAny (t : Files) (place : List String) : Bool :=
  t.hasFolder place || (t.files.lookup place).isSome

/-- Follows names from a place on. A name has at most 255 bytes, and leads on from folders
only. -/
def walk (t : Files) (place : List String) : List String → Except Problem (List String)
  | [] => .ok place
  | s :: r =>
    if !t.hasFolder place then .error .notFolder
    else if s = "" || s = "." then walk t place r
    else if s = ".." then walk t place.dropLast r
    else if 255 < s.utf8ByteSize then .error .tooLong
    else if t.hasAny (place ++ [s]) then walk t (place ++ [s]) r
    else .error .missing

/-- The place that a path leads to, from the folder `here` if it does not begin at the root. A
path has fewer than 4096 bytes. -/
def find (t : Files) (here : List String) (path : String) : Except Problem (List String) :=
  if path = "" then .error .missing
  else if 4096 ≤ path.utf8ByteSize then .error .tooLong
  else
    t.walk (if path.toList.head? = some '/' then [] else here)
      ((Text.splitAt '/' path.toList).map String.ofList)

/-- The text of the file that a path leads to. -/
def content (t : Files) (here : List String) (path : String) : Except Problem String := do
  match t.files.lookup (← t.find here path) with
  | some (.text content) => return content
  | some .program => throw .notText
  | none => throw .folder

/-- What comes of reading a file. -/
def read (t : Files) (here : List String) (path : String) : Config.Source :=
  match t.content here path with
  | .ok content => .content content
  | .error .missing => .missing
  | .error why => .unreadable why.message

/-- The folders in which programs are. -/
def programFolders : List (List String) := [["bin"], ["usr", "bin"]]

/-- The shells of every machine. -/
def shellNames : List String := ["sh", "dash", "bash"]

/-- The programs of every machine. -/
def programNames : List String := shellNames ++ ["true", "false", "test", "[", "sleep"]

/-- What every machine has. -/
def standard : Files where
  files := (["dev", "null"], .text "") ::
    (["etc", "hosts"], .text "127.0.0.1 localhost\n") ::
    (["etc", "passwd"], .text "root:x:0:0:root:/root:/bin/sh\n") ::
    programFolders.flatMap fun f => programNames.map fun name => (f ++ [name], .program)
  folders := [
    ["boot"], ["home"], ["lib"], ["media"], ["mnt"], ["opt"], ["proc"], ["root"], ["run"],
    ["sbin"], ["srv"], ["sys"], ["tmp"], ["usr", "lib"], ["usr", "local"], ["usr", "share"],
    ["var"]]

/-- The current folder. -/
def here : List String := ["tmp", "work"]

/-- A machine with some files in the current folder; `input` is what is typed. -/
def around (files : List (String × String)) (input : String) : Files where
  files := (files.map fun (name, content) =>
      (here ++ (Text.splitAt '/' name.toList).map String.ofList, .text content)) ++
    (["dev", "stdin"], .text input) :: standard.files
  folders := here :: standard.folders

end Files

end PackageGate.Simulation
