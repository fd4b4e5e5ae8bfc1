/-!
# Ecosystems and package managers

- `Ecosystem`: the registries that packages live in.
- `Manager`: the package managers that can be fronted, with what is known of
  their command lines: which actions install, and which flags take a value.
-/

namespace PackageGate

/-- A registry that packages live in. -/
inductive Ecosystem
  | npm
  | pypi
deriving DecidableEq, Inhabited

/-- The name of a registry, in messages and in requests. -/
def Ecosystem.name : Ecosystem → String
  | .npm => "npm"
  | .pypi => "pypi"

/-- A package manager that can be fronted. -/
inductive Manager
  | npm
  | pnpm
  | yarn
  | pip
  | pip3
deriving DecidableEq, Inhabited

namespace Manager

/-- Every package manager, in the order in which they are listed to the user. -/
def all : List Manager := [npm, pnpm, yarn, pip, pip3]

/-- The program that is started. -/
def program : Manager → String
  | npm => "npm"
  | pnpm => "pnpm"
  | yarn => "yarn"
  | pip => "pip"
  | pip3 => "pip3"

/-- The package manager of that name. -/
def ofName? (name : String) : Option Manager :=
  all.find? (·.program == name)

/-- What is said of a name that is no package manager's. -/
def unsupported (name : String) : String :=
  s!"Unsupported package manager: {name}. Please specify one of npm, pnpm, yarn, pip, pip3"

/-- Where the packages of a package manager come from. -/
def ecosystem : Manager → Ecosystem
  | npm | pnpm | yarn => .npm
  | pip | pip3 => .pypi

/-- The actions that install packages. -/
def installActions : Manager → List String
  | npm | pnpm => ["install", "i", "add"]
  | yarn => ["add"]
  | pip | pip3 => ["install"]

/-- The flags whose next argument is a value and no package. -/
def valueFlags : Manager → List String
  | npm | pnpm | yarn => ["--registry", "--tag"]
  | pip | pip3 =>
    ["-r", "--requirement", "-c", "--constraint", "-e", "--editable", "-i", "--index-url",
     "--extra-index-url"]

end Manager

end PackageGate
