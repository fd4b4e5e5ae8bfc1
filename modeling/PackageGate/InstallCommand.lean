import PackageGate.Manager
import PackageGate.Package.Requirement

/-!
# Install commands

A command of a package manager as the user typed it. Its arguments are kept as
they are; the guard only looks for the packages among them.

- `InstallCommand.arguments`: what the package manager is given: the action, then
  the arguments.
- `InstallCommand.packageArguments`: the arguments that name packages.
- `InstallCommand.rootPackages`: the packages they name.
-/

namespace PackageGate

/-- A package manager's command. -/
structure InstallCommand where
  manager : Manager
  action : String
  args : List String
deriving DecidableEq, Inhabited

namespace InstallCommand

/-- Whether the action installs packages. -/
def isInstall (c : InstallCommand) : Bool :=
  c.manager.installActions.contains c.action

/-- The action and its arguments, as typed. -/
def arguments (c : InstallCommand) : List String :=
  c.action :: c.args

/-- Whether an argument is a flag. -/
def isFlag (arg : String) : Bool :=
  arg.toList.head? = some '-'

/-- Whether the argument behind `flag` is its value. A flag written `--flag=value`
has its value already. -/
def takesValue (m : Manager) (flag : String) : Bool :=
  !flag.toList.contains '=' && m.valueFlags.contains flag

/-- The arguments that are neither flags nor the values of flags. -/
def packagesAmong (m : Manager) : List String → List String
  | [] => []
  | [arg] => if isFlag arg then [] else [arg]
  | arg :: next :: rest =>
    if isFlag arg then
      if takesValue m arg then packagesAmong m rest else packagesAmong m (next :: rest)
    else arg :: packagesAmong m (next :: rest)

/-- The arguments that name packages; none unless the action installs. -/
def packageArguments (c : InstallCommand) : List String :=
  if c.isInstall then packagesAmong c.manager c.args else []

/-- Reads a package argument as its ecosystem writes packages. -/
def readPackage (e : Ecosystem) (arg : String) : Except Package.SpecError Package :=
  match e with
  | .npm => Package.ofSpec arg
  | .pypi => Package.ofRequirement arg

/-- The packages that the command asks to install, or the first argument that
names none. -/
def rootPackages (c : InstallCommand) : Except Package.SpecError (List Package) :=
  c.packageArguments.mapM (readPackage c.manager.ecosystem)

end InstallCommand

end PackageGate
