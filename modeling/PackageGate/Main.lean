import PackageGate.Simulation.Host

/-!
# The command

Runs the program with the arguments, the configuration file and the environment of
its process. Neither a network nor package managers can be reached from here: what
needs them fails as on a machine that has none.
-/

namespace PackageGate

/-- Reads a file. -/
def readSource (path : String) : IO Config.Source := do
  try
    return .content (← IO.FS.readFile path)
  catch
    | .noFileOrDirectory _ _ _ => return .missing
    | e => return .unreadable (toString e)

/-- The machine that the process runs on, as far as a command line asks for it. -/
def processHost (args : List String) : IO Simulation.Host := do
  let path := match CommandLine.read args with
    | .ok args => args.options.config.getD Config.defaultPath
    | .error _ => Config.defaultPath
  let source ← readSource path
  let serviceUrl ← IO.getEnv Config.serviceUrlVariable
  let apiKey ← IO.getEnv Config.apiKeyVariable
  return {
    read := fun _ => source
    env := fun name => if name = Config.serviceUrlVariable then serviceUrl else apiKey
    input := ""
    programs := [] }

end PackageGate

/-- Runs the program. -/
def main (args : List String) : IO UInt32 := do
  let host ← PackageGate.processHost args
  let transcript := host.run args
  IO.print transcript.output
  IO.eprint transcript.errors
  return UInt32.ofNat (transcript.code % 256).toNat
