import PackageGate.Config.File
import PackageGate.Registry
import PackageGate.Settings

/-!
# The configuration of a run

Command line, environment, file and defaults say what a run is to do, the first
of them that says anything.

- `Config.Overrides`: what the command line says.
- `Config.resolve`: the configuration that results; refused when a number is zero.
- `Config.requiredServiceUrl`: the analysis service, which every scan needs.
-/

namespace PackageGate

/-- What the command line says about a run. -/
structure Config.Overrides where
  queueCapacity : Option Nat := none
  analysisWorkers : Option Nat := none
  scanTimeoutSecs : Option Nat := none
  skipsFailedRoots : Bool := false
deriving DecidableEq, Inhabited

/-- The configuration of a run. -/
structure Config where
  npmRegistryUrl : String
  pypiRegistryUrl : String
  analysisServiceUrl : Option String
  analysisApiKey : Option String
  settings : Settings
deriving DecidableEq, Inhabited

namespace Config

/-- The name of the file that is looked for. -/
def fileName : String := "pmguard.config.yml"

/-- The environment variable with the key of the analysis service. -/
def apiKeyVariable : String := "PMGUARD_API_KEY"

/-- The environment variable with the URL of the analysis service. -/
def serviceUrlVariable : String := "PMGUARD_ANALYSIS_URL"

/-- The policy that command line and file ask for. -/
def policyOf (o : Overrides) (f : File) : Except Failure RootFailurePolicy :=
  if o.skipsFailedRoots then .ok .skipRoot
  else
    match f.rootFailurePolicy with
    | none => .ok .failFast
    | some text =>
      match RootFailurePolicy.ofText? text with
      | some policy => .ok policy
      | none => .error (.of (.unknownPolicy text))

/-- The settings that command line and file ask for. -/
def settingsOf (o : Overrides) (f : File) (policy : RootFailurePolicy) : Settings where
  queueCapacity := (o.queueCapacity.or f.queueCapacity).getD 100
  analysisWorkers := (o.analysisWorkers.or f.analysisWorkers).getD 10
  maxConcurrentFetches := f.maxConcurrentFetches.getD 32
  scanTimeout := 1000 * (o.scanTimeoutSecs.or f.scanTimeoutSecs).getD 300
  policy := policy

/-- The first of two texts that is not blank. -/
def firstText (a b : Option String) : Option String :=
  (Text.unlessBlank a).or (Text.unlessBlank b)

/-- The configuration of a run. `env` looks up environment variables. -/
def resolve (o : Overrides) (file : Option File) (env : String → Option String) :
    Except Failure Config := do
  let f := file.getD {}
  let settings := settingsOf o f (← policyOf o f)
  match settings.check with
  | .error fault => throw (.ofFault fault)
  | .ok _ =>
    return {
      npmRegistryUrl := f.npmRegistryUrl.getD (Registry.publicUrl .npm)
      pypiRegistryUrl := f.pypiRegistryUrl.getD (Registry.publicUrl .pypi)
      analysisServiceUrl := firstText (env serviceUrlVariable) f.analysisServiceUrl
      analysisApiKey := firstText (env apiKeyVariable) f.analysisApiKey
      settings }

/-- The URL of the analysis service; there has to be one. -/
def requiredServiceUrl (c : Config) : Except Failure String :=
  match c.analysisServiceUrl with
  | some url => .ok url
  | none => .error (.of .noAnalysisService)

/-- The registry of an ecosystem. -/
def registry (c : Config) : Ecosystem → Registry
  | .npm => .ofUrl .npm c.npmRegistryUrl
  | .pypi => .ofUrl .pypi c.pypiRegistryUrl

end Config

end PackageGate
