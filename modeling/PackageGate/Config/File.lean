import PackageGate.Failure
import PackageGate.Yaml.Document
import PackageGate.Yaml.Value

/-!
# Configuration files

A configuration file is a YAML mapping. Every field may be left out or be null.

- `Config.File`: the fields of a file, and the names of those that are unknown.
- `Config.File.read?`: the file that a text writes.
- `Config.File.problem?`: the first reason to refuse what is written.
- `Config.File.load`: both together.
-/

namespace PackageGate.Config

/-- What a configuration file says. -/
structure File where
  npmRegistryUrl : Option String := none
  pypiRegistryUrl : Option String := none
  analysisServiceUrl : Option String := none
  analysisApiKey : Option String := none
  queueCapacity : Option Nat := none
  analysisWorkers : Option Nat := none
  maxConcurrentFetches : Option Nat := none
  scanTimeoutSecs : Option Nat := none
  rootFailurePolicy : Option String := none
  unknown : List String := []
deriving DecidableEq, Inhabited

/-- The names of the fields. -/
def fieldNames : List String := [
  "npm_registry_url", "pypi_registry_url", "analysis_service_url", "analysis_api_key",
  "queue_capacity", "analysis_workers", "max_concurrent_fetches", "scan_timeout_secs",
  "root_failure_policy"]

/-! ## Reading -/

/-- The entries of a file while it is being read: known fields with their nodes, and the
names of unknown ones. -/
structure Entries where
  known : List (String × Yaml.Node)
  unknown : List String

/-- The deepest nesting of collections inside a file's mapping. -/
def nesting : Nat := 127

/-- Reads one entry of the mapping. A known field must not be repeated; the value of an unknown
one only has to be a value. -/
def Entries.add (e : Entries) (d : Yaml.Document) (budget : Nat) (key value : Yaml.Node) :
    Option (Entries × Nat) := do
  let (key, budget) ← d.follow budget key
  match key with
  | .scalar _ _ name =>
    if fieldNames.contains name then
      if e.known.any (·.1 = name) then none
      let (node, budget) ← d.follow budget value
      return ({ e with known := (name, node) :: e.known }, budget)
    else
      let (_, budget) ← d.value? nesting budget value
      return ({ e with unknown := (e.unknown.filter (· ≠ name)) ++ [name] }, budget)
  | _ => none

/-- Reads the entries of a document: a mapping, or nothing at all. -/
def Entries.ofDocument (d : Yaml.Document) : Option Entries :=
  match d.root with
  | .mapping _ entries => do
    let (e, _) ← entries.foldlM
      (fun ((e : Entries), (budget : Nat)) (key, value) => e.add d budget key value)
      (⟨[], []⟩, d.budget)
    return e
  | .scalar _ .plain "" => some ⟨[], []⟩
  | _ => none

/-- Whether a node stands for nothing; refused if it is said to and does not. -/
def isAbsent : Yaml.Node → Option Bool
  | .scalar none .plain text => some (text.isEmpty || Yaml.isNull text)
  | .scalar (some tag) .plain text =>
    if tag ≠ Yaml.coreTag "null" then some false
    else if Yaml.isNull text then some true
    else none
  | _ => some false

/-- A text: any scalar, as it is written. -/
def textOf? : Yaml.Node → Option String
  | .scalar _ _ text => some text
  | _ => none

/-- A count: a plain scalar, or a literal one that is tagged as a whole number. -/
def countOf? : Yaml.Node → Option Nat
  | .scalar tag style text =>
    if style = .plain || (style = .literal && tag = some (Yaml.coreTag "int")) then
      Yaml.unsigned? (1 <<< 64) text
    else none
  | _ => none

/-- A field, read by `read` unless it is left out or stands for nothing. -/
def Entries.field? {α : Type} (e : Entries) (name : String) (read : Yaml.Node → Option α) :
    Option (Option α) :=
  match e.known.lookup name with
  | none => some none
  | some node => do
    if ← isAbsent node then return none
    return some (← read node)

namespace File

/-- The file with the given entries. -/
def ofEntries (e : Entries) : Option File := do
  return {
    npmRegistryUrl := ← e.field? "npm_registry_url" textOf?
    pypiRegistryUrl := ← e.field? "pypi_registry_url" textOf?
    analysisServiceUrl := ← e.field? "analysis_service_url" textOf?
    analysisApiKey := ← e.field? "analysis_api_key" textOf?
    queueCapacity := ← e.field? "queue_capacity" countOf?
    analysisWorkers := ← e.field? "analysis_workers" countOf?
    maxConcurrentFetches := ← e.field? "max_concurrent_fetches" countOf?
    scanTimeoutSecs := ← e.field? "scan_timeout_secs" countOf?
    rootFailurePolicy := ← e.field? "root_failure_policy" textOf?
    unknown := e.unknown }

/-- The file that a text writes. A text without a document is a file without fields. -/
def read? (text : String) : Option File := do
  match ← Yaml.Document.read? text with
  | none => return {}
  | some d => ofEntries (← Entries.ofDocument d)

/-! ## Checking -/

/-- The first count that is zero. -/
def zeroField? (f : File) : Option String :=
  ([("queue_capacity", f.queueCapacity), ("analysis_workers", f.analysisWorkers),
    ("max_concurrent_fetches", f.maxConcurrentFetches),
    ("scan_timeout_secs", f.scanTimeoutSecs)].find? (·.2 = some 0)).map (·.1)

/-- Whether a text starts like a URL of the web. -/
def isHttpUrl (url : String) : Bool :=
  "https://".toList.isPrefixOf url.toList || "http://".toList.isPrefixOf url.toList

/-- The first URL that is none of the web, with its field. -/
def strangeUrl? (f : File) : Option (String × String) :=
  [("npm_registry_url", f.npmRegistryUrl), ("pypi_registry_url", f.pypiRegistryUrl),
    ("analysis_service_url", f.analysisServiceUrl)].findSome? fun (field, url) =>
      (url.filter (!isHttpUrl ·)).map (field, ·)

/-- The policy, if it names none. -/
def strangePolicy? (f : File) : Option String :=
  f.rootFailurePolicy.filter fun text => (RootFailurePolicy.ofText? text).isNone

/-- The first reason to refuse a file: a count that is zero, then a URL that is none of the
web, then a policy that is none. -/
def problem? (f : File) : Option Problem :=
  (f.zeroField?.map Problem.zero).orElse fun _ =>
    (f.strangeUrl?.map fun (field, url) => Problem.notHttp field url).orElse fun _ =>
      f.strangePolicy?.map Problem.policy

/-- Loads the file with the content `text` from the place `path`. -/
def load (path text : String) : Except Failure File :=
  match read? text with
  | none => .error ((Failure.of .unreadableConfig).during (.parsingConfig path))
  | some f =>
    match f.problem? with
    | some why => .error (.of (.config why))
    | none => .ok f

end File

end PackageGate.Config
