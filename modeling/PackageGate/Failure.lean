import PackageGate.Config.Problem
import PackageGate.Fault
import PackageGate.Http.Component
import PackageGate.Http.Status
import PackageGate.InstallCommand

/-!
# Failures

A failure is a cause and what was being done when it arose.

- `Cause`: every reason for which something fails, with its text.
- `Context`: what was being done, with its text.
- `Failure`: a cause under contexts, the outermost first.
- `Failure.text`: the whole chain in one line; `Failure.outer`: its outermost text.
- `Failure.exitCode`: a malformed package argument is the caller's mistake,
  everything else an application error.
-/

namespace PackageGate

/-- Why something fails. -/
inductive Cause
  | fault (f : Fault)
  | package (why : Package.Invalid)
  | component (label : String) (why : Http.Component.Problem)
  | config (why : Config.Problem)
  | unknownPolicy (text : String)
  | unreadableConfig
  | noAnalysisService
  | allRootsFailed (count : Nat)
  | promptClosed
  | packageMissing (e : Ecosystem) (name : String)
  | versionMissing (e : Ecosystem) (name version : String)
  | registryStatus (s : Http.Status)
  | malformedReply (url : String)
  | analysisStatus (s : Http.Status) (shown : String)
  | reportStatus (s : Http.Status) (id : String)
  | undecodable (url : String)
  | malformedHeader
  | told (text : String)
deriving DecidableEq, Inhabited

namespace Cause

/-- How an ecosystem's registry is spoken of. -/
def place : Ecosystem → String
  | .npm => "in the npm registry"
  | .pypi => "on PyPI"

/-- What is said of a reply whose body does not have the form asked for. -/
def undecodableText (url : String) : String :=
  s!"error decoding response body for url ({url})"

/-- The text of a cause. -/
def message : Cause → String
  | fault f => f.message
  | package why => why.message
  | component label why => why.message label
  | config why => why.message
  | unknownPolicy text => RootFailurePolicy.unknown text
  | unreadableConfig => "the file does not describe a configuration"
  | noAnalysisService =>
    Text.withHint "No malware analysis service configured."
      ("Set analysis_service_url in pmguard.config.yml or the PMGUARD_ANALYSIS_URL " ++
        "environment variable.")
  | allRootsFailed count =>
    s!"All {count} requested package(s) failed to scan; refusing to install unverified packages"
  | promptClosed => "No confirmation received: standard input is closed"
  | packageMissing e name => s!"Package {name} was not found {place e}"
  | versionMissing e name version => s!"Version {version} of {name} was not found {place e}"
  | registryStatus s => s!"Registry returned status code {s.text}"
  | malformedReply url => s!"Malformed registry response: {undecodableText url}"
  | analysisStatus s shown =>
    s!"Analysis service returned status code {s.text} for {shown}"
  | reportStatus s id => s!"Analysis service returned status code {s.text} for analysis {id}"
  | undecodable url => undecodableText url
  | malformedHeader => "failed to parse header value"
  | told text => text

end Cause

/-- What was being done when a failure arose. -/
inductive Context
  | scanning (root : String)
  | running (program : String)
  | readingConfig (path : String)
  | parsingConfig (path : String)
  | building
  | buildingFor (url : String)
  | sending (url : String)
  | transport (layer : String)
deriving DecidableEq

/-- The text of a context. -/
def Context.message : Context → String
  | scanning root => s!"Scan of {root} failed"
  | running program => s!"Failed to run {program}"
  | readingConfig path =>
    Text.withHint s!"Failed to read config file: {path}"
      "Check that the file exists and is readable."
  | parsingConfig path =>
    Text.withHint s!"Failed to parse config file: {path}"
      "Ensure the file contains valid YAML syntax."
  | building => "builder error"
  | buildingFor url => s!"builder error for url ({url})"
  | sending url => s!"error sending request for url ({url})"
  | transport layer => layer

/-- A cause, and what was being done, outermost first. -/
structure Failure where
  contexts : List Context
  cause : Cause
deriving DecidableEq, Inhabited

namespace Failure

/-- A failure with nothing around its cause. -/
def of (c : Cause) : Failure := ⟨[], c⟩

/-- A fault with nothing around it. -/
def ofFault (f : Fault) : Failure := of (.fault f)

/-- The failure while something more was being done. -/
def during (e : Failure) (c : Context) : Failure := ⟨c :: e.contexts, e.cause⟩

/-- The texts of a failure, outermost first. -/
def messages (e : Failure) : List String :=
  e.contexts.map Context.message ++ [e.cause.message]

/-- The whole chain in one text. -/
def text (e : Failure) : String := ": ".intercalate e.messages

/-- The outermost text. -/
def outer (e : Failure) : String := e.messages.headD ""

/-- The fault at the bottom, if it is one. -/
def fault? (e : Failure) : Option Fault :=
  match e.cause with
  | .fault f => some f
  | _ => none

/-- Whether a package argument was malformed. -/
def isInvalidSpec (e : Failure) : Bool :=
  match e.cause with
  | .fault (.invalidSpec _ _) => true
  | _ => false

/-- What a run that fails ends with. -/
def exitCode (e : Failure) : ExitCode :=
  if e.isInvalidSpec then .invalidArguments else .applicationError

end Failure

/-- The failure of a package that cannot be read. -/
def Package.SpecError.failure : Package.SpecError → Failure
  | .malformed spec why => .ofFault (.invalidSpec spec why.reason)
  | .invalid why => .of (.package why)

end PackageGate
