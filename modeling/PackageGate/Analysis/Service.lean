import PackageGate.Http.Exchange
import PackageGate.Report

/-!
# The analysis service

The service is asked once: a package whose analysis fails stays unverified.

- `Analysis.Service`: the service at a base URL, with the key that authorizes requests.
- `Analysis.Service.submit`: hands a package in, and gets the id of its analysis.
- `Analysis.Service.report`: asks for the report of an analysis, if there is one yet.
-/

namespace PackageGate.Analysis

/-- The service at a base URL. -/
structure Service where
  base : String
  key : Option String
deriving DecidableEq, Inhabited

namespace Service

variable {ω : Type}

/-- The service at a configured URL. A blank key is none. -/
def ofUrl (url : String) (key : Option String) : Service :=
  ⟨Http.trimBase url, Text.unlessBlank key⟩

/-- The request that hands a package in. -/
def submission (s : Service) (e : Ecosystem) (p : Package) : Http.Request where
  method := .post
  url := ⟨s.base, ["v1", "analyze"]⟩
  bearer := s.key
  body := some [("ecosystem", e.name), ("name", p.name), ("version", p.version)]

/-- The request for the report of an analysis. -/
def inquiry (s : Service) (id : String) : Except Failure Http.Request := do
  Http.Component.check "Analysis id" id
  return ⟨.get, ⟨s.base, ["v1", "reports", Http.Component.encode id]⟩, s.key, none⟩

/-- Reads the id of an analysis. -/
def readId (v : Json.Value) : Option String := do
  let fields ← v.record? ["analysis_id"]
  Json.Value.field? fields "analysis_id" none (·.text?)

/-- Reads a document that has arrived. -/
def decode {α : Type} (url : Http.Url) (read : Json.Value → Option α) (body : String) :
    Except Failure α :=
  match (Json.read? body).bind read with
  | some a => .ok a
  | none => .error (.of (.undecodable url.text))

/-- The id in the answer to a submission. -/
def readSubmission (url : Http.Url) (p : Package) (status : Http.Status) (body : String) :
    Except Failure String :=
  if status.isSuccess then decode url readId body
  else .error (.of (.analysisStatus status p.display))

/-- The report in the answer to an inquiry. -/
def readReport (url : Http.Url) (id : String) (status : Http.Status) (body : String) :
    Except Failure (Option Report) :=
  if status.code = 404 then .ok none
  else if status.isSuccess then (decode url Report.ofJson? body).map some
  else .error (.of (.reportStatus status id))

/-- Hands a package in. -/
def submit (t : Http.Transport ω) (s : Service) (e : Ecosystem) (p : Package) (world : ω) :
    Except Failure String × ω :=
  let request := s.submission e p
  let (answer, world) := Http.send t request world
  (answer.bind fun (status, body) => readSubmission request.url p status body, world)

/-- Asks for the report of an analysis. -/
def report (t : Http.Transport ω) (s : Service) (id : String) (world : ω) :
    Except Failure (Option Report) × ω :=
  match s.inquiry id with
  | .error why => (.error why, world)
  | .ok request =>
    let (answer, world) := Http.send t request world
    (answer.bind fun (status, body) => readReport request.url id status body, world)

end Service

end PackageGate.Analysis
