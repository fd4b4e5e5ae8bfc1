import PackageGate.Json.Reader
import PackageGate.Json.Record
import PackageGate.Package

/-!
# Reports and verdicts

The analysis service answers a submission with a report. A report without an
inference decides nothing: the package stays unverified.

- `Report.read?`: the report that a JSON text writes.
- `Report.verdict?`: what a report says of a package.
-/

namespace PackageGate

/-- What the service concluded about a package. -/
structure Inference where
  isMalicious : Bool
  summary : String
deriving DecidableEq, Inhabited

/-- The report on one submission. -/
structure Report where
  inference : Option Inference
deriving DecidableEq, Inhabited

/-- What is known of one analyzed package. -/
structure Verdict where
  package : Package
  isMalicious : Bool
  summary : String
deriving DecidableEq

/-- Reads an inference: not malicious and without a summary unless it says so. -/
def Inference.ofJson? (v : Json.Value) : Option Inference := do
  let fields ← v.record? ["is_malicious", "summary"]
  let isMalicious ← Json.Value.field? fields "is_malicious" (some false) (·.flag?)
  let summary ← Json.Value.field? fields "summary" (some "") (·.text?)
  return { isMalicious, summary }

/-- Reads a report; an inference that is missing or null is none. -/
def Report.ofJson? (v : Json.Value) : Option Report := do
  let fields ← v.record? ["inference"]
  let inference ←
    Json.Value.field? fields "inference" (some none) (·.optional? Inference.ofJson?)
  return { inference }

/-- Reads the text of a report. -/
def Report.read? (text : String) : Option Report := do
  Report.ofJson? (← Json.read? text)

/-- A report that finds nothing. -/
def Report.benign : Report := ⟨some ⟨false, ""⟩⟩

/-- What a report says of a package, if it says anything. -/
def Report.verdict? (r : Report) (p : Package) : Option Verdict :=
  r.inference.map fun i => ⟨p, i.isMalicious, i.summary⟩

end PackageGate
