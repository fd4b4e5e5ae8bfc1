import PackageGate.Simulation.Outside

/-!
# Scripted surroundings

A script says in advance how each question is answered. Successive calls with the
same question get successive answers, and the last answer is repeated.

- `Script`: answers by question.
- `Surroundings`: scripts for registry and analysis service, an answer of the
  user and an exit code, with a log of everything that was asked.
- `Surroundings.outside`: the answers of such surroundings.
-/

namespace PackageGate.Simulation

/-- The answers to come, by question. -/
structure Script (α : Type) where
  entries : List (String × List (Response α))

namespace Script

variable {α : Type}

/-- The answers that are left behind the first one; the last answer stays. -/
def behind : List (Response α) → List (Response α)
  | [] => []
  | [r] => [r]
  | _ :: rest => rest

/-- The next answer to a question, or `default` where none is scripted. -/
def take (s : Script α) (question : String) (default : Response α) : Response α × Script α :=
  match s.entries.lookup question with
  | some (r :: rest) =>
    (r, ⟨s.entries.map fun (q, rs) => if q = question then (q, behind (r :: rest)) else (q, rs)⟩)
  | _ => (default, s)

end Script

/-- Surroundings in which every answer is known in advance. -/
structure Surroundings where
  ecosystem : Ecosystem
  latest : Script (Except Failure (Option String))
  manifests : Script (Package → Except Failure Manifest)
  submissions : Script (Except Failure String)
  reports : Script (Except Failure (Option Report))
  answer : Except Failure String
  exit : Except Failure Int
  latestLog : List String
  manifestLog : List String
  submitLog : List String
  reportLog : List String

namespace Surroundings

/-- A failure that something outside tells about. -/
def told (text : String) : Failure := .of (.told text)

/-- Asks for the newest version of `name`. -/
def askLatest (name : String) (s : Surroundings) :
    Response (Except Failure (Option String)) × Surroundings :=
  let (r, latest) := s.latest.take name (.after 0 (.error (told s!"{name} not found")))
  (r, { s with latest, latestLog := s.latestLog ++ [name] })

/-- Asks for the manifest of a package. -/
def askManifest (p : Package) (s : Surroundings) :
    Response (Except Failure Manifest) × Surroundings :=
  let (r, manifests) :=
    s.manifests.take p.key (.after 0 fun p => .error (told s!"{p.key} not found"))
  (r.map (· p), { s with manifests, manifestLog := s.manifestLog ++ [p.key] })

/-- Submits a package for analysis. The service knows it by its key unless it says otherwise. -/
def askSubmit (p : Package) (s : Surroundings) :
    Response (Except Failure String) × Surroundings :=
  let (r, submissions) := s.submissions.take p.key (.after 0 (.ok p.key))
  (r, { s with submissions, submitLog := s.submitLog ++ [s!"{s.ecosystem.name}:{p.key}"] })

/-- Asks for a report. A package that nothing is said about is benign. -/
def askReport (id : String) (s : Surroundings) :
    Response (Except Failure (Option Report)) × Surroundings :=
  let (r, reports) := s.reports.take id (.after 0 (.ok (some .benign)))
  (r, { s with reports, reportLog := s.reportLog ++ [id] })

/-- The answers of scripted surroundings. -/
def outside : Outside Surroundings where
  latest := askLatest
  manifest := askManifest
  submit := askSubmit
  report := askReport
  confirm _ s := (s.answer, s)
  install _ _ s := (s.exit, s)

end Surroundings

/-- The answer of a response, when nothing is waited for. -/
def Response.answer? {α : Type} : Response α → Option α
  | .after _ a => some a
  | .never => none

end PackageGate.Simulation
