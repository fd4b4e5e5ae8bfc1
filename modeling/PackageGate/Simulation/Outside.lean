import PackageGate.Gate.Machine
import PackageGate.Simulation.Schedule

/-!
# The outside of a run

- `Outside`: how registry, analysis service, user and package manager answer; `ω`
  is whatever their answers depend on.
- `Call`: a call that a run has sent and that is not answered yet. The caller is
  part of it, since two callers may ask the same thing.
-/

namespace PackageGate.Simulation

/-- How the outside answers. -/
structure Outside (ω : Type) where
  latest : String → ω → Response (Except Failure (Option String)) × ω
  manifest : Package → ω → Response (Except Failure Manifest) × ω
  submit : Package → ω → Response (Except Failure String) × ω
  report : String → ω → Response (Except Failure (Option Report)) × ω
  confirm : List Finding → ω → Except Failure String × ω
  install : String → List String → ω → Except Failure Int × ω

/-- A call of the analysis queue. -/
inductive QueueCall
  | submit (worker : Nat) (p : Package)
  | report (worker : Nat) (id : String)
deriving BEq

/-- A call of a run. -/
inductive Call
  | latest (name : String)
  | manifest (i t : Nat) (p : Package)
  | analysis (c : QueueCall)
  | confirm (flagged : List Finding)
  | install (program : String) (args : List String)
deriving BEq

/-- The requests of the explorer that are out. -/
def manifestCalls (e : Explorer) : List (Nat × Nat × Package) :=
  e.walks.zipIdx.flatMap fun (w, i) =>
    w.tasks.filterMap fun u => match u.phase with
      | .calling => some (i, u.id, u.package)
      | _ => none

/-- The requests of the workers that are out. -/
def queueCalls (q : Queue) : List QueueCall :=
  q.workers.zipIdx.filterMap fun (s, w) => match s with
    | .submitting _ p => some (.submit w p)
    | .reporting _ _ id => some (.report w id)
    | _ => none

/-- The step that a task takes by itself. -/
def taskMove (e : Explorer) (i : Nat) (u : Walk.Task) : Option Explorer.Label :=
  if u.aborted then some (.walk i (.discard u.id))
  else
    match u.phase with
    | .spawned => some (.walk i (.start u.id))
    | .queued =>
      if (e.remembered? u.package).isSome then some (.recall i u.id)
      else some (.walk i (.request u.id))
    | .calling => none
    | .joining _ => some (.walk i (.finish u.id))
    | .done _ => some (.walk i (.join u.id))

/-- The steps that the tasks take by themselves, older tasks first. -/
def taskMoves (e : Explorer) : List Explorer.Label :=
  e.walks.zipIdx.flatMap fun (w, i) => w.tasks.filterMap (taskMove e i)

/-- The steps that caller and workers take by themselves. -/
def queueMoves (q : Queue) : List Queue.Label :=
  [.offer, .settle, .closed] ++ q.workers.zipIdx.flatMap fun (s, w) => match s with
    | .waiting => [.listen w]
    | .receiving => [.take w, .leave w]
    | .submitting _ _ | .reporting _ _ _ => [.abort w]
    | .exited => []

/-- Sends a call of a worker. -/
def askQueue {ω : Type} (outside : Outside ω) (c : QueueCall) (world : ω) :
    Response Queue.Label × ω :=
  match c with
  | .submit w p =>
    let (response, world) := outside.submit p world
    (response.map (.submitted w), world)
  | .report w id =>
    let (response, world) := outside.report id world
    (response.map (.reported w), world)

end PackageGate.Simulation
