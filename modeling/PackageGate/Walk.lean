import PackageGate.DependencyTree
import PackageGate.Package.Specifier
import PackageGate.Registry.Memo
import PackageGate.Visits

/-!
# The walk of one root

The dependencies of a root are found by tasks, one for every declared edge, that
run side by side. A task claims its key, asks the registry, starts a task for
every dependency of the answer and waits for them. This module gives the steps
that the tasks of one walk can take; a run takes them in any order.

- `Walk.Phase`: where a task stands; a step of a task is a change of its phase.
- `Walk.Label`, `Walk.step`: the steps, and what each does to the walk.
- `Walk.result?`: what the walk has found, once its root task is done.

A task whose parent is gone is *aborted*: it takes no step but its own removal,
which aborts its children in turn.
-/

namespace PackageGate

namespace Walk

/-- Where a task stands. -/
inductive Phase
  /-- Not begun. -/
  | spawned
  /-- Its key is claimed; it waits for a permit. -/
  | queued
  /-- It holds a permit, and its request is out. -/
  | calling
  /-- It waits for the tasks of its dependencies; `node` holds those that have come in. -/
  | joining (node : Tree)
  /-- It is done, and its parent has not taken the result yet. -/
  | done (result : Except Failure Tree)

/-- A task of a walk. The root task has no parent. -/
structure Task where
  id : Nat
  parent : Option Nat
  package : Package
  phase : Phase
  aborted : Bool

/-- A step of a walk. `t` is the task that takes it. -/
inductive Label
  /-- Claims the key, or finds it claimed. -/
  | start (t : Nat)
  /-- Takes a permit and sends the request. -/
  | request (t : Nat)
  /-- Receives the answer. -/
  | answer (t : Nat) (reply : Except Failure Manifest)
  /-- Hands the result to the parent. -/
  | join (t : Nat)
  /-- Sees that every dependency has come in. -/
  | finish (t : Nat)
  /-- The walk as a whole is given up: its root task is removed. -/
  | cancel
  /-- An aborted task is removed. -/
  | discard (t : Nat)

end Walk

/-- The tasks of one root's walk, in the order in which they were started, and
the keys that they have claimed. -/
structure Walk where
  visits : Visits
  tasks : List Walk.Task
  spawned : Nat

namespace Walk

/-- The number of the root task. -/
def rootId : Nat := 0

/-- The walk of `root` before its first step. -/
def ofRoot (root : Package) : Walk where
  visits := .empty
  tasks := [⟨rootId, none, root, .spawned, false⟩]
  spawned := 1

/-- The task with the number `t`. -/
def task? (w : Walk) (t : Nat) : Option Task :=
  w.tasks.find? (·.id == t)

/-- The task with the number `t`, unless it is aborted. -/
def running? (w : Walk) (t : Nat) : Option Task :=
  (w.task? t).filter (!·.aborted)

/-- Moves a task to another phase. -/
def setPhase (w : Walk) (t : Nat) (phase : Phase) : Walk :=
  { w with tasks := w.tasks.map fun u => if u.id = t then { u with phase } else u }

/-- Removes a task and aborts its children. -/
def drop (w : Walk) (t : Nat) : Walk :=
  { w with
    tasks := (w.tasks.filter (·.id ≠ t)).map fun u =>
      if u.parent = some t then { u with aborted := true } else u }

/-- Starts a task for each package, as children of `parent`. -/
def spawn (w : Walk) (parent : Nat) (packages : List Package) : Walk :=
  { w with
    tasks := w.tasks ++ (packages.zipIdx w.spawned).map fun (p, i) =>
      ⟨i, some parent, p, .spawned, false⟩
    spawned := w.spawned + packages.length }

/-- The package that a declared dependency asks for, if it is one. -/
def edgePackage? (name range : String) : Option Package :=
  (Package.make name (Specifier.ofEdge range)).toOption

/-- The packages that a manifest depends on. -/
def edgePackages (m : Manifest) : List Package :=
  m.dependencies.filterMap fun (name, range) => edgePackage? name range

/-- The package that an answer is about: the one asked for, in the version that
the answer names, if it names one. -/
def resolvedPackage (asked : Package) (m : Manifest) : Package :=
  if m.version.isEmpty then asked else asked.withVersion m.version

/-- A task begins: the first to claim its key waits for a permit, a later one
leaves the package to that task. -/
def start (w : Walk) (u : Task) : Walk :=
  let (isNew, visits) := w.visits.mark u.package.key
  if isNew then { w with visits }.setPhase u.id .queued
  else w.setPhase u.id (.done (.ok (.stub u.package)))

/-- A task expands the package that its request was answered with. -/
def expand (w : Walk) (u : Task) (resolved : Package) (m : Manifest) : Walk :=
  (w.setPhase u.id (.joining (.leaf resolved))).spawn u.id (edgePackages m)

/-- A task receives the answer to its request. An answer for another version than
was asked for claims that version's key too, and a task that finds it claimed
leaves the package to its owner. -/
def receive (w : Walk) (u : Task) : Except Failure Manifest → Walk
  | .error e => w.setPhase u.id (.done (.error (.ofFault (.fetch u.package.key e.text))))
  | .ok m =>
    let resolved := resolvedPackage u.package m
    if resolved.key = u.package.key then w.expand u resolved m
    else
      let visits := w.visits.recordResolution u.package.key resolved.version
      let (isNew, visits) := visits.mark resolved.key
      if isNew then { w with visits }.expand u resolved m
      else { w with visits }.setPhase u.id (.done (.ok (.stub resolved)))

/-- A task's result comes in at its parent; a failed one leaves nothing behind. -/
def handOver (w : Walk) (t parent : Nat) (node : Tree) (result : Except Failure Tree) : Walk :=
  let node := match result with
    | .ok child => node.attach child
    | .error _ => node
  { w with tasks := w.tasks.filter (·.id ≠ t) }.setPhase parent (.joining node)

/-- The walk after a step, if the step is possible. -/
def step (w : Walk) : Label → Option Walk
  | .start t =>
    match w.running? t with
    | some u => match u.phase with
      | .spawned => some (w.start u)
      | _ => none
    | none => none
  | .request t =>
    match w.running? t with
    | some u => match u.phase with
      | .queued => some (w.setPhase t .calling)
      | _ => none
    | none => none
  | .answer t reply =>
    match w.running? t with
    | some u => match u.phase with
      | .calling => some (w.receive u reply)
      | _ => none
    | none => none
  | .join t =>
    match w.running? t with
    | some u => match u.phase, u.parent with
      | .done result, some p =>
        match w.running? p with
        | some v => match v.phase with
          | .joining node => some (w.handOver t p node result)
          | _ => none
        | none => none
      | _, _ => none
    | none => none
  | .finish t =>
    match w.running? t with
    | some u => match u.phase with
      | .joining node =>
        if w.tasks.any (·.parent = some t) then none
        else some (w.setPhase t (.done (.ok node)))
      | _ => none
    | none => none
  | .cancel =>
    match w.running? rootId with
    | some u => match u.phase with
      | .done _ => none
      | _ => some (w.drop rootId)
    | none => none
  | .discard t =>
    match w.task? t with
    | some u => if u.aborted then some (w.drop t) else none
    | none => none

/-- What the walk has found, once its root task is done. -/
def result? (w : Walk) : Option (Except Failure Tree) :=
  match w.running? rootId with
  | some u => match u.phase with
    | .done result => some result
    | _ => none
  | none => none

/-- Whether the task `t` holds a permit. -/
def isCalling (w : Walk) (t : Nat) : Bool :=
  match w.task? t with
  | some u => match u.phase with
    | .calling => true
    | _ => false
  | none => false

/-- The tree of a finished walk: stubs get the version that their key resolved to. -/
def settle (w : Walk) (t : Tree) : Tree :=
  t.resolveStubs w.visits.resolution?

end Walk

end PackageGate
