import PackageGate.Walk

/-!
# Walks under one limit of requests

All walks of a run share a fixed number of permits, and every request holds one
from the moment it is sent until its answer is in. They also share the counter
of answers and, if answers are remembered, the memo.

- `Explorer.Label`, `Explorer.step`: a step of one of the walks, with its effect
  on permits, counter and memo.
- `Explorer.begin`: a new walk.

A remembered answer takes a permit too, but gives it back in the same step and
sends nothing. The limit is a number without a bound; it is assumed that a semaphore can
hold as many permits.
-/

namespace PackageGate

/-- The walks of a run and what they share. -/
structure Explorer where
  free : Nat
  walks : List Walk
  fetched : Nat
  memo : Option Memo
  requests : List Package

namespace Explorer

/-- A step of the explorer. -/
inductive Label
  /-- The walk with the number `i` takes a step. -/
  | walk (i : Nat) (l : Walk.Label)
  /-- A task finds the answer to its request in the memo. -/
  | recall (i t : Nat)

/-- No walk yet. A limit of zero counts as one. -/
def ofLimit (limit : Nat) (memo : Option Memo) : Explorer where
  free := max 1 limit
  walks := []
  fetched := 0
  memo := memo
  requests := []

/-- The number of the walk that is begun next. -/
def nextWalk (e : Explorer) : Nat := e.walks.length

/-- Begins the walk of `root`. -/
def begin (e : Explorer) (root : Package) : Explorer :=
  { e with walks := e.walks ++ [Walk.ofRoot root] }

/-- The remembered answer for a package. -/
def remembered? (e : Explorer) (p : Package) : Option Manifest :=
  e.memo.bind (·.manifest? p)

/-- The package of a task. -/
def package? (e : Explorer) (i t : Nat) : Option Package := do
  let w ← e.walks[i]?
  let u ← w.task? t
  return u.package

/-- Whether an answer is a success. -/
def isAnswer : Except Failure Manifest → Bool
  | .ok _ => true
  | .error _ => false

/-- The explorer after a step, if the step is possible. -/
def step (e : Explorer) : Label → Option Explorer
  | .walk i l => do
    let w ← e.walks[i]?
    let w' ← w.step l
    let e' := { e with walks := e.walks.set i w' }
    match l with
    | .request t =>
      let p ← e.package? i t
      if e.free = 0 || (e.remembered? p).isSome then none
      else some { e' with free := e.free - 1, requests := e.requests ++ [p] }
    | .answer t reply =>
      let p ← e.package? i t
      some { e' with
        free := e.free + 1
        fetched := e.fetched + (if isAnswer reply then 1 else 0)
        memo := e.memo.map (·.keepManifest p reply) }
    | .cancel => some { e' with free := e.free + (if w.isCalling Walk.rootId then 1 else 0) }
    | .discard t => some { e' with free := e.free + (if w.isCalling t then 1 else 0) }
    | _ => some e'
  | .recall i t => do
    let p ← e.package? i t
    let m ← e.remembered? p
    let w ← e.walks[i]?
    let w ← w.step (.request t)
    let w ← w.step (.answer t (.ok m))
    if e.free = 0 then none
    else some { e with walks := e.walks.set i w, fetched := e.fetched + 1 }

/-- What the walk with the number `i` has found, once it is done. -/
def result? (e : Explorer) (i : Nat) : Option (Except Failure Tree) := do
  (← e.walks[i]?).result?

end Explorer

end PackageGate
