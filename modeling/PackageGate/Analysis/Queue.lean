import PackageGate.Failure
import PackageGate.Findings
import PackageGate.Report

/-!
# The analysis queue

Packages wait in a bounded channel for a fixed number of workers. A worker takes
an item, submits its package to the analysis service, asks for the report and
records a malicious verdict. A caller puts keys into the channel, waits until
everything is done, and gives up when its time has passed.

Giving up starts a new *epoch*. Items of an older epoch are discarded when they
are taken, aborted when they are in work, and their verdicts are not recorded. A caller
whose time has passed may give up while it puts keys into the channel, even where there
is a free place, and while it waits for something that is not done.

Capacity, number of workers and the counters are numbers without a bound. It is assumed
that they fit a machine word, and that a channel of the capacity can be had.

- `Queue.Label`, `Queue.step`: the steps of caller and workers; a run takes them
  in any order.
- `Queue.Worker`, `Queue.Caller`: where a worker and the caller stand.
- `Queue.pending`: the items that are waiting or in work, by count.
-/

namespace PackageGate

namespace Queue

/-- A key that waits for its analysis, with the epoch in which it was put there. -/
structure Item where
  key : String
  epoch : Nat
deriving DecidableEq

/-- Where a worker stands. -/
inductive Worker
  /-- It waits for its turn at the channel. -/
  | waiting
  /-- It has its turn and waits for an item. -/
  | receiving
  /-- Its submission is out. -/
  | submitting (item : Item) (package : Package)
  /-- Its request for the report is out. -/
  | reporting (item : Item) (package : Package) (id : String)
  /-- It has seen the closed channel empty. -/
  | exited
deriving DecidableEq

/-- What a caller can ask for. -/
inductive Call
  | enqueue (key : String)
  | drain
  | analyzeAll (keys : List String)
  | shutdown
deriving DecidableEq

/-- How a call ends. -/
inductive Ending
  | finished
  | cancelled
  | abandoned
deriving DecidableEq

/-- Where the caller stands. -/
inductive Caller
  | idle
  /-- One key is to be put into the channel. -/
  | enqueueing (key : String)
  /-- The keys are to be put into the channel, then their analysis awaited. -/
  | feeding (keys : List String)
  /-- Everything that is waiting or in work is awaited. -/
  | draining
  /-- The workers' exit is awaited. -/
  | closing
  | returned (e : Ending)
deriving DecidableEq

/-- A step of the queue. `w` is the worker that takes it. -/
inductive Label
  /-- The caller asks for something. -/
  | call (c : Call)
  /-- The caller's next key finds a free place. -/
  | offer
  /-- The caller sees that nothing is pending. -/
  | settle
  /-- The caller's time has passed. -/
  | timeout
  /-- The caller sees that every worker has exited. -/
  | closed
  /-- A worker gets its turn at the channel. -/
  | listen (w : Nat)
  /-- A worker takes the first item. -/
  | take (w : Nat)
  /-- A worker sees the closed channel empty. -/
  | leave (w : Nat)
  /-- The service answers a submission. -/
  | submitted (w : Nat) (reply : Except Failure String)
  /-- The service answers a request for a report. -/
  | reported (w : Nat) (reply : Except Failure (Option Report))
  /-- A worker notices that its item's epoch is over. -/
  | abort (w : Nat)

end Queue

/-- The analysis queue. -/
structure Queue where
  capacity : Nat
  workers : List Queue.Worker
  channel : List Queue.Item
  isOpen : Bool
  epoch : Nat
  pending : Nat
  enqueued : Nat
  analyzed : Nat
  findings : Findings
  caller : Queue.Caller
  submissions : List Package
  reports : List String

namespace Queue

/-- An empty queue. A capacity or a number of workers of zero counts as one. -/
def ofSizes (capacity workers : Nat) : Queue where
  capacity := max 1 capacity
  workers := List.replicate (max 1 workers) .waiting
  channel := []
  isOpen := true
  epoch := 0
  pending := 0
  enqueued := 0
  analyzed := 0
  findings := .empty
  caller := .idle
  submissions := []
  reports := []

/-- Whether the channel has no free place. -/
def isFull (q : Queue) : Bool := q.capacity ≤ q.channel.length

/-- Moves a worker. -/
def setWorker (q : Queue) (w : Nat) (s : Worker) : Queue :=
  { q with workers := q.workers.set w s }

/-- A worker is done with an item, one way or another. -/
def release (q : Queue) (w : Nat) : Queue :=
  { q.setWorker w .waiting with pending := q.pending - 1 }

/-- A worker has analyzed an item. -/
def complete (q : Queue) (w : Nat) : Queue :=
  { q.release w with analyzed := q.analyzed + 1 }

/-- Puts a key into the channel. -/
def push (q : Queue) (key : String) : Queue :=
  { q with
    channel := q.channel ++ [⟨key, q.epoch⟩]
    pending := q.pending + 1
    enqueued := q.enqueued + 1 }

/-- The caller begins what it is asked for. -/
def beginCall (q : Queue) : Call → Queue
  | .enqueue key => { q with caller := .enqueueing key }
  | .drain => { q with caller := .draining }
  | .analyzeAll [] => { q with caller := .draining }
  | .analyzeAll (key :: keys) => { q with caller := .feeding (key :: keys) }
  | .shutdown => { q with caller := .closing, isOpen := false }

/-- Starts a new epoch and ends the call. -/
def cancel (q : Queue) : Queue :=
  { q with epoch := q.epoch + 1, caller := .returned .cancelled }

/-- A worker has taken `item`: an item of an older epoch is discarded, a key that is
no package is analyzed without a result, and every other package is submitted. -/
def handle (q : Queue) (w : Nat) (item : Item) : Queue :=
  if item.epoch ≠ q.epoch then q.release w
  else
    match Package.ofSpec item.key with
    | .error _ => q.complete w
    | .ok p => { q.setWorker w (.submitting item p) with submissions := q.submissions ++ [p] }

/-- Records what a report says of an item, unless the item's epoch is over. -/
def judge (q : Queue) (item : Item) (p : Package) : Except Failure (Option Report) → Queue
  | .ok (some r) =>
    match r.verdict? p with
    | some v =>
      if v.isMalicious && item.epoch = q.epoch then
        { q with findings := (q.findings.record item.key v.summary).2 }
      else q
    | none => q
  | _ => q

/-- The queue after a step, if the step is possible. -/
def step (q : Queue) : Label → Option Queue
  | .call c =>
    match q.caller with
    | .idle | .returned _ => if q.isOpen then some (q.beginCall c) else none
    | _ => none
  | .offer =>
    if q.isFull then none
    else
      match q.caller with
      | .enqueueing key => some { q.push key with caller := .returned .finished }
      | .feeding [key] => some { q.push key with caller := .draining }
      | .feeding (key :: keys) => some { q.push key with caller := .feeding keys }
      | _ => none
  | .settle =>
    match q.caller with
    | .draining => if q.pending = 0 then some { q with caller := .returned .finished } else none
    | _ => none
  | .timeout =>
    match q.caller with
    | .enqueueing _ => some { q with caller := .returned .abandoned }
    | .feeding _ => some q.cancel
    | .draining => if q.pending = 0 then none else some q.cancel
    | _ => none
  | .closed =>
    match q.caller with
    | .closing =>
      if q.workers.all (· = .exited) then some { q with caller := .returned .finished } else none
    | _ => none
  | .listen w =>
    if q.workers[w]? = some .waiting && !q.workers.contains .receiving then
      some (q.setWorker w .receiving)
    else none
  | .take w =>
    if q.workers[w]? = some .receiving then
      match q.channel with
      | item :: rest => some ({ q with channel := rest }.handle w item)
      | [] => none
    else none
  | .leave w =>
    if q.workers[w]? = some .receiving && q.channel.isEmpty && !q.isOpen then
      some (q.setWorker w .exited)
    else none
  | .submitted w reply =>
    match q.workers[w]? with
    | some (.submitting item p) =>
      match reply with
      | .ok id => some { q.setWorker w (.reporting item p id) with reports := q.reports ++ [id] }
      | .error _ => some (q.complete w)
    | _ => none
  | .reported w reply =>
    match q.workers[w]? with
    | some (.reporting item p _) => some ((q.judge item p reply).complete w)
    | _ => none
  | .abort w =>
    match q.workers[w]? with
    | some (.submitting item _) => if item.epoch ≠ q.epoch then some (q.release w) else none
    | some (.reporting item _ _) => if item.epoch ≠ q.epoch then some (q.release w) else none
    | _ => none

/-- How the current call has ended, if it has. -/
def ending? (q : Queue) : Option Ending :=
  match q.caller with
  | .returned e => some e
  | _ => none

end Queue

end PackageGate
