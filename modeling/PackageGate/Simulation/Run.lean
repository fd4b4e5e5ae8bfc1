import PackageGate.Simulation.Outside

/-!
# Runs under a schedule

- `gateMachine`, `runGate`: a whole run of the gate.
- `walkMachine`, `exploreRoot`: the walk of one root under its deadline.
- `queueMachine`: the analysis queue under calls with deadlines.
-/

namespace PackageGate.Simulation

variable {ω : Type}

/-- More steps than any run on answers of finite length takes. -/
def fuel : Nat := 1000000000

/-! ## The gate -/

/-- The call that the gate itself has sent. -/
def gateCalls (g : Gate) : List Call :=
  match g.phase with
  | .looking s => [.latest s.root.name]
  | .confirming _ flagged => [.confirm flagged]
  | .installing _ => [.install g.request.command.manager.program g.request.command.arguments]
  | _ => []

/-- Sends a call of a run. -/
def askGate (outside : Outside ω) (c : Call) (world : ω) : Response Gate.Label × ω :=
  match c with
  | .latest name =>
    let (response, world) := outside.latest name world
    (response.map .latest, world)
  | .manifest i t p =>
    let (response, world) := outside.manifest p world
    (response.map fun reply => .explore (.walk i (.answer t reply)), world)
  | .analysis c =>
    let (response, world) := askQueue outside c world
    (response.map .analyze, world)
  | .confirm flagged =>
    let (reply, world) := outside.confirm flagged world
    (.after 0 (.confirm reply), world)
  | .install program args =>
    let (reply, world) := outside.install program args world
    (.after 0 (.install reply), world)

/-- The gate with its walks and its queue. -/
def gateMachine (outside : Outside ω) : Machine Gate Gate.Label Call ω where
  step := Gate.step
  eager g :=
    [.resolve, .arrive, .resume] ++ (taskMoves g.explorer).map .explore ++
      (queueMoves g.queue).map .analyze
  calls g :=
    gateCalls g ++ (manifestCalls g.explorer).map (fun (i, t, p) => .manifest i t p) ++
      (queueCalls g.queue).map .analysis
  ask := askGate outside
  deadline g := g.deadline?.map (·, .expire)
  elapse g d := g.step (.tick d)

/-- A whole run of the gate. -/
def runGate (outside : Outside ω) (request : Request) (settings : Settings) (memo : Option Memo)
    (world : ω) : Gate × ω :=
  let m := gateMachine outside
  let s := Schedule.start m (Gate.start request settings memo) world
  let s := Schedule.run m (fun g => g.result?.isSome) none fuel s
  (s.state, s.world)

/-- A run that hands a command on without looking at it. -/
def runPassThrough (outside : Outside ω) (request : Request) (world : ω) : Gate :=
  let m := gateMachine outside
  let g := (Gate.initial request {} none).passThrough
  (Schedule.run m (fun g => g.result?.isSome) none fuel (Schedule.start m g world)).state

/-! ## One walk -/

/-- An explorer that is busy with one walk, and the deadline of that walk. -/
structure Expedition where
  explorer : Explorer
  walk : Nat
  deadline : Option Nat
  isCancelled : Bool

/-- A step of an expedition: one of the explorer's, or the deadline. -/
def Expedition.step (x : Expedition) : Option Explorer.Label → Option Expedition
  | some l => (x.explorer.step l).map fun explorer => { x with explorer }
  | none =>
    (x.explorer.step (.walk x.walk .cancel)).map fun explorer =>
      { x with explorer, deadline := none, isCancelled := true }

/-- An explorer under a deadline. -/
def walkMachine (outside : Outside ω) : Machine Expedition (Option Explorer.Label) Call ω where
  step := Expedition.step
  eager x := (taskMoves x.explorer).map some
  calls x := (manifestCalls x.explorer).map fun (i, t, p) => .manifest i t p
  ask c world :=
    match c with
    | .manifest i t p =>
      let (response, world) := outside.manifest p world
      (response.map fun reply => some (.walk i (.answer t reply)), world)
    | _ => (.never, world)
  deadline x := x.deadline.map (·, none)
  elapse x _ := some x

/-- What a walk has come to. -/
def Expedition.result? (x : Expedition) : Option (Except Failure Tree) :=
  if x.isCancelled then none else x.explorer.result? x.walk

/-- Whether a walk is over, and nothing of it is left if it was given up. -/
def Expedition.isOver (x : Expedition) : Bool :=
  x.result?.isSome

/-- Walks the dependencies of `root` with an explorer, and gives up after `budget`
milliseconds. -/
def exploreRoot (outside : Outside ω) (e : Explorer) (root : Package) (budget : Nat) (world : ω) :
    Except Failure Tree × Explorer × ω :=
  let m := walkMachine outside
  let x : Expedition := ⟨e.begin root, e.nextWalk, some budget, false⟩
  let s := Schedule.run m Expedition.isOver none fuel (Schedule.start m x world)
  let e := s.state.explorer
  let result := match s.state.result?, e.walks[s.state.walk]? with
    | some (.ok t), some w => .ok (w.settle t)
    | some (.error f), _ => .error f
    | _, _ => .error (.ofFault (.cancelled root.key budget))
  (result, e, s.world)

/-! ## The queue alone -/

/-- A queue whose current call has a deadline. -/
structure Desk where
  queue : Queue
  deadline : Option Nat

/-- A queue under calls with deadlines. -/
def queueMachine (outside : Outside ω) : Machine Desk Queue.Label QueueCall ω where
  step d l := (d.queue.step l).map fun queue => { d with queue }
  eager d := queueMoves d.queue
  calls d := queueCalls d.queue
  ask := askQueue outside
  deadline d := if d.queue.ending?.isSome then none else d.deadline.map (·, .timeout)
  elapse d _ := some d

/-- Makes a call of the queue and waits until it has ended, for at most `budget` milliseconds. -/
def callQueue (outside : Outside ω) (c : Queue.Call) (budget : Option Nat)
    (s : Schedule Desk Queue.Label QueueCall ω) : Schedule Desk Queue.Label QueueCall ω :=
  let m := queueMachine outside
  match s.state.queue.step (.call c) with
  | none => s
  | some queue =>
    Schedule.run m (fun d => d.queue.ending?.isSome) none fuel
      { s with state := ⟨queue, budget.map (s.now + ·)⟩ }

end PackageGate.Simulation
