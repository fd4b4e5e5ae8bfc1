/-!
# Schedules on a virtual clock

A machine whose steps can come in any order is run under one fixed schedule.
Nothing waits for real: the clock stands still while some step is possible, and
then moves to the next instant at which a call is answered or a deadline fires.

- `Response`: how the outside answers a call: after some time, or never.
- `Machine`: what a schedule has to know of a machine: its steps, which of them
  it takes by itself, the calls that are out, and its deadline.
- `Schedule.run`: goes on until the machine is finished, or nothing can happen up
  to a given time. Every change of the machine is one of its steps.
-/

namespace PackageGate.Simulation

/-- How a call is answered. -/
inductive Response (α : Type)
  /-- With `answer`, `delay` milliseconds later. -/
  | after (delay : Nat) (answer : α)
  | never

/-- The same response with another answer. -/
def Response.map {α β : Type} (f : α → β) : Response α → Response β
  | .after delay answer => .after delay (f answer)
  | .never => .never

/-- A machine with states `σ`, steps `ℓ` and calls `κ`, in surroundings with states `ω`. -/
structure Machine (σ ℓ κ ω : Type) where
  step : σ → ℓ → Option σ
  /-- The steps to try at any instant, in this order. -/
  eager : σ → List ℓ
  /-- The calls that are out. -/
  calls : σ → List κ
  /-- Sends a call; the answer comes as a step. -/
  ask : κ → ω → Response ℓ × ω
  /-- When the deadline fires, and with which step. -/
  deadline : σ → Option (Nat × ℓ)
  /-- Lets time pass. -/
  elapse : σ → Nat → Option σ

/-- A call that is out. -/
structure Pending (ℓ κ : Type) where
  call : κ
  due : Option Nat
  step : Option ℓ

/-- A machine in the middle of its schedule. -/
structure Schedule (σ ℓ κ ω : Type) where
  state : σ
  now : Nat
  pending : List (Pending ℓ κ)
  world : ω

namespace Schedule

variable {σ ℓ κ ω : Type} [BEq κ]

/-- Sends every call that has just gone out, and forgets those that are out no longer. -/
def reconcile (m : Machine σ ℓ κ ω) (s : Schedule σ ℓ κ ω) : Schedule σ ℓ κ ω :=
  let calls := m.calls s.state
  let kept := s.pending.filter fun p => calls.contains p.call
  let fresh := calls.filter fun c => !kept.any fun p => p.call == c
  fresh.foldl
    (fun s c =>
      let (response, world) := m.ask c s.world
      let p := match response with
        | .after delay l => ⟨c, some (s.now + delay), some l⟩
        | .never => ⟨c, none, none⟩
      { s with pending := s.pending ++ [p], world })
    { s with pending := kept }

/-- Takes a step, if it is possible. -/
def take? (m : Machine σ ℓ κ ω) (s : Schedule σ ℓ κ ω) (l : ℓ) : Option (Schedule σ ℓ κ ω) :=
  (m.step s.state l).map fun state => reconcile m { s with state }

/-- The earliest time at which a call is answered. -/
def nextDue (s : Schedule σ ℓ κ ω) : Option Nat :=
  s.pending.foldl
    (fun best p => match best, p.due with
      | some a, some b => some (min a b)
      | none, d => d
      | b, none => b)
    none

/-- Answers the call that is due first, if that is now. -/
def answer? (m : Machine σ ℓ κ ω) (s : Schedule σ ℓ κ ω) : Option (Schedule σ ℓ κ ω) := do
  let due ← nextDue s
  if s.now < due then none
  let p ← s.pending.find? fun p => p.due == some due
  let l ← p.step
  take? m { s with pending := s.pending.filter fun q => !(q.call == p.call) } l

/-- Takes the first step that is possible now, other than a deadline. -/
def act? (m : Machine σ ℓ κ ω) (s : Schedule σ ℓ κ ω) : Option (Schedule σ ℓ κ ω) :=
  (answer? m s).orElse fun _ => (m.eager s.state).findSome? (take? m s)

/-- Fires the deadline, if it has come. -/
def expire? (m : Machine σ ℓ κ ω) (s : Schedule σ ℓ κ ω) : Option (Schedule σ ℓ κ ω) := do
  let (deadline, l) ← m.deadline s.state
  if s.now < deadline then none
  take? m s l

/-- The next time at which something happens. -/
def nextTime (m : Machine σ ℓ κ ω) (s : Schedule σ ℓ κ ω) : Option Nat :=
  match nextDue s, m.deadline s.state with
  | some due, some (deadline, _) => some (min due deadline)
  | some due, none => some due
  | none, some (deadline, _) => some deadline
  | none, none => none

/-- Moves the clock to `time`. -/
def moveTo (m : Machine σ ℓ κ ω) (s : Schedule σ ℓ κ ω) (time : Nat) :
    Option (Schedule σ ℓ κ ω) :=
  (m.elapse s.state (time - s.now)).map fun state => { s with state, now := max s.now time }

/-- What happens next, up to the time `horizon`. -/
def next? (m : Machine σ ℓ κ ω) (horizon : Option Nat) (s : Schedule σ ℓ κ ω) :
    Option (Schedule σ ℓ κ ω) :=
  (act? m s).orElse fun _ => (expire? m s).orElse fun _ => do
    let time ← nextTime m s
    if horizon.any (· < time) || time ≤ s.now then none
    moveTo m s time

/-- Goes on until the machine is finished or nothing happens up to the time `horizon`,
for at most `fuel` steps. -/
def run (m : Machine σ ℓ κ ω) (isFinished : σ → Bool) (horizon : Option Nat) :
    (fuel : Nat) → Schedule σ ℓ κ ω → Schedule σ ℓ κ ω
  | 0, s => s
  | fuel + 1, s =>
    if isFinished s.state then s
    else
      match next? m horizon s with
      | some s => run m isFinished horizon fuel s
      | none => s

/-- Lets `d` milliseconds pass, whatever happens in them. -/
def wait (m : Machine σ ℓ κ ω) (fuel d : Nat) (s : Schedule σ ℓ κ ω) : Schedule σ ℓ κ ω :=
  let time := s.now + d
  let s := run m (fun _ => false) (some time) fuel s
  (moveTo m s time).getD s

/-- A machine at the beginning of its schedule. -/
def start (m : Machine σ ℓ κ ω) (state : σ) (world : ω) : Schedule σ ℓ κ ω :=
  reconcile m ⟨state, 0, [], world⟩

end Schedule

end PackageGate.Simulation
