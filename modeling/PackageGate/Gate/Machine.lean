import PackageGate.Analysis.Queue
import PackageGate.Deadline
import PackageGate.Explorer
import PackageGate.Gate.Outcome
import PackageGate.Resolution
import PackageGate.Settings

/-!
# The install gate

The gate scans the packages of an install command root by root: it settles the
version, walks the dependencies and has all of them analyzed, each root under
one deadline. Then, if anything is flagged, it asks once, and only then hands
the command to the package manager.

The gate, the tasks of its walks and the workers of its queue go on side by
side. `Gate.step` gives every step that one of them can take, together with the
passing of time; a run takes possible steps in any order.

- `Gate.Phase`: where the gate stands, always at a point where it waits.
- `Gate.start`: the gate before its first step.
- `Gate.step`: the gate after a step.
- `Gate.result?`: the outcome or the failure, once the run has ended.

Time moves by `tick` alone, never past the deadline of the scan that is going
on, and never while the gate itself could go on.
-/

namespace PackageGate

/-- A command that is to be run under guard. -/
structure Request where
  command : InstallCommand
  isDryRun : Bool
deriving DecidableEq

/-- The request for `command`; there has to be one. -/
def Request.of (command : Option InstallCommand) (isDryRun : Bool) : Except Failure Request :=
  match command with
  | some command => .ok ⟨command, isDryRun⟩
  | none => .error (.ofFault (.validation "A package manager command is required"))

namespace Gate

/-- The scan of one root that is going on. -/
structure Scan where
  root : Package
  deadline : Deadline
  remaining : List Package
  sessions : List Session

/-- Where the gate stands. -/
inductive Phase
  /-- The version of the root is to be settled. -/
  | resolving (s : Scan)
  /-- The registry is asked for the root's newest version. -/
  | looking (s : Scan)
  /-- The walk with the number `i` is going on. -/
  | walking (s : Scan) (resolved : Package) (i : Nat)
  /-- The packages of the tree are being analyzed. -/
  | analyzing (s : Scan) (tree : Tree) (keys : List String)
  /-- All roots are through, and the workers' exit is awaited. -/
  | closing (scanned : Except Failure (List Session))
  /-- The user is asked about flagged packages. -/
  | confirming (sessions : List Session) (flagged : List Finding)
  /-- The package manager is running. -/
  | installing (draft : Outcome)
  | ended (result : Except Failure Outcome)

/-- A step of a run. -/
inductive Label
  /-- The gate settles the root's version, or asks the registry for it. -/
  | resolve
  /-- The registry answers with the newest version. -/
  | latest (reply : Except Failure (Option String))
  /-- A task of a walk takes a step. -/
  | explore (l : Explorer.Label)
  /-- The gate takes the result of the walk. -/
  | arrive
  /-- The caller of the queue or a worker takes a step. -/
  | analyze (l : Queue.Label)
  /-- The gate sees that its call of the queue has ended. -/
  | resume
  /-- The deadline of the scan fires. -/
  | expire
  /-- The user answers. -/
  | confirm (reply : Except Failure String)
  /-- The package manager ends, or cannot be started. -/
  | install (reply : Except Failure Int)
  /-- Time passes, in milliseconds. -/
  | tick (d : Nat)

end Gate

/-- A run of the gate, and everything it has done so far. -/
structure Gate where
  request : Request
  settings : Settings
  now : Nat
  phase : Gate.Phase
  explorer : Explorer
  queue : Queue
  history : List Gate.State
  events : List Gate.Event

namespace Gate

/-- Enters a state. -/
def advance (g : Gate) (s : State) : Gate := { g with history := g.history ++ [s] }

/-- Does something to the outside. -/
def emit (g : Gate) (e : Event) : Gate := { g with events := g.events ++ [e] }

/-- Tells the user something. -/
def tell (g : Gate) (n : Notice) : Gate := g.emit (.told n)

/-- What the user has been told. -/
def notices (g : Gate) : List Notice :=
  g.events.filterMap fun | .told n => some n | _ => none

/-- The findings that the user has been asked about, each time. -/
def prompts (g : Gate) : List (List Finding) :=
  g.events.filterMap fun | .asked flagged => some flagged | _ => none

/-- The programs that have been started, with their arguments. -/
def invocations (g : Gate) : List (String × List String) :=
  g.events.filterMap fun | .started program args => some (program, args) | _ => none

/-- The outcome that the run comes to if nothing else happens. -/
def draft (g : Gate) (sessions : List Session) (flagged : List Finding) : Outcome where
  finalState := g.history.getLast?.getD .clean
  sessions := sessions
  flagged := flagged
  managerCode := none
  transitions := g.history

/-- Ends the run. -/
def finish (g : Gate) (result : Except Failure Outcome) : Gate := { g with phase := .ended result }

/-- Hands the command to the package manager, or only shows it. -/
def handOver (g : Gate) (o : Outcome) : Gate :=
  let program := g.request.command.manager.program
  let args := g.request.command.arguments
  if g.request.isDryRun then (g.tell (.dryRun program args)).finish (.ok o)
  else { g.emit (.started program args) with phase := .installing o }

/-- Stops the queue; the workers' exit is awaited. -/
def close (g : Gate) (scanned : Except Failure (List Session)) : Gate :=
  { g with phase := .closing scanned, queue := g.queue.beginCall .shutdown }

/-- Goes on with the next root, or closes the scanning phase. -/
def next (g : Gate) (remaining : List Package) (sessions : List Session) : Gate :=
  match remaining with
  | root :: remaining =>
    let g := (g.advance (.scanning root.display)).tell (.scanning root.display)
    { g with phase := .resolving ⟨root, .after g.now g.settings.scanTimeout, remaining, sessions⟩ }
  | [] =>
    if sessions.all (·.isFailed) then g.close (.error (.of (.allRootsFailed sessions.length)))
    else g.close (.ok sessions)

/-- Ends the scan of a root. -/
def settle (g : Gate) (s : Scan) (result : Except Failure Session) : Gate :=
  let g := g.tell .stopTracking
  match result with
  | .ok session =>
    let g := g.tell (.analyzed session.analyzedKeys.length s.root.display)
    (g.advance .aggregating).next s.remaining (s.sessions ++ [session])
  | .error e =>
    match g.settings.policy with
    | .failFast => g.close (.error (e.during (.scanning s.root.display)))
    | .skipRoot =>
      let g := g.tell (.skipping s.root.display e.text)
      (g.advance .aggregating).next s.remaining
        (s.sessions ++ [.failed s.root none e.text])

/-- Walks the dependencies of a root whose version is settled. -/
def walk (g : Gate) (s : Scan) (resolved : Package) : Gate :=
  let g := g.tell (.track resolved.display)
  { g with
    phase := .walking s resolved g.explorer.nextWalk
    explorer := g.explorer.begin resolved }

/-- Goes on with the root in the version that the registry's answer settles. -/
def takeLatest (g : Gate) (s : Scan) (reply : Except Failure (Option String)) : Gate :=
  match Resolution.ofLatest s.root reply with
  | .ok resolved => g.walk s resolved
  | .error e => g.settle s (.error e)

/-- Settles the root's version: as it was asked for, or from the memo, or else the
registry is asked. -/
def resolve (g : Gate) (s : Scan) : Gate :=
  match Resolution.direct? s.root with
  | some resolved => g.walk s resolved
  | none =>
    match g.explorer.memo.bind (·.latest? s.root.name) with
    | some latest => g.takeLatest s (.ok latest)
    | none =>
      { g.emit (.lookedUp s.root.name) with phase := .looking s }

/-- Takes the result of a walk: the packages of its tree are to be analyzed. -/
def arrive (g : Gate) (s : Scan) (w : Walk) : Except Failure Tree → Gate
  | .ok t =>
    let tree := w.settle t
    let keys := tree.flatten
    { g with
      phase := .analyzing s tree keys
      queue := g.queue.beginCall (.analyzeAll keys) }
  | .error e => g.settle s (.error e)

/-- The session of a root whose packages have all been analyzed. -/
def session (g : Gate) (s : Scan) (tree : Tree) (keys : List String) : Session :=
  .completed s.root tree.package keys (keys.filter g.queue.findings.contains)

/-- Decides about the install, when all roots are through and all workers have exited. -/
def decide (g : Gate) : Except Failure (List Session) → Gate
  | .error e => (g.advance .error).finish (.error e)
  | .ok sessions =>
    match g.queue.findings.snapshot with
    | [] =>
      let g := (g.advance .clean).tell (.allClean g.queue.analyzed)
      g.handOver (g.draft sessions [])
    | flagged =>
      let g := g.advance .flagged
      { g.emit (.asked flagged) with phase := .confirming sessions flagged }

/-- Follows the user's answer. An answer that cannot be read declines. -/
def follow (g : Gate) (sessions : List Session) (flagged : List Finding)
    (reply : Except Failure String) : Gate :=
  let accepted := match reply with
    | .ok line => isAffirmative line
    | .error _ => false
  if accepted then
    let g := g.advance .clean
    g.handOver (g.draft sessions flagged)
  else
    let g := (g.advance .blocked).tell .installCancelled
    g.finish (.ok (g.draft sessions flagged))

/-- Whether the gate can go on by itself. -/
def isReady (g : Gate) : Bool :=
  match g.phase with
  | .resolving _ => true
  | .walking _ _ i => (g.explorer.result? i).isSome
  | .analyzing _ _ _ => g.queue.ending?.isSome
  | .closing _ => g.queue.ending?.isSome
  | _ => false

/-- The deadline of the scan that is going on. -/
def deadline? (g : Gate) : Option Nat :=
  match g.phase with
  | .resolving s | .looking s | .walking s _ _ | .analyzing s _ _ => some s.deadline.instant
  | _ => none

/-- The steps of the queue that are not the gate's own. -/
def isFreeStep : Queue.Label → Bool
  | .call _ | .timeout => false
  | _ => true

/-- The steps of the explorer that are not the gate's own. -/
def isFreeMove : Explorer.Label → Bool
  | .walk _ .cancel => false
  | _ => true

/-- The gate after a step, if the step is possible. -/
def step (g : Gate) : Label → Option Gate
  | .resolve =>
    match g.phase with
    | .resolving s => some (g.resolve s)
    | _ => none
  | .latest reply =>
    match g.phase with
    | .looking s =>
      let memo := g.explorer.memo.map (·.keepLatest s.root.name reply)
      some ({ g with explorer := { g.explorer with memo } }.takeLatest s reply)
    | _ => none
  | .explore l =>
    if isFreeMove l then
      (g.explorer.step l).map fun explorer => { g with explorer }
    else none
  | .arrive =>
    match g.phase with
    | .walking s _ i =>
      match g.explorer.walks[i]?, g.explorer.result? i with
      | some w, some result => some (g.arrive s w result)
      | _, _ => none
    | _ => none
  | .analyze l =>
    if isFreeStep l then
      (g.queue.step l).map fun queue => { g with queue }
    else none
  | .resume =>
    match g.phase, g.queue.ending? with
    | .analyzing s tree keys, some .finished => some (g.settle s (.ok (g.session s tree keys)))
    | .closing scanned, some .finished => some (g.decide scanned)
    | _, _ => none
  | .expire =>
    match g.phase with
    | .looking s =>
      if s.deadline.isExpired g.now then
        some (g.settle s (.error (s.deadline.cancelled s.root.key)))
      else none
    | .walking s resolved i =>
      if s.deadline.isExpired g.now then
        (g.explorer.step (.walk i .cancel)).map fun explorer =>
          { g with explorer }.settle s (.error (s.deadline.cancelled resolved.key))
      else none
    | .analyzing s tree _ =>
      if s.deadline.isExpired g.now then
        (g.queue.step .timeout).map fun queue =>
          { g with queue }.settle s (.error (s.deadline.cancelled tree.package.key))
      else none
    | _ => none
  | .confirm reply =>
    match g.phase with
    | .confirming sessions flagged => some (g.follow sessions flagged reply)
    | _ => none
  | .install reply =>
    match g.phase with
    | .installing draft =>
      some (g.finish (match reply with
        | .ok code => .ok { draft with managerCode := some code }
        | .error e => .error (e.during (.running g.request.command.manager.program))))
    | _ => none
  | .tick d =>
    if g.isReady then none
    else
      match g.phase, g.deadline? with
      | .ended _, _ => none
      | _, some deadline =>
        if g.now + d ≤ deadline then some { g with now := g.now + d } else none
      | _, none => some { g with now := g.now + d }

/-- The gate at the beginning, before it looks at the command. `memo` is there if
answers of the registry are to be remembered. -/
def initial (request : Request) (settings : Settings) (memo : Option Memo) : Gate where
  request := request
  settings := settings
  now := 0
  phase := .closing (.ok [])
  explorer := .ofLimit settings.maxConcurrentFetches memo
  queue := .ofSizes settings.queueCapacity settings.analysisWorkers
  history := []
  events := []

/-- Runs a command that names no package: there is nothing to scan. -/
def passThrough (g : Gate) : Gate := g.handOver (g.draft [] [])

/-- The gate when it has read the command. -/
def start (request : Request) (settings : Settings) (memo : Option Memo) : Gate :=
  let g := initial request settings memo
  match request.command.rootPackages with
  | .error why => g.finish (.error why.failure)
  | .ok [] => g.passThrough
  | .ok roots => (g.advance .idle).next roots []

/-- The outcome or the failure, once the run has ended. -/
def result? (g : Gate) : Option (Except Failure Outcome) :=
  match g.phase with
  | .ended result => some result
  | _ => none

end Gate

end PackageGate
