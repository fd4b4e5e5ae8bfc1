import PackageGate.Gate.Machine
import PackageGate.Proofs.Queue.Moves

/-!
# Moves of the gate

A step of the gate is a step in the background (of a task, of a worker, of the
clock) or one of the gate's own moves. The gate's own moves that end the scan of a
root all go through `Gate.settle`, so what that can do is said once.

- `Gate.Move`, `Gate.step_move`: the moves, and that every step is one of them.
- `Gate.Move.queue_induction`, `Gate.Move.explorer_induction`: what they leave of an invariant of
  the queue or of the explorer.
- `Gate.settle_cases`: the scan of a root ends with the next root or with the end
  of all scanning; it tells the user things and touches nothing else.
- `Gate.decide_cases`, `Gate.follow_cases`, `Gate.handOver_cases`: how the gate
  decides about the install.
-/

namespace PackageGate

/-- What comes of the request when the manager ends with `reply`: its exit code, or why it could
not be started. -/
def Request.installed (r : Request) (draft : Outcome) : Except Failure Int → Except Failure Outcome
  | .ok code => .ok { draft with managerCode := some code }
  | .error e => .error (e.during (.running r.command.manager.program))

/-- The outcome of an install that nothing stands against, before the manager is run. -/
structure Outcome.Clears (o : Outcome) (sessions : List Session) (flagged : List Finding) :
    Prop where
  finalState : o.finalState = .clean
  managerCode : o.managerCode = none
  sessions : o.sessions = sessions
  flagged : o.flagged = flagged

namespace Gate

/-- The scan that is going on. -/
def Phase.scan? : Phase → Option Scan
  | .resolving s | .looking s | .walking s _ _ | .analyzing s _ _ => some s
  | _ => none

/-- The session that comes of a scan: what it found, or that it failed. -/
def Scan.outcome (s : Scan) : Except Failure Session → Session
  | .ok session => session
  | .error e => .failed s.root none e.text

/-- What comes of an install: the manager's exit code, or why it could not be started. -/
def installed (g : Gate) (draft : Outcome) (reply : Except Failure Int) :
    Except Failure Outcome :=
  g.request.installed draft reply

/-- The steps with which the gate gives up the scan of a root. -/
def Label.givesUp : Label → Bool
  | .resolve | .latest _ | .arrive | .expire => true
  | _ => false

/-- What the gate itself does to its explorer: nothing, or it remembers an answer about a newest
version, or it gives a walk up. -/
inductive Handles (e : Explorer) : Explorer → Prop
  | leave : Handles e e
  | keep (name : String) (reply : Except Failure (Option String)) :
    Handles e { e with memo := e.memo.map (·.keepLatest name reply) }
  | cancel {i : Nat} {x : Explorer} : e.step (.walk i .cancel) = some x → Handles e x

/-- The moves of the gate. -/
inductive Move (g : Gate) : Label → Gate → Prop
  | explore {l : Explorer.Label} {x : Explorer} : isFreeMove l = true → g.explorer.step l = some x →
    Move g (.explore l) { g with explorer := x }
  | analyze {l : Queue.Label} {q : Queue} : isFreeStep l = true → g.queue.step l = some q →
    Move g (.analyze l) { g with queue := q }
  | tick {d : Nat} : Move g (.tick d) { g with now := g.now + d }
  | lookUp {s : Scan} : g.phase = .resolving s →
    Move g .resolve { g.emit (.lookedUp s.root.name) with phase := .looking s }
  | walk {l : Label} {s : Scan} {resolved : Package} {memo : Option Memo} :
    (g.phase = .resolving s ∧ l = .resolve) ∨ (g.phase = .looking s ∧ ∃ r, l = .latest r) →
    Handles g.explorer { g.explorer with memo } →
    Move g l ({ g with explorer := { g.explorer with memo } }.walk s resolved)
  | arrive {s : Scan} {resolved : Package} {i : Nat} {w : Walk} {t : Tree} :
    g.phase = .walking s resolved i → g.explorer.walks[i]? = some w →
    g.explorer.result? i = some (.ok t) → Move g .arrive (g.arrive s w (.ok t))
  | complete {s : Scan} {tree : Tree} {keys : List String} : g.phase = .analyzing s tree keys →
    g.queue.caller = .returned .finished →
    Move g .resume (g.settle s (.ok (g.session s tree keys)))
  | fail {l : Label} {s : Scan} {x : Explorer} {q : Queue} {e : Failure} : l.givesUp = true →
    g.phase.scan? = some s →
    (q = g.queue ∧ ∀ tree keys, g.phase ≠ .analyzing s tree keys) ∨
      (∃ tree keys, g.phase = .analyzing s tree keys) ∧ g.queue.step .timeout = some q →
    Handles g.explorer x →
    Move g l ({ g with explorer := x, queue := q }.settle s (.error e))
  | decide {scanned : Except Failure (List Session)} : g.phase = .closing scanned →
    g.queue.caller = .returned .finished → Move g .resume (g.decide scanned)
  | follow {sessions : List Session} {flagged : List Finding} {reply : Except Failure String} :
    g.phase = .confirming sessions flagged →
    Move g (.confirm reply) (g.follow sessions flagged reply)
  | install {draft : Outcome} {reply : Except Failure Int} : g.phase = .installing draft →
    Move g (.install reply) (g.finish (g.installed draft reply))

theorem ending?_eq_some {q : Queue} {e : Queue.Ending} :
    q.ending? = some e ↔ q.caller = .returned e := by
  unfold Queue.ending?
  split <;> simp_all

theorem result?_eq_some {g : Gate} {result : Except Failure Outcome}
    (h : g.result? = some result) : g.phase = .ended result := by
  unfold result? at h
  split at h
  · cases h
    assumption
  · cases h

/-- The steps of the queue by itself begin no call and let no deadline pass. -/
theorem free_of_isFreeStep {l : Queue.Label} (h : isFreeStep l = true) :
    (∀ c, l ≠ .call c) ∧ l ≠ .timeout := by
  constructor
  · rintro c rfl
    cases h
  · rintro rfl
    cases h

/-- Taking the answer about the newest version starts the walk or gives up the root. -/
theorem takeLatest_move {g : Gate} {l : Label} {s : Scan} {memo : Option Memo}
    {reply : Except Failure (Option String)}
    (h : (g.phase = .resolving s ∧ l = .resolve) ∨ (g.phase = .looking s ∧ ∃ r, l = .latest r))
    (hmemo : Handles g.explorer { g.explorer with memo }) :
    Move g l ({ g with explorer := { g.explorer with memo } }.takeLatest s reply) := by
  unfold takeLatest
  split
  · exact .walk h hmemo
  · have hscan : g.phase.scan? = some s := by
      rcases h with ⟨h, -⟩ | ⟨h, -⟩ <;> rw [h] <;> rfl
    have hl : l.givesUp = true := by
      rcases h with ⟨-, rfl⟩ | ⟨-, _, rfl⟩ <;> rfl
    refine .fail hl hscan (.inl ⟨rfl, fun tree keys hphase => ?_⟩) hmemo
    rcases h with ⟨hp, -⟩ | ⟨hp, -⟩ <;> rw [hp] at hphase <;> cases hphase

/-! ## The end of a scan -/

/-- The gate after it has told the user some things, in other states. -/
def after (g : Gate) (ns : List Notice) (history : List State) : Gate :=
  { g with history := history, events := g.events ++ ns.map .told }

/-- Whether a run goes on after a scan that came to `result`: the policy has to allow it where
the scan has failed. -/
def GoesOn (policy : RootFailurePolicy) (result : Except Failure Session) : Prop :=
  ∀ e, result = .error e → policy = .skipRoot

/-- What scanning comes to when it ends with the scan `s`, which came to `result`. -/
inductive Scan.Ends (s : Scan) (policy : RootFailurePolicy) (result : Except Failure Session) :
    Except Failure (List Session) → Prop
  | through : s.remaining = [] → GoesOn policy result →
    (s.sessions ++ [s.outcome result]).all (·.isFailed) = false →
    Ends s policy result (.ok (s.sessions ++ [s.outcome result]))
  | allFailed : s.remaining = [] → GoesOn policy result →
    (s.sessions ++ [s.outcome result]).all (·.isFailed) = true →
    Ends s policy result
      (.error (.of (.allRootsFailed (s.sessions ++ [s.outcome result]).length)))
  | atOnce {e : Failure} : policy = .failFast → result = .error e →
    Ends s policy result (.error (e.during (.scanning s.root.display)))

/-- Scanning goes through with the last root only. -/
theorem Scan.Ends.of_ok {s : Scan} {policy : RootFailurePolicy} {result : Except Failure Session}
    {sessions : List Session} (h : s.Ends policy result (.ok sessions)) :
    s.remaining = [] ∧ sessions = s.sessions ++ [s.outcome result] := by
  cases h with
  | through hrem => exact ⟨hrem, rfl⟩

/-- After a scan, the next root follows, or the scanning phase is closed. -/
theorem next_cases {g h : Gate} {s : Scan} {result : Except Failure Session}
    {ns : List Notice} {history : List State} (hgoes : GoesOn g.settings.policy result)
    (hh : h = g.after ns history) : ∃ ns history,
      (∃ root rest, (s.remaining = root :: rest ∧ GoesOn g.settings.policy result) ∧
        h.next s.remaining (s.sessions ++ [s.outcome result]) =
          { g.after ns history with
            phase := .resolving
              ⟨root, .after g.now g.settings.scanTimeout, rest,
                s.sessions ++ [s.outcome result]⟩ }) ∨
      (∃ scanned,
        h.next s.remaining (s.sessions ++ [s.outcome result]) =
          { g.after ns history with
            phase := .closing scanned, queue := g.queue.beginCall .shutdown } ∧
        s.Ends g.settings.policy result scanned) := by
  subst hh
  unfold next
  cases hrem : s.remaining with
  | cons root rest =>
    refine ⟨ns ++ [.scanning root.display], history ++ [.scanning root.display],
      .inl ⟨root, rest, ⟨rfl, hgoes⟩, ?_⟩⟩
    simp [after, advance, tell, emit]
  | nil =>
    refine ⟨ns, history, .inr ?_⟩
    cases hfailed : (s.sessions ++ [s.outcome result]).all (·.isFailed) with
    | true =>
      exact ⟨_, by rw [if_pos rfl]; rfl, .allFailed hrem hgoes hfailed⟩
    | false =>
      exact ⟨_, by rw [if_neg Bool.false_ne_true]; rfl, .through hrem hgoes hfailed⟩

/-- The end of a scan leads to the scan of the next root, or closes the scanning phase. -/
theorem settle_cases (g : Gate) (s : Scan) (result : Except Failure Session) :
    ∃ ns history,
      (∃ root rest, (s.remaining = root :: rest ∧ GoesOn g.settings.policy result) ∧
        g.settle s result =
          { g.after ns history with
            phase := .resolving
              ⟨root, .after g.now g.settings.scanTimeout, rest,
                s.sessions ++ [s.outcome result]⟩ }) ∨
      (∃ scanned,
        g.settle s result =
          { g.after ns history with
            phase := .closing scanned, queue := g.queue.beginCall .shutdown } ∧
        s.Ends g.settings.policy result scanned) := by
  cases result with
  | ok session =>
    refine next_cases nofun (?_ : _ = g.after
      [.stopTracking, .analyzed session.analyzedKeys.length s.root.display]
      (g.history ++ [.aggregating]))
    simp [after, advance, tell, emit]
  | error e =>
    unfold settle
    cases hpolicy : g.settings.policy with
    | failFast =>
      have htell : (g.tell .stopTracking).settings.policy = .failFast := hpolicy
      refine ⟨[.stopTracking], g.history, .inr ⟨_, ?_, .atOnce rfl rfl⟩⟩
      simp only [htell]
      rfl
    | skipRoot =>
      have htell : (g.tell .stopTracking).settings.policy = .skipRoot := hpolicy
      simp only [htell]
      have hgoes : GoesOn g.settings.policy (.error e) := fun _ _ => hpolicy
      rw [← hpolicy]
      refine next_cases hgoes (?_ : _ = g.after
        [.stopTracking, .skipping s.root.display e.text] (g.history ++ [.aggregating]))
      simp [after, advance, tell, emit]

/-! ## The decision -/

/-- Handing the command over starts the manager once, or ends a dry run. -/
theorem handOver_cases (g : Gate) (o : Outcome) :
    (g.request.isDryRun = true ∧ ∃ n,
      g.handOver o = { g with events := g.events ++ [.told n], phase := .ended (.ok o) }) ∨
    (g.request.isDryRun = false ∧
      g.handOver o =
        { g with
          events := g.events ++
            [.started g.request.command.manager.program g.request.command.arguments]
          phase := .installing o }) := by
  unfold handOver
  cases hdry : g.request.isDryRun with
  | true => exact .inl ⟨rfl, _, rfl⟩
  | false => exact .inr ⟨rfl, rfl⟩

/-- The state that was entered last is the final one. -/
theorem getLast_concat (history : List State) (s : State) :
    (history ++ [s]).getLast?.getD .clean = s := by
  rw [List.getLast?_concat]
  rfl

/-- Whether an answer of the user lets the install go on. -/
def accepts : Except Failure String → Bool
  | .ok line => isAffirmative line
  | .error _ => false

/-- After scanning, the gate reports the failure, hands over, or asks about all findings. -/
theorem decide_cases (g : Gate) (scanned : Except Failure (List Session)) :
    (∃ e history, scanned = .error e ∧
      g.decide scanned = { g with history := history, phase := .ended (.error e) }) ∨
    (∃ sessions ns history o, scanned = .ok sessions ∧ g.queue.findings.snapshot = [] ∧
      o.Clears sessions [] ∧ g.decide scanned = (g.after ns history).handOver o) ∨
    (∃ sessions history, scanned = .ok sessions ∧ g.queue.findings.snapshot ≠ [] ∧
      g.decide scanned =
        { g with
          history := history, events := g.events ++ [.asked g.queue.findings.snapshot]
          phase := .confirming sessions g.queue.findings.snapshot }) := by
  cases scanned with
  | error e => exact .inl ⟨e, _, rfl, rfl⟩
  | ok sessions =>
    right
    unfold decide
    split
    · cases ‹Except.ok sessions = Except.error _›
    · rename_i heq
      cases heq
      split
      · rename_i hnil
        refine .inl ⟨sessions, [.allClean g.queue.analyzed], g.history ++ [.clean],
          draft (g.after [.allClean g.queue.analyzed] (g.history ++ [State.clean])) sessions [],
          rfl, hnil, ⟨getLast_concat g.history .clean, rfl, rfl, rfl⟩, rfl⟩
      · rename_i hne
        exact .inr ⟨sessions, _, rfl, fun hnil => hne hnil, rfl⟩

/-- An accepting answer hands over; every other answer ends the run blocked. -/
theorem follow_cases (g : Gate) (sessions : List Session) (flagged : List Finding)
    (reply : Except Failure String) :
    (accepts reply = true ∧ ∃ history o, o.Clears sessions flagged ∧
      g.follow sessions flagged reply = (g.after [] history).handOver o) ∨
    (accepts reply = false ∧ ∃ n history o, o.finalState = .blocked ∧ o.managerCode = none ∧
      o.sessions = sessions ∧ o.flagged = flagged ∧
      g.follow sessions flagged reply =
        { g.after [n] history with phase := .ended (.ok o) }) := by
  cases h : accepts reply with
  | true =>
    refine .inl ⟨rfl, g.history ++ [.clean], draft (g.advance .clean) sessions flagged,
      ⟨getLast_concat g.history .clean, rfl, rfl, rfl⟩, ?_⟩
    have hg : g.after [] (g.history ++ [.clean]) = g.advance .clean := by simp [after, advance]
    rw [hg]
    cases reply with
    | error => simp [accepts] at h
    | ok line => simp only [follow, show isAffirmative line = true from h, if_true]
  | false =>
    refine .inr ⟨rfl, .installCancelled, g.history ++ [.blocked],
      draft ((g.advance .blocked).tell .installCancelled) sessions flagged,
      getLast_concat g.history .blocked, rfl, rfl, rfl, ?_⟩
    cases reply with
    | error => rfl
    | ok line =>
      simp only [follow, show isAffirmative line = false from h]
      rfl

/-- Every step of the gate is one of its moves. -/
theorem step_move {g g' : Gate} {l : Label} (h : g.step l = some g') : Move g l g' := by
  cases l with
  | resolve =>
    simp only [step] at h
    split at h <;> cases h
    rename_i s hphase
    unfold resolve
    split
    · exact .walk (.inl ⟨hphase, rfl⟩) .leave
    · split
      · exact takeLatest_move (.inl ⟨hphase, rfl⟩) .leave
      · exact .lookUp hphase
  | latest reply =>
    simp only [step] at h
    split at h <;> cases h
    exact takeLatest_move (.inr ⟨‹_›, reply, rfl⟩) (.keep _ reply)
  | explore l =>
    simp only [step] at h
    split at h
    · obtain ⟨x, hx, rfl⟩ := Option.map_eq_some_iff.mp h
      exact .explore ‹_› hx
    · cases h
  | arrive =>
    simp only [step] at h
    split at h
    · rename_i s resolved i hphase
      split at h <;> cases h
      rename_i w result hw hresult
      cases result with
      | ok t => exact .arrive hphase hw hresult
      | error e =>
        exact .fail rfl (by rw [hphase]; rfl) (.inl ⟨rfl, by simp [hphase]⟩) .leave
    · cases h
  | analyze l =>
    simp only [step] at h
    split at h
    · obtain ⟨q, hq, rfl⟩ := Option.map_eq_some_iff.mp h
      exact .analyze ‹_› hq
    · cases h
  | resume =>
    simp only [step] at h
    split at h <;> cases h
    · exact .complete ‹_› (ending?_eq_some.mp ‹_›)
    · exact .decide ‹_› (ending?_eq_some.mp ‹_›)
  | expire =>
    simp only [step] at h
    split at h
    · rename_i s hphase
      split at h <;> cases h
      exact .fail rfl (by rw [hphase]; rfl) (.inl ⟨rfl, by simp [hphase]⟩) .leave
    · rename_i s resolved i hphase
      split at h
      · obtain ⟨x, hx, rfl⟩ := Option.map_eq_some_iff.mp h
        exact .fail rfl (by rw [hphase]; rfl) (.inl ⟨rfl, by simp [hphase]⟩) (.cancel hx)
      · cases h
    · rename_i s tree keys hphase
      split at h
      · obtain ⟨q, hq, rfl⟩ := Option.map_eq_some_iff.mp h
        exact .fail rfl (by rw [hphase]; rfl) (.inr ⟨⟨tree, keys, hphase⟩, hq⟩) .leave
      · cases h
    · cases h
  | confirm reply =>
    simp only [step] at h
    split at h <;> cases h
    exact .follow ‹_›
  | install reply =>
    simp only [step] at h
    split at h <;> cases h
    rename_i draft hphase
    cases reply <;> exact .install hphase
  | tick d =>
    simp only [step] at h
    split at h
    · cases h
    · split at h
      · cases h
      · split at h <;> cases h
        exact .tick
      · cases h
        exact .tick

/-! ## What no move touches -/

/-- `g'` differs from `g` in phase and history only, and in what has been done to the outside. -/
structure Beside (g g' : Gate) : Prop where
  request : g'.request = g.request
  settings : g'.settings = g.settings
  explorer : g'.explorer = g.explorer
  queue : g'.queue = g.queue

theorem handOver_beside (g : Gate) (o : Outcome) : Beside g (g.handOver o) := by
  rcases handOver_cases g o with ⟨-, _, h⟩ | ⟨-, h⟩ <;> rw [h] <;> exact ⟨rfl, rfl, rfl, rfl⟩

theorem after_handOver_beside (g : Gate) (ns : List Notice) (history : List State) (o : Outcome) :
    Beside g ((g.after ns history).handOver o) := by
  obtain ⟨hrequest, hsettings, hexplorer, hqueue⟩ := handOver_beside (g.after ns history) o
  exact ⟨hrequest, hsettings, hexplorer, hqueue⟩

theorem decide_beside (g : Gate) (r : Except Failure (List Session)) : Beside g (g.decide r) := by
  rcases decide_cases g r with
    ⟨_, _, -, h⟩ | ⟨_, ns, history, o, -, -, -, h⟩ | ⟨_, _, -, -, h⟩ <;> rw [h]
  · exact ⟨rfl, rfl, rfl, rfl⟩
  · exact after_handOver_beside g ns history o
  · exact ⟨rfl, rfl, rfl, rfl⟩

theorem follow_beside (g : Gate) (sessions : List Session) (flagged : List Finding)
    (reply : Except Failure String) : Beside g (g.follow sessions flagged reply) := by
  rcases follow_cases g sessions flagged reply with
    ⟨-, history, o, -, h⟩ | ⟨-, n, history, o, -, -, -, -, h⟩ <;> rw [h]
  · exact after_handOver_beside g [] history o
  · exact ⟨rfl, rfl, rfl, rfl⟩

theorem settle_fixed (g : Gate) (s : Scan) (result : Except Failure Session) :
    (g.settle s result).request = g.request ∧ (g.settle s result).settings = g.settings := by
  obtain ⟨ns, history, ⟨root, rest, -, h⟩ | ⟨scanned, h, -⟩⟩ := settle_cases g s result <;>
    rw [h] <;> exact ⟨rfl, rfl⟩

/-- Request and settings stay what they were. -/
theorem Move.fixed {g g' : Gate} {l : Label} (h : Move g l g') :
    g'.request = g.request ∧ g'.settings = g.settings := by
  cases h with
  | complete => exact settle_fixed g _ _
  | fail => exact settle_fixed _ _ _
  | decide => exact ⟨(decide_beside g _).request, (decide_beside g _).settings⟩
  | follow => exact ⟨(follow_beside g _ _ _).request, (follow_beside g _ _ _).settings⟩
  | _ => exact ⟨rfl, rfl⟩

/-- What the queue's own moves and the beginnings of its calls keep, the gate keeps. -/
theorem Move.queue_induction {P : Queue → Prop}
    (hmove : ∀ {q q' : Queue} {l : Queue.Label}, P q → Queue.Move q l q' → P q')
    (hbegin : ∀ {q : Queue} (c : Queue.Call), P q → P (q.beginCall c)) {g g' : Gate} {l : Label}
    (h : Move g l g') (hg : P g.queue) : P g'.queue := by
  cases h with
  | analyze _ hq => exact hmove hg (Queue.step_move hq)
  | arrive => exact hbegin _ hg
  | @complete s tree keys =>
    obtain ⟨ns, history, ⟨root, rest, -, h⟩ | ⟨scanned, h, -⟩⟩ :=
      settle_cases g s (.ok (g.session s tree keys)) <;> rw [h]
    · exact hg
    · exact hbegin .shutdown hg
  | @fail _ s x q e _ _ hq =>
    have hqueue : P q := by
      rcases hq with ⟨rfl, -⟩ | ⟨-, hq⟩
      · exact hg
      · exact hmove hg (Queue.step_move hq)
    obtain ⟨ns, history, ⟨root, rest, -, h⟩ | ⟨scanned, h, -⟩⟩ :=
      settle_cases { g with explorer := x, queue := q } s (.error e) <;> rw [h]
    · exact hqueue
    · exact hbegin .shutdown hqueue
  | decide => exact (decide_beside g _).queue ▸ hg
  | follow => exact (follow_beside g _ _ _).queue ▸ hg
  | _ => exact hg

theorem settle_explorer (g : Gate) (s : Scan) (result : Except Failure Session) :
    (g.settle s result).explorer = g.explorer := by
  obtain ⟨ns, history, ⟨root, rest, -, h⟩ | ⟨scanned, h, -⟩⟩ := settle_cases g s result <;>
    rw [h] <;> rfl

/-- What the explorer's own steps, the beginnings of walks and the answers about newest versions
keep, the gate keeps. -/
theorem Move.explorer_induction {P : Explorer → Prop}
    (hstep : ∀ {x x' : Explorer} {k : Explorer.Label}, P x → x.step k = some x' → P x')
    (hbegin : ∀ {x : Explorer} (root : Package), P x → P (x.begin root))
    (hlatest : ∀ {x : Explorer} (name : String) (reply : Except Failure (Option String)), P x →
      P { x with memo := x.memo.map (·.keepLatest name reply) }) {g g' : Gate} {l : Label}
    (h : Move g l g') (hg : P g.explorer) : P g'.explorer := by
  have hhandles : ∀ {x : Explorer}, Handles g.explorer x → P x := by
    intro x hx
    cases hx with
    | leave => exact hg
    | keep name reply => exact hlatest name reply hg
    | cancel hx => exact hstep hg hx
  cases h with
  | explore _ hx => exact hstep hg hx
  | walk _ hx => exact hbegin _ (hhandles hx)
  | complete =>
    rw [settle_explorer]
    exact hg
  | fail _ _ _ hx =>
    rw [settle_explorer]
    exact hhandles hx
  | decide => exact (decide_beside g _).explorer ▸ hg
  | follow => exact (follow_beside g _ _ _).explorer ▸ hg
  | _ => exact hg

theorem accounted_beginCall {q : Queue} (c : Queue.Call) (h : q.Accounted) :
    (q.beginCall c).Accounted := by
  cases c with
  | analyzeAll keys => cases keys <;> exact h
  | enqueue | drain | shutdown => exact h

theorem beginCall_findings (q : Queue) (c : Queue.Call) :
    (q.beginCall c).findings = q.findings := by
  cases c with
  | analyzeAll keys => cases keys <;> rfl
  | enqueue | drain | shutdown => rfl

/-- The queue's count is right in every state of a run. -/
theorem Move.accounted {g g' : Gate} {l : Label} (h : Move g l g') (hg : g.queue.Accounted) :
    g'.queue.Accounted :=
  h.queue_induction (fun hq hmove => hmove.accounted hq) accounted_beginCall hg

/-- Nothing found is withdrawn, in no step of a run. -/
theorem Move.findings_mono {g g' : Gate} {l : Label} (h : Move g l g') :
    g.queue.findings.entries.Sublist g'.queue.findings.entries := by
  refine h.queue_induction
    (P := fun q => g.queue.findings.entries.Sublist q.findings.entries) ?_ ?_ (.refl _)
  · exact fun hq hmove => hq.trans hmove.findings_mono
  · intro q c hq
    rw [beginCall_findings]
    exact hq

theorem Move.isSorted {g g' : Gate} {l : Label} (h : Move g l g')
    (hg : g.queue.findings.IsSorted) : g'.queue.findings.IsSorted := by
  refine h.queue_induction (P := fun q => q.findings.IsSorted) ?_ ?_ hg
  · exact fun hq hmove => hmove.isSorted hq
  · intro q c hq
    rw [beginCall_findings]
    exact hq

/-- No finding is lost on the way. -/
theorem findings_mono_of_steps {g g' : Gate} {ls : List Label} (h : Steps step g ls g') :
    g.queue.findings.entries.Sublist g'.queue.findings.entries := by
  induction h with
  | refl => exact .refl _
  | tail _ hstep ih => exact ih.trans (step_move hstep).findings_mono

end Gate

end PackageGate
