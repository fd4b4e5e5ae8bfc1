import PackageGate.Proofs.Explorer.Tracked
import PackageGate.Proofs.Gate.Decision
import PackageGate.Proofs.Queue.Scans

/-!
# The world of a run

A world has the answers that a run of the gate can get: those of the registry and those of the
analysis service, each question always answered alike. It may also never answer; then the
deadline comes. What becomes of a root is fixed by the world, unless its time runs out.

- `World`, `World.resolve`, `World.Fails`: the answers, and the roots whose scan they do not let
  through.
- `World.Remembers`: memos of answers of the world.
- `World.Tells`: what the session of a root has to say.
- `Gate.stepIn`: the steps of the gate in a world.
- `Gate.expired`: the scans of a run whose time has run out.
- `Gate.MoveIn`, `Gate.step_moveIn`: the moves of the gate in a world.
-/

namespace PackageGate

/-- Fixed answers of the registry and of the analysis service. -/
structure World where
  catalog : Catalog
  latest : String → Except Failure (Option String)
  service : Queue.Oracle

namespace World

/-- The root in the version in which it is scanned. -/
def resolve (v : World) (root : Package) : Except Failure Package :=
  match Resolution.direct? root with
  | some p => .ok p
  | none => Resolution.ofLatest root (v.latest root.name)

/-- The registry lets no scan of the root go through: its version cannot be settled, or the
request for it fails. -/
def Fails (v : World) (root : Package) : Prop :=
  (∃ e, v.resolve root = .error e) ∨
    ∃ p e, v.resolve root = .ok p ∧ v.catalog.answer p = .error e

/-- What is remembered are answers of the world. -/
structure Remembers (v : World) (memo : Option Memo) : Prop where
  manifests : Explorer.Truthful v.catalog memo
  latest : ∀ name version, memo.bind (·.latest? name) = some version →
    v.latest name = .ok version

/-- What the world has on the root of a session whose scan has gone through. -/
def Tells (v : World) (session : Session) : Prop :=
  ∃ p m, v.resolve session.requested = .ok p ∧ v.catalog.answer p = .ok m ∧
    session.resolved = some (Walk.resolvedPackage p m) ∧
    (∀ key, key ∈ session.analyzedKeys ↔ v.catalog.Listed p key) ∧
    (∀ key, key ∈ session.flaggedKeys ↔
      v.catalog.Listed p key ∧ (v.service.finding? key).isSome) ∧
    session.status = if session.flaggedKeys.isEmpty then .clean else .flagged

variable {v : World} {root p : Package} {memo : Option Memo} {session session' : Session}

theorem resolve_of_direct (h : Resolution.direct? root = some p) : v.resolve root = .ok p := by
  rw [resolve, h]

theorem resolve_of_latest (h : Resolution.direct? root = none) :
    v.resolve root = Resolution.ofLatest root (v.latest root.name) := by
  rw [resolve, h]

theorem remembers_none (v : World) : v.Remembers none := ⟨nofun, nofun⟩

theorem remembers_empty (v : World) : v.Remembers (some .empty) := ⟨nofun, nofun⟩

/-- An answer about the newest version leaves a memo of answers of the world. -/
theorem Remembers.keepLatest (h : v.Remembers memo) {name : String}
    {reply : Except Failure (Option String)} (hreply : reply = v.latest name) :
    v.Remembers (memo.map (·.keepLatest name reply)) := by
  cases memo with
  | none => exact ⟨nofun, nofun⟩
  | some memo =>
    constructor
    · intro p m hm
      have hm : (memo.keepLatest name reply).manifest? p = some m := hm
      rw [Memo.manifest?_keepLatest] at hm
      exact h.manifests p m hm
    · intro name' version hversion
      have hversion : (memo.keepLatest name reply).latest? name' = some version := hversion
      rw [Memo.latest?_keepLatest] at hversion
      by_cases hname : name' = name
      · rw [if_pos hname] at hversion
        cases reply with
        | error e => exact h.latest name' version hversion
        | ok version' =>
          cases hversion
          rw [hname]
          exact hreply.symm
      · rw [if_neg hname] at hversion
        exact h.latest name' version hversion

/-- Every step of the explorer in a world leaves a memo of answers of the world. -/
theorem Remembers.step {e e' : Explorer} {l : Explorer.Label} (h : v.Remembers e.memo)
    (hstep : e.stepUnder v.catalog l = some e') : v.Remembers e'.memo := by
  refine ⟨h.manifests.step hstep, ?_⟩
  cases Explorer.step_move (Explorer.step_of_stepUnder hstep).2 with
  | @answer j t reply w w' p =>
    intro name version hversion
    refine h.latest name version ?_
    cases hmemo : e.memo with
    | none =>
      rw [hmemo] at hversion
      cases hversion
    | some memo =>
      rw [hmemo] at hversion
      have hversion : (memo.keepManifest p reply).latest? name = some version := hversion
      rw [Memo.latest?_keepManifest] at hversion
      exact hversion
  | request | remember | start | join | finish | cancel | discard => exact h.latest

theorem Tells.isFailed (h : v.Tells session) : session.isFailed = false := by
  obtain ⟨p, m, -, -, -, -, -, hstatus⟩ := h
  rw [Session.isFailed, hstatus]
  cases session.flaggedKeys.isEmpty <;> rfl

/-- What the world tells of a root, it does not fail. -/
theorem Tells.not_fails (h : v.Tells session) : ¬v.Fails session.requested := by
  obtain ⟨p, m, hp, hm, -⟩ := h
  rintro (⟨e, he⟩ | ⟨p', e, hp', he⟩)
  · rw [hp] at he
    cases he
  · obtain rfl := Except.ok.inj (hp.symm.trans hp')
    rw [hm] at he
    cases he

end World

/-- Two sessions say the same of the same root, up to the order of the keys. -/
structure Session.Agrees (s s' : Session) : Prop where
  requested : s.requested = s'.requested
  resolved : s.resolved = s'.resolved
  analyzed : ∀ key, key ∈ s.analyzedKeys ↔ key ∈ s'.analyzedKeys
  flagged : ∀ key, key ∈ s.flaggedKeys ↔ key ∈ s'.flaggedKeys
  status : s.status = s'.status

/-- The world decides what a session has to say. -/
theorem World.Tells.agrees {v : World} {s s' : Session} (h : v.Tells s) (h' : v.Tells s')
    (hroot : s.requested = s'.requested) : s.Agrees s' := by
  obtain ⟨p, m, hp, hm, hresolved, hanalyzed, hflagged, hstatus⟩ := h
  obtain ⟨p', m', hp', hm', hresolved', hanalyzed', hflagged', hstatus'⟩ := h'
  rw [← hroot, hp] at hp'
  obtain rfl := Except.ok.inj hp'
  rw [hm] at hm'
  obtain rfl := Except.ok.inj hm'
  have hflags : ∀ key, key ∈ s.flaggedKeys ↔ key ∈ s'.flaggedKeys := fun key =>
    (hflagged key).trans (hflagged' key).symm
  refine ⟨hroot, hresolved.trans hresolved'.symm,
    fun key => (hanalyzed key).trans (hanalyzed' key).symm, hflags, ?_⟩
  have hempty : s.flaggedKeys.isEmpty = s'.flaggedKeys.isEmpty := by
    rw [Bool.eq_iff_iff, List.isEmpty_iff, List.isEmpty_iff, List.eq_nil_iff_forall_not_mem,
      List.eq_nil_iff_forall_not_mem]
    exact forall_congr' fun key => not_congr (hflags key)
  rw [hstatus, hstatus', hempty]

namespace Gate

variable {v : World} {g g' g₀ : Gate} {l : Label} {ls : List Label} {s : Scan}

/-- Whether a label, where it is an answer of the registry or the service, is the world's. -/
def obeys (v : World) (g : Gate) : Label → Bool
  | .explore l => g.explorer.obeys v.catalog l
  | .analyze l => g.queue.obeys v.service l
  | .latest reply =>
    match g.phase with
    | .looking s => reply = v.latest s.root.name
    | _ => true
  | _ => true

/-- The steps of the gate in a world. -/
def stepIn (v : World) (g : Gate) (l : Label) : Option Gate :=
  if g.obeys v l then g.step l else none

theorem step_of_stepIn (h : g.stepIn v l = some g') : g.obeys v l ∧ g.step l = some g' := by
  unfold stepIn at h
  split at h
  · exact ⟨‹_›, h⟩
  · cases h

theorem steps_of_stepIn (h : Steps (stepIn v) g ls g') : Steps step g ls g' :=
  h.mono fun hstep => (step_of_stepIn hstep).2

/-- The number of the root whose time runs out with a step. -/
def expiry? (g : Gate) : Label → Option Nat
  | .expire => g.phase.scan?.map (·.sessions.length)
  | _ => none

/-- The numbers of the roots whose time has run out in the run `ls` from `g₀`. -/
def expired (g₀ : Gate) (ls : List Label) : List Nat := gather step expiry? g₀ ls

theorem expiry?_of_ne (g : Gate) (h : l ≠ .expire) : g.expiry? l = none := by
  cases l with
  | expire => exact absurd rfl h
  | _ => rfl

/-- The scan that is going on, as long as the queue is not called for it. -/
def Phase.exploring? : Phase → Option Scan
  | .resolving s | .looking s | .walking s _ _ => some s
  | _ => none

theorem Phase.scan?_of_exploring? {p : Phase} (h : p.exploring? = some s) : p.scan? = some s := by
  cases p with
  | resolving | looking | walking => exact h
  | _ => cases h

/-- The moves of the gate in the world `v`. -/
inductive MoveIn (v : World) (g : Gate) : Label → Gate → Prop
  | explore {l : Explorer.Label} {x : Explorer} : g.explorer.stepUnder v.catalog l = some x →
    MoveIn v g (.explore l) { g with explorer := x }
  | analyze {l : Queue.Label} {q : Queue} : (∀ c, l ≠ .call c) → l ≠ .timeout →
    g.queue.stepUnder v.service l = some q → MoveIn v g (.analyze l) { g with queue := q }
  | tick {d : Nat} : MoveIn v g (.tick d) { g with now := g.now + d }
  | lookUp {s : Scan} : g.phase = .resolving s → Resolution.direct? s.root = none →
    MoveIn v g .resolve { g.emit (.lookedUp s.root.name) with phase := .looking s }
  | walk {l : Label} {s : Scan} {p : Package} {memo : Option Memo} : l ≠ .expire →
    g.phase.exploring? = some s → v.Remembers memo → v.resolve s.root = .ok p →
    MoveIn v g l ({ g with explorer := { g.explorer with memo } }.walk s p)
  | unresolved {l : Label} {s : Scan} {memo : Option Memo} {e : Failure} : l ≠ .expire →
    g.phase.exploring? = some s → v.Remembers memo → v.resolve s.root = .error e →
    MoveIn v g l ({ g with explorer := { g.explorer with memo } }.settle s (.error e))
  | arrive {s : Scan} {p : Package} {i : Nat} {w : Walk} {t : Tree} :
    g.phase = .walking s p i → g.explorer.walks[i]? = some w →
    g.explorer.result? i = some (.ok t) → MoveIn v g .arrive (g.arrive s w (.ok t))
  | unfetched {s : Scan} {p : Package} {i : Nat} {e : Failure} : g.phase = .walking s p i →
    g.explorer.result? i = some (.error e) → MoveIn v g .arrive (g.settle s (.error e))
  | complete {s : Scan} {tree : Tree} {keys : List String} : g.phase = .analyzing s tree keys →
    g.queue.caller = .returned .finished →
    MoveIn v g .resume (g.settle s (.ok (g.session s tree keys)))
  | late {s : Scan} {x : Explorer} {e : Failure} : g.phase.exploring? = some s →
    x.memo = g.explorer.memo →
    MoveIn v g .expire ({ g with explorer := x }.settle s (.error e))
  | cancel {s : Scan} {tree : Tree} {keys : List String} {q : Queue} {e : Failure} :
    g.phase = .analyzing s tree keys → g.queue.step .timeout = some q →
    MoveIn v g .expire ({ g with queue := q }.settle s (.error e))
  | decide {scanned : Except Failure (List Session)} : g.phase = .closing scanned →
    g.queue.caller = .returned .finished → MoveIn v g .resume (g.decide scanned)
  | follow {sessions : List Session} {flagged : List Finding} {reply : Except Failure String} :
    g.phase = .confirming sessions flagged →
    MoveIn v g (.confirm reply) (g.follow sessions flagged reply)
  | install {draft : Outcome} {reply : Except Failure Int} : g.phase = .installing draft →
    MoveIn v g (.install reply) (g.finish (g.installed draft reply))

/-- The registry's answer about the newest version settles the root's. -/
theorem takeLatest_moveIn {memo : Option Memo} {reply : Except Failure (Option String)}
    (hl : l ≠ .expire) (hexploring : g.phase.exploring? = some s) (hmemo : v.Remembers memo)
    (hdirect : Resolution.direct? s.root = none) (hreply : reply = v.latest s.root.name) :
    MoveIn v g l ({ g with explorer := { g.explorer with memo } }.takeLatest s reply) := by
  have hresolve : v.resolve s.root = Resolution.ofLatest s.root reply := by
    rw [World.resolve_of_latest hdirect, hreply]
  unfold takeLatest
  split
  · rename_i p hp
    exact .walk hl hexploring hmemo (hresolve.trans hp)
  · rename_i e he
    exact .unresolved hl hexploring hmemo (hresolve.trans he)

theorem resolve_moveIn (hmemo : v.Remembers g.explorer.memo) (hphase : g.phase = .resolving s) :
    MoveIn v g .resolve (g.resolve s) := by
  have hexploring : g.phase.exploring? = some s := by
    rw [hphase]
    rfl
  unfold resolve
  split
  · rename_i p hp
    exact .walk nofun hexploring hmemo (World.resolve_of_direct hp)
  · rename_i hdirect
    split
    · rename_i version hversion
      exact takeLatest_moveIn nofun hexploring hmemo hdirect (hmemo.latest _ _ hversion).symm
    · exact .lookUp hphase hdirect

/-- Every step in a world is one of the moves, if the gate asks for the newest version only of
roots that name none, and remembers answers of the world. -/
theorem step_moveIn (hmemo : v.Remembers g.explorer.memo)
    (hlooking : ∀ s, g.phase = .looking s → Resolution.direct? s.root = none)
    (h : g.stepIn v l = some g') : MoveIn v g l g' := by
  obtain ⟨hobeys, hstep⟩ := step_of_stepIn h
  cases l with
  | resolve =>
    simp only [step] at hstep
    split at hstep <;> cases hstep
    exact resolve_moveIn hmemo ‹_›
  | latest reply =>
    simp only [step] at hstep
    split at hstep <;> cases hstep
    rename_i s hphase
    have hreply : reply = v.latest s.root.name := by simpa [obeys, hphase] using hobeys
    have hexploring : g.phase.exploring? = some s := by
      rw [hphase]
      rfl
    exact takeLatest_moveIn (by simp) hexploring (hmemo.keepLatest hreply) (hlooking s hphase)
      hreply
  | explore l =>
    simp only [step] at hstep
    split at hstep
    · obtain ⟨x, hx, rfl⟩ := Option.map_eq_some_iff.mp hstep
      have hobeys : g.explorer.obeys v.catalog l = true := hobeys
      exact .explore (by rw [Explorer.stepUnder, if_pos hobeys, hx])
    · cases hstep
  | analyze l =>
    simp only [step] at hstep
    split at hstep
    · rename_i hfree
      obtain ⟨q, hq, rfl⟩ := Option.map_eq_some_iff.mp hstep
      have hobeys : g.queue.obeys v.service l = true := hobeys
      obtain ⟨hcall, htimeout⟩ := free_of_isFreeStep hfree
      exact .analyze hcall htimeout (by rw [Queue.stepUnder, if_pos hobeys, hq])
    · cases hstep
  | arrive =>
    simp only [step] at hstep
    split at hstep
    · rename_i s p i hphase
      split at hstep <;> cases hstep
      rename_i w result hw hresult
      cases result with
      | ok t => exact .arrive hphase hw hresult
      | error e => exact .unfetched hphase hresult
    · cases hstep
  | resume =>
    simp only [step] at hstep
    split at hstep <;> cases hstep
    · exact .complete ‹_› (ending?_eq_some.mp ‹_›)
    · exact .decide ‹_› (ending?_eq_some.mp ‹_›)
  | expire =>
    simp only [step] at hstep
    split at hstep
    · rename_i s hphase
      split at hstep <;> cases hstep
      exact .late (by rw [hphase]; rfl) rfl
    · rename_i s p i hphase
      split at hstep
      · obtain ⟨x, hx, rfl⟩ := Option.map_eq_some_iff.mp hstep
        -- The walk is cancelled; what is remembered stays.
        refine .late (by rw [hphase]; rfl) ?_
        cases Explorer.step_move hx with
        | cancel => rfl
      · cases hstep
    · rename_i s tree keys hphase
      split at hstep
      · obtain ⟨q, hq, rfl⟩ := Option.map_eq_some_iff.mp hstep
        exact .cancel hphase hq
      · cases hstep
    · cases hstep
  | confirm reply =>
    simp only [step] at hstep
    split at hstep <;> cases hstep
    exact .follow ‹_›
  | install reply =>
    simp only [step] at hstep
    split at hstep <;> cases hstep
    rename_i draft hphase
    cases reply <;> exact .install hphase
  | tick d =>
    simp only [step] at hstep
    split at hstep
    · cases hstep
    · split at hstep
      · cases hstep
      · split at hstep <;> cases hstep
        exact .tick
      · cases hstep
        exact .tick

end Gate

end PackageGate
