import Mathlib.Order.Filter.AtTopBot.Basic
import Mathlib.Order.Filter.Finite
import PackageGate.Proofs.Explorer.Fetches
import PackageGate.Proofs.Gate.VirtualTime

/-!
# A gate to which nobody answers

Registry and service may fall silent for good, in the middle of anything. The gate comes to its
decision nevertheless: it can go on, or time passes, and there is an end to both. What its walks
may still do is bounded by what has been answered so far, and that leads to finitely many
packages.

- `Explorer.Confined`: walks and memo stay within a pool of packages.
- `Gate.eventually_confined`: so they do in every state of a run, in every pool that is large
  enough.
- `Gate.Alone`: a step that the gate takes before its decision without any answer.
- `Gate.exists_alone`: there is one; `Gate.acc_alone`: but no endless run of them.
-/

namespace PackageGate

open Filter

/-! ## What walks lead to

The pair `b` is a pool of packages, with the number of packages that one answer leads to at
most. -/

namespace Explorer

variable {e e' : Explorer} {a : Act} {l : Label} {b : Finset Package × Nat}

/-- The answer leads to packages of the pool only, and to no more than the pool's width. -/
def Confines (b : Finset Package × Nat) (_ : Package) (reply : Except Failure Manifest) : Prop :=
  ∀ m, reply = .ok m →
    (∀ q ∈ Walk.edgePackages m, q ∈ b.1) ∧ (Walk.edgePackages m).length ≤ b.2

theorem spans_confines (b : Finset Package × Nat) : Walk.Spans (Confines b) b.1 b.2 where
  closed _ _ m h := (h m rfl).1
  narrow _ _ m h := (h m rfl).2

/-- All that the walks have reached and that is remembered leads to packages of the pool. -/
structure Confined (b : Finset Package × Nat) (e : Explorer) : Prop where
  recalls : e.Recalls (Confines b)
  spread : ∀ w ∈ e.walks, ∃ sent, Walk.Spread b.1 b.2 sent w
  ordered : ∀ w ∈ e.walks, w.Ordered

/-- What is lawful keeps the walks within the pool. -/
theorem Confined.act (h : e.Confined b) (hlawful : e.Lawful (Confines b) b.1 a)
    (ha : e.act a = some e') : e'.Confined b where
  recalls := h.recalls.act hlawful ha
  spread := by
    refine walks_act (fun root hroot => ⟨[], .ofRoot hroot b.2⟩) ?_ h.recalls h.spread hlawful ha
    rintro w k w' ⟨sent, hw⟩ hobeys hk
    exact ⟨_, hw.step (spans_confines b) hobeys hk⟩
  ordered := walks_act (fun root _ => .ofRoot root) (fun hw _ hk => hw.step hk) h.recalls
    h.ordered hlawful ha

/-- The steps of the tasks that need no answer keep to the pool. -/
theorem Confined.step (h : e.Confined b) (hl : l.isForeign = false) (hstep : e.step l = some e') :
    e'.Confined b := by
  refine h.act (a := .own l) ?_ hstep
  cases l with
  | walk i k =>
    cases k with
    | answer => cases hl
    | start | request | join | finish | cancel | discard => trivial
  | «recall» => trivial

/-- An answer about a newest version leads nowhere by itself. -/
theorem Confined.keepLatest (h : e.Confined b) (name : String)
    (reply : Except Failure (Option String)) :
    ({ e with memo := e.memo.map (·.keepLatest name reply) } : Explorer).Confined b := by
  refine ⟨fun p m hm => h.recalls p m ?_, h.spread, h.ordered⟩
  unfold remembered? at hm ⊢
  cases hmemo : e.memo with
  | none =>
    rw [hmemo] at hm
    cases hm
  | some memo =>
    rw [hmemo] at hm
    exact (Memo.manifest?_keepLatest memo name reply p).symm.trans hm

/-- How much the walks may still do within the pool. -/
def leftIn (b : Finset Package × Nat) (e : Explorer) : Nat := e.pending (1 + b.2 * b.1.card)

/-- Every step but an answer or a cancellation uses up some of what is left. -/
theorem Confined.leftIn_lt (h : e.Confined b) (hl : l.isForeign = false)
    (hstep : e.step l = some e') : e'.leftIn b < e.leftIn b := by
  refine pending_step h.ordered (fun w hw => ?_) hstep
  obtain ⟨sent, hspread⟩ := (h.step hl hstep).spread w hw
  exact hspread.spawned_le

/-- A large pool holds what an answer leads to. -/
theorem eventually_confines (p : Package) (reply : Except Failure Manifest) :
    ∀ᶠ b in atTop, Confines b p reply := by
  classical
  cases reply with
  | error e => exact .of_forall fun b m hm => by cases hm
  | ok m =>
    filter_upwards [eventually_ge_atTop
      ((Walk.edgePackages m).toFinset, (Walk.edgePackages m).length)] with b hb
    rintro m' ⟨⟩
    exact ⟨fun q hq => hb.1 (List.mem_toFinset.mpr hq), hb.2⟩

theorem eventually_lawful (e : Explorer) (a : Act) :
    ∀ᶠ b in atTop, e.Lawful (Confines b) b.1 a := by
  cases a with
  | begin root =>
    filter_upwards [eventually_ge_atTop ({root}, 0)] with b hb
    exact hb.1 (Finset.mem_singleton_self root)
  | own l =>
    cases l with
    | walk i k =>
      cases k with
      | answer t reply =>
        cases hp : e.package? i t with
        | none => exact .of_forall fun b p hp' => by simp [hp] at hp'
        | some p =>
          filter_upwards [eventually_confines p reply] with b hb
          intro p' hp'
          obtain rfl := Option.some.inj (hp.symm.trans hp')
          exact hb
      | start | request | join | finish | cancel | discard => exact .of_forall fun _ => trivial
    | «recall» => exact .of_forall fun _ => trivial

theorem eventually_confined_ofLimit (limit : Nat) (memo : Option Memo) :
    ∀ᶠ b in atTop, (ofLimit limit memo).Confined b := by
  have hrecalls : ∀ᶠ b in atTop, (ofLimit limit memo).Recalls (Confines b) := by
    cases memo with
    | none => exact .of_forall fun b p m hm => by cases hm
    | some memo =>
      have hmanifests : ∀ᶠ b in atTop, ∀ x ∈ memo.manifests, Confines b x.1 (.ok x.2) :=
        (eventually_all_finite (List.finite_toSet memo.manifests)).mpr
          fun x _ => eventually_confines x.1 (.ok x.2)
      filter_upwards [hmanifests] with b hb
      intro p m hm
      obtain ⟨xs, ys, hmanifests, -⟩ := List.lookup_eq_some_iff.mp hm
      exact hb (p, m) (hmanifests ▸ List.mem_append_right _ List.mem_cons_self)
  filter_upwards [hrecalls] with b hb
  exact ⟨hb, List.forall_mem_nil _, List.forall_mem_nil _⟩

end Explorer

namespace Gate

variable {request : Request} {settings : Settings} {memo : Option Memo} {ls : List Label}
  {l : Label} {g g' : Gate} {s : Scan} {b : Finset Package × Nat}

/-- In every state of a run, the walks stay within every pool that is large enough. -/
theorem eventually_confined (h : Steps step (start request settings memo) ls g) :
    ∀ᶠ b in atTop, g.explorer.Confined b := by
  refine h.invariant (P := fun g => ∀ᶠ b in atTop, g.explorer.Confined b) ?_ ?_
  · intro g l g' hg hstep
    have hact : ∀ {x x' : Explorer} {a : Explorer.Act}, (∀ᶠ b in atTop, x.Confined b) →
        x.act a = some x' → ∀ᶠ b in atTop, x'.Confined b := by
      intro x x' a hx ha
      filter_upwards [hx, x.eventually_lawful a] with b hb hlawful
      exact hb.act hlawful ha
    refine (step_move hstep).explorer_induction (P := fun x => ∀ᶠ b in atTop, x.Confined b)
      ?_ ?_ ?_ hg
    · exact fun {_ _ k} hx hk => hact (a := .own k) hx hk
    · exact fun root hx => hact (a := .begin root) hx rfl
    · intro x name reply hx
      filter_upwards [hx] with b hb
      exact hb.keepLatest name reply
  · rw [(start_beside request settings memo).explorer]
    exact Explorer.eventually_confined_ofLimit _ _

/-! ## Steps without an answer -/

/-- Whether a step brings no answer of anyone. -/
def Label.isSilent : Label → Bool
  | .tick _ => true
  | l => l.isInner

theorem isSilent_of_isInner (hl : l.isInner = true) (g : Gate) :
    l.isSilent = true ∧ g.stepVirtual l = g.step l := by
  cases l with
  | tick => cases hl
  | resolve | latest | explore | arrive | analyze | resume | expire | confirm | install =>
    exact ⟨hl, rfl⟩

/-- A step that a gate which has not decided takes in virtual time, without any answer. -/
def Alone (after before : Gate) : Prop :=
  before.phase.isDecided = false ∧ ∃ l, l.isSilent = true ∧ before.stepVirtual l = some after

/-- Such a step is possible up to the decision: where nothing goes on, time passes. -/
theorem exists_alone (h : g.phase.isDecided = false) : ∃ g', Alone g' g := by
  by_cases hstill : g.Still
  · have hresult : g.result? = none := by
      unfold result?
      split
      · rename_i hphase
        simp [hphase, Phase.isDecided] at h
      · rfl
    exact ⟨{ g with now := g.now + 1 }, h, .tick 1, rfl, if_pos ⟨rfl, hstill, hresult⟩⟩
  · unfold Still at hstill
    push Not at hstill
    obtain ⟨l, hl, hstep⟩ := hstill
    obtain ⟨g', hg'⟩ := Option.ne_none_iff_exists'.mp hstep
    obtain ⟨hsilent, hvirtual⟩ := isSilent_of_isInner hl g
    exact ⟨g', h, l, hsilent, hvirtual.trans hg'⟩

/-- How many moves the gate itself may still take until its decision. -/
def Phase.movesLeft : Phase → Nat
  | .resolving s => 4 * s.remaining.length + 5
  | .looking s => 4 * s.remaining.length + 4
  | .walking s _ _ => 4 * s.remaining.length + 3
  | .analyzing s _ _ => 4 * s.remaining.length + 2
  | .closing _ => 1
  | .confirming _ _ | .installing _ | .ended _ => 0

theorem movesLeft_settle (g : Gate) (s : Scan) (result : Except Failure Session) :
    (g.settle s result).phase.movesLeft < 4 * s.remaining.length + 2 := by
  obtain ⟨ns, history, ⟨root, rest, ⟨hremaining, -⟩, h⟩ | ⟨scanned, h, -⟩⟩ :=
    settle_cases g s result
  · rw [h, hremaining, List.length_cons]
    simp only [Phase.movesLeft]
    omega
  · rw [h]
    simp only [Phase.movesLeft]
    omega

theorem movesLeft_of_isDecided {p : Phase} (h : p.isDecided = true) : p.movesLeft = 0 := by
  cases p with
  | confirming | installing | ended => rfl
  | resolving | looking | walking | analyzing | closing => cases h

/-- What goes on beside the gate itself without an answer: time passes, or a task, a worker or
the caller of the queue takes a step. -/
inductive Background (g : Gate) : Gate → Prop
  | tick : Background g { g with now := g.now + 1 }
  | explore {k : Explorer.Label} {x : Explorer} : k.isForeign = false →
    g.explorer.step k = some x → Background g { g with explorer := x }
  | analyze {k : Queue.Label} {q : Queue} : isFreeStep k = true → g.queue.step k = some q →
    Background g { g with queue := q }

/-- A step without an answer is a move of the gate itself, or goes on beside it. -/
theorem alone_cases (h : Alone g' g) :
    g'.phase.movesLeft < g.phase.movesLeft ∨ Background g g' := by
  obtain ⟨hundecided, l, hl, hstep⟩ := h
  -- In all stages of a scan, more moves are left than after its end.
  have hmoves : ∀ {s : Scan}, g.phase.scan? = some s →
      4 * s.remaining.length + 2 ≤ g.phase.movesLeft := by
    intro s hs
    cases hphase : g.phase <;> rw [hphase] at hs <;> cases hs <;> simp [Phase.movesLeft]
  by_cases htick : ∃ d, l = .tick d
  · obtain ⟨d, rfl⟩ := htick
    simp only [stepVirtual] at hstep
    split at hstep
    · rename_i hd
      obtain ⟨rfl, -⟩ := hd
      cases hstep
      exact .inr .tick
    · cases hstep
  · have hinner : l.isInner = true := by
      cases l with
      | tick d => exact absurd ⟨d, rfl⟩ htick
      | resolve | latest | explore | arrive | analyze | resume | expire | confirm | install =>
        exact hl
    rw [(isSilent_of_isInner hinner g).2] at hstep
    cases step_move hstep with
    | @explore k x _ hx =>
      have hk : k.isForeign = false := by simpa [Label.isSilent, Label.isInner] using hl
      exact .inr (.explore hk hx)
    | analyze hfree hq => exact .inr (.analyze hfree hq)
    | tick => exact absurd ⟨_, rfl⟩ htick
    | lookUp hp =>
      rw [hp]
      exact .inl (Nat.lt_succ_self _)
    | walk hp =>
      rcases hp with ⟨hp, -⟩ | ⟨hp, _, rfl⟩
      · rw [hp]
        exact .inl (Nat.lt_of_lt_of_le (Nat.lt_succ_self _) (Nat.le_succ _))
      · cases hl
    | arrive hp =>
      rw [hp]
      exact .inl (Nat.lt_succ_self _)
    | complete hp => exact .inl ((movesLeft_settle _ _ _).trans_le (hmoves (by rw [hp]; rfl)))
    | fail _ hscan => exact .inl ((movesLeft_settle _ _ _).trans_le (hmoves hscan))
    | decide hp =>
      rw [hp, movesLeft_of_isDecided (decide_isDecided g _)]
      exact .inl Nat.one_pos
    | follow | install => cases hl

/-- How much can go on beside the gate itself until the time `bound`. -/
def leftUntil (bound : Nat) (b : Finset Package × Nat) (g : Gate) : Nat :=
  (bound - g.now) + g.explorer.leftIn b + g.queue.work

theorem Background.confined (h : Background g g') (hb : g.explorer.Confined b) :
    g'.explorer.Confined b := by
  cases h with
  | explore hk hx => exact hb.step hk hx
  | tick | analyze => exact hb

/-- What goes on in the background uses up some of what is left until the bound. -/
theorem Background.leftUntil_lt (h : Background g g') (hb : g.explorer.Confined b) {bound : Nat}
    (hnow : g'.now ≤ bound) : g'.leftUntil bound b < g.leftUntil bound b := by
  cases h with
  | tick =>
    have hnow : g.now + 1 ≤ bound := hnow
    simp only [leftUntil]
    omega
  | explore hk hx => exact Nat.add_lt_add_right (Nat.add_lt_add_left (hb.leftIn_lt hk hx) _) _
  | analyze hfree hq =>
    obtain ⟨hcall, htimeout⟩ := free_of_isFreeStep hfree
    exact Nat.add_lt_add_left ((Queue.step_move hq).work_lt hcall htimeout) _

/-- No run without an answer is endless, if time passes only up to some `bound`. -/
theorem acc_alone (bound : Nat) (hbound : ∀ {ls : List Label} {g : Gate},
      Steps stepVirtual (start request settings memo) ls g → g.phase.isDecided = false →
      g.now ≤ bound)
    (h : Steps stepVirtual (start request settings memo) ls g) : Acc Alone g := by
  -- Each move of the gate may bring packages in, so the pool is chosen anew after it.
  generalize hmoves : g.phase.movesLeft = n
  induction n using Nat.strong_induction_on generalizing g ls with
  | _ n ih =>
    obtain ⟨b, hb⟩ := (eventually_confined (steps_of_stepVirtual h)).exists
    generalize hleft : g.leftUntil bound b = k
    induction k using Nat.strong_induction_on generalizing g ls with
    | _ k ihk =>
      refine .intro g fun g' halone => ?_
      obtain ⟨hundecided, l, -, hstep⟩ := id halone
      have h' : Steps stepVirtual (start request settings memo) (ls ++ [l]) g' := .tail h hstep
      rcases alone_cases halone with hlt | hbackground
      · exact ih _ (hmoves ▸ hlt) h' rfl
      · have hphase : g'.phase = g.phase := by
          cases hbackground <;> rfl
        have hnow : g'.now ≤ bound := hbound h' (hphase ▸ hundecided)
        have hlt := hbackground.leftUntil_lt hb hnow
        exact ihk _ (hleft ▸ hlt) h' (hphase ▸ hmoves) (hbackground.confined hb) rfl

end Gate

end PackageGate
