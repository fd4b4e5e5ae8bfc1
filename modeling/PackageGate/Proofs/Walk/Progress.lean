import Mathlib.Algebra.Group.Action.Defs
import Mathlib.Data.Finset.Max
import PackageGate.Proofs.Walk.Told

/-!
# How a walk goes on

A walk of a catalog takes a bounded number of steps, and as long as it has not come to a
result, some task can take one, if it gets a permit where it needs one.

- `Walk.left`: how much the tasks still have to do at most, without those not yet started.
- `Walk.calls`: the number of permits held.
- `Walk.Underway`: the invariant of a walk of a catalog.
- `Walk.Underway.exists_step`: that it can go on.
-/

namespace PackageGate

namespace Walk

/-- How many steps a task in this phase takes at most, its removal included. -/
def Phase.left : Phase → Nat
  | .spawned => 5
  | .queued => 4
  | .calling => 3
  | .joining _ => 2
  | .done _ => 1

/-- How many permits a task in this phase holds. -/
def Phase.calls : Phase → Nat
  | .calling => 1
  | _ => 0

/-- How many steps the tasks of a walk take at most. -/
def left (w : Walk) : Nat := (w.bag.map (·.phase.left)).sum

/-- How many permits the tasks of a walk hold. -/
def calls (w : Walk) : Nat := (w.bag.map (·.phase.calls)).sum

/-- How many permits a step takes. -/
def Label.taken : Label → Nat
  | .request _ => 1
  | _ => 0

/-- How many permits a step gives back. -/
def Label.released : Label → Nat
  | .answer _ _ => 1
  | _ => 0

variable {c : Catalog} {root : Package} {log : Multiset Entry} {w w' : Walk} {l : Label}
  {u v : Task} {note : Option Entry}

theorem left_cons {rest : Multiset Task} (h : w.bag = u ::ₘ rest) :
    w.left = u.phase.left + (rest.map (·.phase.left)).sum := by
  rw [left, h, Multiset.map_cons, Multiset.sum_cons]

theorem calls_cons {rest : Multiset Task} (h : w.bag = u ::ₘ rest) :
    w.calls = u.phase.calls + (rest.map (·.phase.calls)).sum := by
  rw [calls, h, Multiset.map_cons, Multiset.sum_cons]

theorem left_children (parent first : Nat) (ps : List Package) :
    ((children parent first ps).map (·.phase.left)).sum = 5 * ps.length := by
  have hconst : (children parent first ps).map (·.phase.left) =
      (children parent first ps).map fun _ => 5 := by
    refine Multiset.map_congr rfl fun u hu => ?_
    obtain ⟨-, -, -, -, hphase, -⟩ := mem_children hu
    rw [hphase]
    rfl
  have hcard : (children parent first ps).card = ps.length := by
    show ((ps.zipIdx first).map _).length = ps.length
    rw [List.length_map, List.length_zipIdx]
  rw [hconst, Multiset.map_const', Multiset.sum_replicate, hcard, smul_eq_mul, Nat.mul_comm]

theorem calls_children (parent first : Nat) (ps : List Package) :
    ((children parent first ps).map (·.phase.calls)).sum = 0 := by
  refine Multiset.sum_eq_zero fun n hn => ?_
  obtain ⟨u, hu, rfl⟩ := Multiset.mem_map.mp hn
  obtain ⟨-, -, -, -, hphase, -⟩ := mem_children hu
  rw [hphase]
  rfl

/-- Every move uses up a step; what it starts has five steps each. -/
theorem Move.left_lt (h : Move w w' l note) :
    w'.left + 1 + 5 * w.spawned ≤ w.left + 5 * w'.spawned := by
  cases h with
  | claim hbag hphase _ hbag' _ hs | find hbag hphase _ hbag' _ hs
  | send hbag hphase hbag' _ hs | refuse hbag hphase hbag' _ hs
  | meet hbag hphase _ _ hbag' _ hs | finish hbag hphase _ hbag' _ hs =>
    rw [left_cons hbag, left_cons hbag', hphase, hs]
    simp only [Phase.left]
    omega
  | keep hbag hphase _ hbag' _ hs | land hbag hphase _ _ hbag' _ hs =>
    rw [left_cons hbag, left_cons hbag', hphase, hs, Multiset.map_add, Multiset.sum_add,
      left_children]
    simp only [Phase.left]
    omega
  | join hbag hdone _ hjoining hbag' _ hs =>
    rw [left_cons hbag, left_cons hbag', Multiset.map_cons, Multiset.sum_cons, hdone, hjoining, hs]
    simp only [Phase.left]
    omega

/-- A permit is held from the request to its answer. -/
theorem Move.calls_eq (h : Move w w' l note) : w'.calls + l.released = w.calls + l.taken := by
  cases h with
  | claim hbag hphase _ hbag' _ _ | find hbag hphase _ hbag' _ _
  | finish hbag hphase _ hbag' _ _ =>
    rw [calls_cons hbag, calls_cons hbag', hphase]
    rfl
  | send hbag hphase hbag' _ _ | refuse hbag hphase hbag' _ _ | meet hbag hphase _ _ hbag' _ _ =>
    rw [calls_cons hbag, calls_cons hbag', hphase]
    simp only [Phase.calls, Label.taken, Label.released]
    omega
  | keep hbag hphase _ hbag' _ _ | land hbag hphase _ _ hbag' _ _ =>
    rw [calls_cons hbag, calls_cons hbag', hphase, Multiset.map_add, Multiset.sum_add,
      calls_children]
    simp only [Phase.calls, Label.taken, Label.released]
    omega
  | join hbag hdone _ hjoining hbag' _ _ =>
    rw [calls_cons hbag, calls_cons hbag', Multiset.map_cons, Multiset.sum_cons, hdone, hjoining]
    simp only [Phase.calls, Label.taken, Label.released]
    omega

/-- A task is started for every dependency that is to be visited. -/
theorem Move.spawned_eq (h : Move w w' l note)
    (hs : w.spawned = 1 + (log.bind Entry.edges).card) :
    w'.spawned = 1 + ((extend log note).bind Entry.edges).card := by
  cases h with
  | claim _ _ _ _ _ hs' | send _ _ _ _ hs' | join _ _ _ _ _ _ hs' | finish _ _ _ _ _ hs' =>
    rw [hs', hs, extend]
  | find _ _ _ _ _ hs' | refuse _ _ _ _ hs' | meet _ _ _ _ _ _ hs' =>
    rw [hs', hs]
    simp only [extend, Multiset.cons_bind, Entry.edges, Entry.expanded?, zero_add]
  | keep _ _ _ _ _ hs' | land _ _ _ _ _ _ hs' =>
    rw [hs', hs]
    simp only [extend, Multiset.cons_bind, Entry.edges, Entry.expanded?, Multiset.card_add,
      Multiset.coe_card]
    omega

/-- The root task is not taken out: it has no parent to take it. -/
theorem Move.rooted (h : Move w w' l note) (hparented : w.Parented)
    (hroot : ∃ u ∈ w.bag, u.id = rootId) : ∃ u ∈ w'.bag, u.id = rootId := by
  obtain ⟨r, hr, hr0⟩ := hroot
  cases h with
  | @claim u _ hbag _ _ hbag' _ _ | @find u _ hbag _ _ hbag' _ _ | @send u _ hbag _ hbag' _ _
  | @refuse u _ _ _ hbag _ hbag' _ _ | @meet u _ _ hbag _ _ _ hbag' _ _
  | @finish u _ _ hbag _ _ hbag' _ _ =>
    rw [hbag] at hr
    rw [hbag']
    rcases Multiset.mem_cons.mp hr with rfl | hr
    · exact ⟨_, Multiset.mem_cons_self _ _, hr0⟩
    · exact ⟨r, Multiset.mem_cons_of_mem hr, hr0⟩
  | keep hbag _ _ hbag' _ _ | land hbag _ _ _ hbag' _ _ =>
    rw [hbag] at hr
    rw [hbag']
    rcases Multiset.mem_cons.mp hr with rfl | hr
    · exact ⟨_, Multiset.mem_cons_self _ _, hr0⟩
    · exact ⟨r, Multiset.mem_cons_of_mem (Multiset.mem_add.mpr (.inl hr)), hr0⟩
  | @join u v _ _ _ hbag _ hparent _ hbag' _ _ =>
    have hne : r ≠ u := by
      rintro rfl
      rcases hparented r hr with ⟨-, hnone⟩ | ⟨p, -, -, hlt, -⟩
      · rw [hparent] at hnone
        cases hnone
      · rw [hr0] at hlt
        exact absurd hlt (Nat.not_lt_zero _)
    rw [hbag] at hr
    rw [hbag']
    rcases Multiset.mem_cons.mp ((Multiset.mem_cons.mp hr).resolve_left hne) with rfl | hr
    · exact ⟨_, Multiset.mem_cons_self _ _, hr0⟩
    · exact ⟨r, Multiset.mem_cons_of_mem hr, hr0⟩

/-! ## The invariant -/

/-- A walk of a catalog that goes on. -/
structure Underway (c : Catalog) (root : Package) (log : Multiset Entry) (w : Walk) : Prop where
  accounts : Accounts root log w
  grown : Grown log w
  told : Told c root log w
  rooted : ∃ u ∈ w.bag, u.id = rootId
  spawned : w.spawned = 1 + (log.bind Entry.edges).card

theorem Underway.ofRoot (c : Catalog) (root : Package) : Underway c root 0 (ofRoot root) where
  accounts := .ofRoot root
  grown := .ofRoot root
  told := .ofRoot c root
  rooted := ⟨_, Multiset.mem_singleton_self _, rfl⟩
  spawned := rfl

/-- Every move keeps the invariant, if it tells an answer of the catalog. -/
theorem Underway.move (h : Underway c root log w) (hmove : Move w w' l note)
    (hnote : ∀ x, note = some x → x.Faithful c.answer) :
    Underway c root (extend log note) w' where
  accounts := h.accounts.move hmove
  grown := h.grown.move h.accounts hmove fun x hx => (hnote x hx).distinct
  told := h.told.move hmove hnote
  rooted := hmove.rooted h.accounts.parented h.rooted
  spawned := hmove.spawned_eq h.spawned

/-- A walk starts no more tasks than there are dependencies to visit. -/
theorem Underway.spawned_le (h : Underway c root log w) (hc : c.Stable)
    (hfinite : {p | c.Asked root p}.Finite) : w.spawned ≤ 1 + Catalog.breadth hfinite := by
  rw [h.spawned]
  exact Nat.add_le_add_left (h.told.card_edges_le h.accounts hc hfinite) 1

/-! ## Steps that are possible -/

theorem task?_of_mem (hw : w.Numbered) (hu : u ∈ w.bag) : w.task? u.id = some u :=
  task?_of_nodup hw.nodup hu

theorem running?_of_nodup (hnodup : (w.bag.map (·.id)).Nodup) (hu : u ∈ w.bag)
    (haborted : u.aborted = false) : w.running? u.id = some u := by
  rw [running?, task?_of_nodup hnodup hu, Option.filter_some, haborted]
  rfl

theorem running?_of_mem (hw : w.Numbered) (hu : u ∈ w.bag) : w.running? u.id = some u :=
  running?_of_nodup hw.nodup hu (hw.running u hu)

theorem step_request (hw : w.Numbered) (hu : u ∈ w.bag) (hphase : u.phase = .queued) :
    w.step (.request u.id) = some (w.setPhase u.id .calling) := by
  simp only [step, running?_of_mem hw hu, hphase]

/-- A task that calls can be answered, with anything. -/
theorem step_answer (hnodup : (w.bag.map (·.id)).Nodup) (hu : u ∈ w.bag)
    (haborted : u.aborted = false) (hphase : u.phase = .calling)
    (reply : Except Failure Manifest) : w.step (.answer u.id reply) = some (w.receive u reply) := by
  simp only [step, running?_of_nodup hnodup hu haborted, hphase]

/-- The steps that need neither a permit nor an answer. -/
inductive Inner : Label → Prop
  | start (t : Nat) : Inner (.start t)
  | join (t : Nat) : Inner (.join t)
  | finish (t : Nat) : Inner (.finish t)

/-- In a walk without a result the youngest task can go on by itself, or waits for a permit or
an answer: its children would be younger still. -/
theorem Parented.exists_step (h : w.Parented) (hw : w.Numbered)
    (hroot : ∃ u ∈ w.bag, u.id = rootId) (hr : w.result? = none) :
    ∃ u ∈ w.bag, u.phase = .calling ∨ u.phase = .queued ∨
      ∃ l w', Inner l ∧ w.step l = some w' := by
  have hne : w.bag ≠ 0 := by
    obtain ⟨u, hu, -⟩ := hroot
    intro h0
    rw [h0] at hu
    exact Multiset.notMem_zero u hu
  obtain ⟨u, hu, hyoungest⟩ := Multiset.exists_max_image (fun y => y.id) hne
  refine ⟨u, hu, ?_⟩
  have hrun := running?_of_mem hw hu
  cases hphase : u.phase with
  | calling => exact .inl rfl
  | queued => exact .inr (.inl rfl)
  | spawned =>
    refine .inr (.inr ⟨.start u.id, w.start u, .start _, ?_⟩)
    simp only [step, hrun, hphase]
  | joining node =>
    -- A child would be younger than `u`.
    have hchildless : w.tasks.any (·.parent = some u.id) = false := by
      rw [List.any_eq_false]
      intro y hy
      have hy := mem_bag.mpr hy
      rw [decide_eq_true_eq]
      intro hparent
      rcases h y hy with ⟨-, hnone⟩ | ⟨v, -, hv, hlt, -⟩
      · rw [hparent] at hnone
        cases hnone
      · rw [hparent] at hv
        have hle := hyoungest y hy
        rw [Option.some.inj hv] at hle
        omega
    refine .inr (.inr ⟨.finish u.id, w.setPhase u.id (.done (.ok node)), .finish _, ?_⟩)
    simp only [step, hrun, hphase, hchildless, Bool.false_eq_true, if_false]
  | done result =>
    rcases h u hu with ⟨hid, -⟩ | ⟨v, hv, hparent, -, node, hjoining⟩
    · rw [result?, ← hid, hrun] at hr
      simp only [hphase, reduceCtorEq] at hr
    · -- Its parent waits for it.
      have hrun' := running?_of_mem hw hv
      refine .inr (.inr ⟨.join u.id, w.handOver u.id v.id node result, .join _, ?_⟩)
      simp only [step, hrun, hphase, hparent, hrun', hjoining]

/-- A walk that has its result takes no more steps. -/
theorem Parented.step_eq_none (h : w.Parented) (hw : w.Numbered) {r : Except Failure Tree}
    (hr : w.result? = some r) (l : Label) : w.step l = none := by
  obtain ⟨u, hbag, hphase⟩ := h.alone hw hr
  have hone : ∀ {v : Task} {rest : Multiset Task}, w.bag = v ::ₘ rest → v.phase = .done r := by
    intro v rest hbag'
    have hv : v ∈ w.bag := mem_of_bag_eq hbag'
    rw [hbag] at hv
    rw [Multiset.mem_singleton.mp hv]
    exact hphase
  by_contra hsome
  obtain ⟨w', hstep⟩ := Option.ne_none_iff_exists'.mp hsome
  by_cases hcancel : l = .cancel
  · subst hcancel
    simp only [step] at hstep
    split at hstep
    · rename_i v hrun
      have hv := mem_bag.mpr (running?_eq_some hrun).2.1
      rw [hbag] at hv
      rw [Multiset.mem_singleton.mp hv, hphase] at hstep
      cases hstep
    · cases hstep
  · have hmove := step_move hw hcancel hstep
    generalize w.note? l = note at hmove
    cases hmove with
    | claim hbag' hphase' | find hbag' hphase' | send hbag' hphase' | refuse hbag' hphase'
    | keep hbag' hphase' | land hbag' hphase' | meet hbag' hphase' | finish hbag' hphase' =>
      rw [hone hbag'] at hphase'
      cases hphase'
    | join hbag' =>
      have hcard := congrArg Multiset.card hbag
      rw [hbag', Multiset.card_cons, Multiset.card_cons, Multiset.card_singleton] at hcard
      omega

/-- As long as calls are out, some task is calling. -/
theorem exists_calling (h : w.calls ≠ 0) : ∃ u ∈ w.bag, u.phase = .calling := by
  by_contra hnone
  push Not at hnone
  refine h (Multiset.sum_eq_zero fun n hn => ?_)
  obtain ⟨u, hu, rfl⟩ := Multiset.mem_map.mp hn
  cases hphase : u.phase with
  | calling => exact absurd hphase (hnone u hu)
  | _ => rfl

end Walk

end PackageGate
