import Mathlib.Data.Finset.Card
import PackageGate.Proofs.Explorer.Following
import PackageGate.Proofs.Walk.Calls
import PackageGate.Proofs.Walk.Cascade

/-!
# Many fetches

An explorer serves one fetch after another, or several side by side. Walks are begun, take
their steps, and are given up at any time. What every step of a walk keeps, all walks keep.

- `Explorer.Act`, `Explorer.act`: the explorer with its surroundings.
- `Explorer.Turn`, `Explorer.exists_turn`: a step of the explorer is a turn of one walk.
- `Explorer.Lawful`, `Explorer.walks_act`, `Explorer.walks_invariant`: what every walk keeps under
  a registry.
- `Walk.Spread`: how far the tasks of a walk can spread.
- `Explorer.countP_le_of_acts`: the steps of all walks are bounded.
-/

namespace PackageGate

namespace Walk

variable {answers : Package → Except Failure Manifest → Prop} {pool : Finset Package} {width : Nat}
  {sent : List Package} {root : Package} {w w' : Walk} {l : Label} {x : Option Entry}

/-! ## How far a walk can spread -/

/-- Whatever may be answered to a package of the pool leads to packages of the pool only, and
to no more than `width` of them. -/
structure Spans (answers : Package → Except Failure Manifest → Prop) (pool : Finset Package)
    (width : Nat) : Prop where
  closed : ∀ p ∈ pool, ∀ m, answers p (.ok m) → ∀ q ∈ edgePackages m, q ∈ pool
  narrow : ∀ p ∈ pool, ∀ m, answers p (.ok m) → (edgePackages m).length ≤ width

/-- After requests for the packages `sent`, the tasks of a walk stay within the pool, and each
request that is answered has started no more than `width` of them. -/
structure Spread (pool : Finset Package) (width : Nat) (sent : List Package) (w : Walk) :
    Prop where
  sparing : Sparing sent w
  tasks : ∀ u ∈ w.bag, u.package ∈ pool
  asked : ∀ p ∈ sent, p ∈ pool
  started : w.spawned + width * w.calls ≤ 1 + width * sent.length

theorem Spread.ofRoot (hroot : root ∈ pool) (width : Nat) : Spread pool width [] (ofRoot root) where
  sparing := .ofRoot root
  tasks u hu := by
    obtain rfl := List.mem_singleton.mp hu
    exact hroot
  asked := nofun
  started := Nat.le_refl _

/-- New tasks are started only where an answer comes in. -/
theorem Move.spawned_le (h : Move w w' l x)
    (hnarrow : ∀ y m, x = some y → y.answer? = some (.ok m) → (edgePackages m).length ≤ width) :
    w'.spawned ≤ w.spawned + width * l.released := by
  cases h with
  | claim _ _ _ _ _ hs | find _ _ _ _ _ hs | finish _ _ _ _ _ hs | send _ _ _ _ hs
  | refuse _ _ _ _ hs | meet _ _ _ _ _ _ hs | join _ _ _ _ _ _ hs =>
    rw [hs]
    exact Nat.le_add_right _ _
  | @keep _ _ m _ _ _ _ _ hs | @land _ _ m _ _ _ _ _ _ hs =>
    rw [hs, Label.released, Nat.mul_one]
    exact Nat.add_le_add_left (hnarrow _ m rfl rfl) _

/-- A permit is taken for each request that is sent. -/
theorem Move.length_sent? (h : Move w w' l x) (hnodup : (w.bag.map (·.id)).Nodup) :
    (w.sent? l).toList.length = l.taken := by
  cases h with
  | send hbag =>
    rw [sent?_request hnodup (mem_of_bag_eq hbag)]
    rfl
  | claim | find | refuse | keep | land | meet | join | finish => rfl

theorem Spread.move (h : Spread pool width sent w) (hspans : Spans answers pool width)
    (hmove : Move w w' l (w.note? l)) (hobeys : w.Obeys answers l) :
    Spread pool width (sent ++ (w.sent? l).toList) w' where
  sparing := h.sparing.move hmove
  tasks y hy := by
    rcases hmove.packages y hy with ⟨u, hu, hp⟩ | ⟨u, hu, z, m, hz, hasked, hans, hedge⟩
    · rw [hp]
      exact h.tasks u hu
    · have hanswers := hobeys.note hz _ hans
      rw [hasked] at hanswers
      exact hspans.closed _ (h.tasks u hu) m hanswers _ hedge
  asked p hp := by
    rcases List.mem_append.mp hp with hp | hp
    · exact h.asked p hp
    · obtain ⟨u, hu, rfl⟩ := exists_of_sent? (Option.mem_toList.mp hp)
      exact h.tasks u hu
  started := by
    have hspawned : w'.spawned ≤ w.spawned + width * l.released := by
      refine hmove.spawned_le fun z m hz hans => ?_
      obtain ⟨u, hu, hasked⟩ := hmove.asked_note hz
      have hanswers := hobeys.note hz _ hans
      rw [hasked] at hanswers
      exact hspans.narrow _ (h.tasks u hu) m hanswers
    -- A permit that is given back pays for the tasks that its answer starts.
    have hcalls := congrArg (width * ·) hmove.calls_eq
    simp only [Nat.mul_add] at hcalls
    have hsent := hmove.length_sent? h.sparing.nodup
    have hstarted := h.started
    rw [List.length_append, hsent, Nat.mul_add]
    omega

theorem Spread.drop (h : Spread pool width sent w) {u : Task} {t : Nat}
    (htask : w.task? t = some u) : Spread pool width sent (w.drop t) where
  sparing := h.sparing.drop t
  tasks y hy := by
    obtain ⟨v, hv, -, rfl⟩ := mem_drop hy
    split <;> exact h.tasks v hv
  asked := h.asked
  started := by
    have hcalls : (w.drop t).calls ≤ w.calls := by
      rw [← calls_drop h.sparing.nodup htask]
      exact Nat.le_add_right _ _
    exact (Nat.add_le_add_left (Nat.mul_le_mul_left width hcalls) _).trans h.started

theorem Spread.step (h : Spread pool width sent w) (hspans : Spans answers pool width)
    (hobeys : w.Obeys answers l) (hstep : w.step l = some w') :
    Spread pool width (sent ++ (w.sent? l).toList) w' := by
  rcases move_or_cut h.sparing.nodup hstep with hmove | hcut
  · exact h.move hspans hmove hobeys
  · rw [hcut.silent.2, Option.toList_none, List.append_nil]
    cases hcut with
    | cancel hrun _ hdrop =>
      rw [hdrop]
      exact h.drop (running?_eq_some hrun).1
    | discard htask _ hdrop =>
      rw [hdrop]
      exact h.drop htask

/-- A walk starts no more than `width` tasks for every package of the pool. -/
theorem Spread.spawned_le (h : Spread pool width sent w) : w.spawned ≤ 1 + width * pool.card := by
  have hnodup : sent.Nodup := h.sparing.nodup_sent.of_map _
  have hcard : sent.length ≤ pool.card := by
    rw [← List.toFinset_card_of_nodup hnodup]
    exact Finset.card_le_card fun p hp => h.asked p (List.mem_toFinset.mp hp)
  have hstarted := h.started
  have hwidth := Nat.mul_le_mul_left width hcard
  omega

/-! ## How much a walk has still to do -/

/-- How many steps a walk may still take that starts no more than `bound` tasks. -/
def pending (bound : Nat) (w : Walk) : Nat := w.left + 5 * (bound - w.spawned)

theorem pending_ofRoot {bound : Nat} (h : 1 ≤ bound) (root : Package) :
    (ofRoot root).pending bound = 5 * bound := by
  have hleft : (ofRoot root).left = 5 := rfl
  have hspawned : (ofRoot root).spawned = 1 := rfl
  rw [pending, hleft, hspawned]
  omega

/-- Every step uses up some of what a walk has still to do. -/
theorem Ordered.pending_lt {bound : Nat} (h : w.Ordered) (hstep : w.step l = some w')
    (hle : w'.spawned ≤ bound) : w'.pending bound < w.pending bound := by
  unfold pending
  rcases move_or_cut h.nodup hstep with hmove | hcut
  · have hleft := hmove.left_lt
    have hspawned := hmove.shape.spawned_le
    omega
  · have hleft := hcut.left_lt h.nodup
    obtain ⟨t, rfl⟩ := hcut.exists_drop
    exact Nat.add_lt_add_right hleft _

end Walk

namespace Explorer

/-- What happens to an explorer: a fetch begins its walk, or a walk takes a step. -/
inductive Act
  | begin (root : Package)
  | own (l : Label)

/-- The explorer after an act, if the act is possible. -/
def act (e : Explorer) : Act → Option Explorer
  | .begin root => some (e.begin root)
  | .own l => e.step l

/-- A walk `w` comes to `w'` with a step of the explorer. -/
inductive Turn (e : Explorer) (w : Walk) : Label → Walk → Prop
  | one {i : Nat} {k : Walk.Label} {w' : Walk} : w.step k = some w' → Turn e w (.walk i k) w'
  | remember {i t : Nat} {p : Package} {m : Manifest} {v w' : Walk} : e.package? i t = some p →
    e.remembered? p = some m → w.step (.request t) = some v →
    v.step (.answer t (.ok m)) = some w' → Turn e w (.recall i t) w'

/-- An answer that comes in with the step is one of `answers`. -/
def Obeys (answers : Package → Except Failure Manifest → Prop) (e : Explorer) : Label → Prop
  | .walk i (.answer t reply) => ∀ p, e.package? i t = some p → answers p reply
  | _ => True

/-- What is remembered are some of the `answers`. -/
def Recalls (answers : Package → Except Failure Manifest → Prop) (e : Explorer) : Prop :=
  ∀ p m, e.remembered? p = some m → answers p (.ok m)

/-- The act begins a fetch of a package of the pool, or brings one of the `answers`. -/
def Lawful (answers : Package → Except Failure Manifest → Prop) (pool : Set Package)
    (e : Explorer) : Act → Prop
  | .begin root => root ∈ pool
  | .own l => e.Obeys answers l

variable {answers : Package → Except Failure Manifest → Prop} {pool : Set Package}
  {e₀ e e' : Explorer} {l : Label} {ls : List Act} {a : Act} {w w' : Walk} {i t : Nat}

/-- A step of the explorer is a turn of the walk that takes it. -/
theorem exists_turn (h : e.step l = some e') : ∃ w w', e.walks[l.owner]? = some w ∧
    Turn e w l w' ∧ e'.walks = e.walks.set l.owner w' := by
  cases step_move h with
  | request hw hw' | answer hw hw' | start hw hw' | join hw hw' | finish hw hw' | cancel hw hw'
  | discard hw hw' => exact ⟨_, _, hw, .one hw', rfl⟩
  | remember hw hp hm hv hw' => exact ⟨_, _, hw, .remember hp hm hv hw', rfl⟩

/-! ## What walks keep -/

/-- What every step of a walk keeps, a turn keeps. -/
theorem Turn.keeps {P : Walk → Prop}
    (hkeep : ∀ {w k w'}, P w → w.Obeys answers k → w.step k = some w' → P w')
    (hw : e.walks[l.owner]? = some w) (h : Turn e w l w') (hrecalls : e.Recalls answers)
    (hobeys : e.Obeys answers l) (hP : P w) : P w' := by
  cases h with
  | @one i k _ hk =>
    refine hkeep hP ?_ hk
    cases k with
    | answer t reply =>
      intro u hu
      refine hobeys u.package ?_
      rw [package?_eq (j := i) hw, hu]
      rfl
    | start | request | join | finish | cancel | discard => trivial
  | @remember i t p m v _ hp hm hv hw' =>
    have hsent : P v := hkeep (k := .request t) hP trivial hv
    refine hkeep (k := .answer t (.ok m)) hsent (fun u hu => ?_) hw'
    rw [package?_eq (j := i) hw, package_of_request hv hu] at hp
    cases hp
    exact hrecalls _ m hm

/-- What is remembered after an act was remembered before, or has just been answered. -/
theorem Recalls.act (h : e.Recalls answers) (hlawful : e.Lawful answers pool a)
    (ha : e.act a = some e') : e'.Recalls answers := by
  cases a with
  | begin root =>
    cases ha
    exact h
  | own l =>
    have ha : e.step l = some e' := ha
    cases step_move ha with
    | answer _ _ hp => exact memo_keep h fun m hm => hm ▸ hlawful _ hp
    | request | remember | start | join | finish | cancel | discard => exact h

/-- What the walk of every root keeps with every step, all walks keep with an act. -/
theorem walks_act {P : Walk → Prop} (hroot : ∀ root ∈ pool, P (.ofRoot root))
    (hkeep : ∀ {w k w'}, P w → w.Obeys answers k → w.step k = some w' → P w')
    (hrecalls : e.Recalls answers) (hwalks : ∀ w ∈ e.walks, P w)
    (hlawful : e.Lawful answers pool a) (ha : e.act a = some e') : ∀ w ∈ e'.walks, P w := by
  cases a with
  | begin root =>
    cases ha
    intro w hw
    rcases List.mem_append.mp hw with hw | hw
    · exact hwalks w hw
    · rw [List.mem_singleton.mp hw]
      exact hroot root hlawful
  | own l =>
    obtain ⟨w, w', hw, hturn, hset⟩ := exists_turn ha
    intro v hv
    rw [hset] at hv
    rcases List.mem_or_eq_of_mem_set hv with hv | rfl
    · exact hwalks v hv
    · exact hturn.keeps hkeep hw hrecalls hlawful (hwalks w (List.mem_of_getElem? hw))

/-- What all walks keep with every act, they keep in every run, and what is remembered has been
answered. -/
theorem walks_invariant {P : Walk → Prop} (hroot : ∀ root ∈ pool, P (.ofRoot root))
    (hkeep : ∀ {w k w'}, P w → w.Obeys answers k → w.step k = some w' → P w')
    (hrecalls : e₀.Recalls answers) (hwalks : ∀ w ∈ e₀.walks, P w) (h : Steps act e₀ ls e)
    (hlawful : ∀ as a bs m, ls = as ++ a :: bs → Steps act e₀ as m → m.Lawful answers pool a) :
    e.Recalls answers ∧ ∀ w ∈ e.walks, P w := by
  induction h with
  | refl => exact ⟨hrecalls, hwalks⟩
  | @tail ls m a u hm ha ih =>
    have hlast := hlawful ls a [] m rfl hm
    obtain ⟨hrecalls, hwalks⟩ := ih fun as b bs n hls => hlawful as b (bs ++ [a]) n (by simp [hls])
    exact ⟨hrecalls.act hlast ha, walks_act hroot hkeep hrecalls hwalks hlast ha⟩

/-- The tasks of every walk stay in order, whatever is answered. -/
theorem ordered_of_acts {limit : Nat} {memo : Option Memo}
    (h : Steps act (ofLimit limit memo) ls e) : ∀ w ∈ e.walks, w.Ordered := by
  have hrecalls : (ofLimit limit memo).Recalls fun _ _ => True := fun _ _ _ => trivial
  refine (walks_invariant (fun root (_ : root ∈ Set.univ) => Walk.Ordered.ofRoot root)
    (fun hw _ hk => hw.step hk) hrecalls (List.forall_mem_nil _) h ?_).2
  intro as a bs m _ _
  cases a with
  | begin root => trivial
  | own l =>
    cases l with
    | walk i k =>
      cases k with
      | answer t reply => exact fun _ _ => trivial
      | start | request | join | finish | cancel | discard => trivial
    | «recall» i t => trivial

/-! ## Steps are used up -/

/-- Whether an act is a step of a walk. -/
def Act.isOwn : Act → Bool
  | .begin _ => false
  | .own _ => true

/-- How many steps all walks may still take, each of which starts no more than `bound` tasks. -/
def pending (bound : Nat) (e : Explorer) : Nat := (e.walks.map (Walk.pending bound)).sum

/-- A turn uses up some of what its walk has still to do. -/
theorem Turn.pending_lt {bound : Nat} (h : Turn e w l w') (hordered : w.Ordered)
    (hle : w'.spawned ≤ bound) : w'.pending bound < w.pending bound := by
  cases h with
  | one hk => exact hordered.pending_lt hk hle
  | @remember _ _ _ _ v _ _ _ hv hw' =>
    have hordered' := hordered.step hv
    have hspawned : v.spawned ≤ w'.spawned := (Walk.step_onward hw').1
    exact (hordered'.pending_lt hw' hle).trans (hordered.pending_lt hv (hspawned.trans hle))

/-- Every step lessens what is pending. -/
theorem pending_step {bound : Nat} (hordered : ∀ w ∈ e.walks, w.Ordered)
    (hle : ∀ w ∈ e'.walks, w.spawned ≤ bound) (h : e.step l = some e') :
    e'.pending bound < e.pending bound := by
  obtain ⟨w, w', hw, hturn, hset⟩ := exists_turn h
  have hw' : w' ∈ e'.walks := by
    rw [hset]
    exact List.mem_of_getElem? (getElem?_set_self_of_some hw)
  have hlt := hturn.pending_lt (hordered w (List.mem_of_getElem? hw)) (hle w' hw')
  have hsum := sum_map_set (Walk.pending bound) hw w'
  unfold pending
  rw [hset]
  omega

/-- Under a registry that leads to the packages of a pool only, each walk takes five steps at
most for every task that it can start. -/
theorem countP_le_of_acts {limit width : Nat} {memo : Option Memo} {pool : Finset Package}
    (hspans : Walk.Spans answers pool width) (h : Steps act (ofLimit limit memo) ls e)
    (hrecalls : (ofLimit limit memo).Recalls answers)
    (hlawful : ∀ as a bs m, ls = as ++ a :: bs → Steps act (ofLimit limit memo) as m →
      m.Lawful answers pool a) :
    ls.countP Act.isOwn + e.pending (1 + width * pool.card) ≤
      5 * (1 + width * pool.card) * e.walks.length := by
  induction h with
  | refl => exact Nat.le_refl _
  | @tail ls m a u hm ha ih =>
    have ih := ih fun as b bs n hls => hlawful as b (bs ++ [a]) n (by simp [hls])
    rw [List.countP_append, List.countP_singleton]
    cases a with
    | begin root =>
      cases ha
      have hpending : (m.begin root).pending (1 + width * pool.card) =
          m.pending (1 + width * pool.card) + 5 * (1 + width * pool.card) := by
        unfold pending begin
        rw [List.map_append, List.sum_append, List.map_singleton, List.sum_singleton,
          Walk.pending_ofRoot (Nat.le_add_right 1 _)]
      have hlength : (m.begin root).walks.length = m.walks.length + 1 := List.length_append
      rw [hpending, hlength, Nat.mul_succ]
      simp only [Act.isOwn, Bool.false_eq_true, if_false]
      omega
    | own l =>
      -- No walk can start more tasks than the bound, so each step uses up some of what is left.
      have hspread : ∀ w ∈ u.walks, ∃ sent, Walk.Spread pool width sent w := by
        refine (walks_invariant (fun root hroot => ⟨[], .ofRoot hroot width⟩) ?_ hrecalls
          (List.forall_mem_nil _) (.tail hm ha) hlawful).2
        rintro w k w' ⟨sent, hw⟩ hobeys hk
        exact ⟨_, hw.step hspans hobeys hk⟩
      have hlt := pending_step (ordered_of_acts hm) (fun w hw => by
        obtain ⟨sent, hw⟩ := hspread w hw
        exact hw.spawned_le) ha
      obtain ⟨w, w', hw, -, hset⟩ := exists_turn ha
      have hlength : u.walks.length = m.walks.length := by
        rw [hset, List.length_set]
      rw [hlength]
      simp only [Act.isOwn, if_true]
      omega

end Explorer

end PackageGate
