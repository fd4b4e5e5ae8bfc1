import PackageGate.Proofs.Walk.Progress

/-!
# Walks that are given up

A walk that is given up loses its root task, and every task that goes aborts its children.
Tasks farther down go on until the cascade comes to them. What holds of every walk, whether
it stands or falls:

- `Walk.Ordered`: while the root task stands, no task is aborted; after that, every task is
  aborted or has an older task that waits for it.
- `Walk.Over`, `Walk.Ordered.exists_step`: a walk that is not over takes a step, if it gets a
  permit where it needs one.
- `Walk.Standing`: a walk that was not given up; it has a result, or it can be given up.
- `Walk.calls_drop`: a task that goes gives its permit back.
- `Walk.isCalling_step`: from when to when a task holds a permit.
- `Walk.left_drop_lt`: the cascade comes to an end.
-/

namespace PackageGate

namespace Walk

variable {w w' : Walk} {l : Label} {u v : Task} {x : Option Entry} {t : Nat}

/-! ## The order of the tasks -/

/-- The tasks of a walk that stands or falls. -/
structure Ordered (w : Walk) : Prop where
  nodup : (w.bag.map (·.id)).Nodup
  below : ∀ u ∈ w.bag, u.id < w.spawned
  spawned : rootId < w.spawned
  /-- Every task is aborted, the root, or has an older task that waits for it. -/
  attended : ∀ u ∈ w.bag, u.aborted = true ∨ (u.id = rootId ∧ u.parent = none) ∨ u.Waited w
  /-- While the root task stands, no task is aborted. -/
  upright : (∃ u ∈ w.bag, u.id = rootId) → ∀ u ∈ w.bag, u.aborted = false

theorem Ordered.ofRoot (root : Package) : Ordered (ofRoot root) where
  nodup := (Accounts.ofRoot root).numbered.nodup
  below := (Accounts.ofRoot root).numbered.below
  spawned := Nat.zero_lt_one
  attended u hu := .inr ((Accounts.ofRoot root).parented u hu)
  upright _ := (Accounts.ofRoot root).numbered.running

theorem Ordered.numbered (h : w.Ordered) (hroot : ∃ u ∈ w.bag, u.id = rootId) : w.Numbered :=
  ⟨h.nodup, h.below, h.upright hroot⟩

theorem Ordered.parented (h : w.Ordered) (hroot : ∃ u ∈ w.bag, u.id = rootId) : w.Parented := by
  intro u hu
  refine (h.attended u hu).resolve_left ?_
  rw [h.upright hroot u hu]
  exact Bool.false_ne_true

/-- In a walk that falls, the oldest task is aborted: nothing is left that would wait for it. -/
theorem Ordered.exists_aborted (h : w.Ordered) (hfallen : ∀ u ∈ w.bag, u.id ≠ rootId)
    (hne : w.bag ≠ 0) : ∃ u ∈ w.bag, u.aborted = true := by
  obtain ⟨u, hu, holdest⟩ := Multiset.exists_min_image (fun y => y.id) hne
  refine ⟨u, hu, (h.attended u hu).resolve_right ?_⟩
  rintro (⟨hid, -⟩ | ⟨v, hv, -, hlt, -⟩)
  · exact hfallen u hu hid
  · exact absurd (holdest v hv) (Nat.not_le.mpr hlt)

/-- A move keeps the tasks in order. -/
theorem Ordered.move (h : w.Ordered) (hmove : Move w w' l x) : w'.Ordered where
  nodup := hmove.shape.nodup h.nodup h.below
  below := hmove.shape.below h.below
  spawned := h.spawned.trans_le hmove.shape.spawned_le
  attended y hy := by
    rcases hmove.shape.waited_cases h.below hy with hwaited | ⟨z, hz, hid, hparent, ha, hnot⟩
    · exact .inr (.inr hwaited)
    · rw [hid, hparent, ha]
      rcases h.attended z hz with haborted | hroot | hwaited
      · exact .inl haborted
      · exact .inr (.inl hroot)
      · exact absurd hwaited hnot
  upright := by
    rintro ⟨r, hr, hr0⟩
    -- New tasks have other numbers, so the root task was there before.
    have hroot : ∃ u ∈ w.bag, u.id = rootId := by
      rcases hmove.shape.task_cases hr with ⟨z, hz, hid, -⟩ | ⟨z, -, p, ps, -, hchild, -⟩
      · exact ⟨z, hz, hid.symm.trans hr0⟩
      · obtain ⟨hle, -⟩ := mem_children hchild
        rw [hr0] at hle
        exact absurd h.spawned (Nat.not_lt.mpr hle)
    intro y hy
    rcases hmove.shape.task_cases hy with ⟨z, hz, -, -, ha⟩ | ⟨z, -, p, ps, -, hchild, -⟩
    · rw [ha]
      exact h.upright hroot z hz
    · exact (mem_children hchild).2.2.2.2.2

/-- A task that goes aborts those for which it has waited. -/
theorem Ordered.drop (h : w.Ordered) (hfallen : ∀ u ∈ (w.drop t).bag, u.id ≠ rootId) :
    (w.drop t).Ordered where
  nodup := nodup_drop h.nodup t
  below := below_drop h.below t
  spawned := h.spawned
  attended u hu := by
    obtain ⟨v, hv, -, rfl⟩ := mem_drop hu
    by_cases hparent : v.parent = some t
    · rw [if_pos hparent]
      exact .inl rfl
    · rw [if_neg hparent]
      rcases h.attended v hv with haborted | hroot | ⟨p, hp, hvp, hlt, node, hnode⟩
      · exact .inl haborted
      · exact .inr (.inl hroot)
      · -- The task that waits for `v` is another one, and stays.
        have hne : p.id ≠ t := by
          rintro rfl
          exact hparent hvp
        refine .inr (.inr ⟨_, mem_drop_of_ne hp hne, ?_⟩)
        split <;> exact ⟨hvp, hlt, node, hnode⟩
  upright := by
    rintro ⟨u, hu, hid⟩
    exact absurd hid (hfallen u hu)

/-- A task that is taken away is the root task, or that one has gone before. -/
theorem Ordered.fallen_of_cut (h : w.Ordered) (hcut : Cut w w' l) :
    ∀ u ∈ w'.bag, u.id ≠ rootId := by
  intro y hy hy0
  cases hcut with
  | cancel _ _ hdrop =>
    rw [hdrop] at hy
    obtain ⟨v, -, hne, rfl⟩ := mem_drop hy
    split at hy0 <;> exact hne hy0
  | discard htask haborted hdrop =>
    rw [hdrop] at hy
    obtain ⟨v, hv, -, rfl⟩ := mem_drop hy
    have hroot : v.id = rootId := by split at hy0 <;> exact hy0
    rw [h.upright ⟨v, hv, hroot⟩ _ (mem_bag.mpr (task?_eq_some htask).1)] at haborted
    cases haborted

/-- Every step keeps the order. -/
theorem Ordered.step (h : w.Ordered) (hstep : w.step l = some w') : w'.Ordered := by
  rcases move_or_cut h.nodup hstep with hmove | hcut
  · exact h.move hmove
  · have hfallen := h.fallen_of_cut hcut
    obtain ⟨t, rfl⟩ := hcut.exists_drop
    exact h.drop hfallen

/-- Giving the walk up takes its root task away. -/
theorem Ordered.gone_of_cancel (h : w.Ordered) (hstep : w.step .cancel = some w') : w'.Gone := by
  rcases move_or_cut h.nodup hstep with hmove | hcut
  · cases hmove
  · exact ⟨fun u hu => h.fallen_of_cut hcut u (mem_bag.mpr hu), (h.step hstep).spawned⟩

/-! ## Walks that are over -/

/-- The walk has its result, or it was given up and no task is left. -/
def Over (w : Walk) : Prop := w.tasks = [] ∨ ∃ r, w.result? = some r

theorem exists_root_of_result {r : Except Failure Tree} (hr : w.result? = some r) :
    ∃ u ∈ w.bag, u.id = rootId := by
  unfold result? at hr
  split at hr
  · rename_i u hrun
    obtain ⟨-, hu, hid⟩ := running?_eq_some hrun
    exact ⟨u, mem_bag.mpr hu, hid⟩
  · cases hr

/-- A walk that is not over discards a task, goes on by itself, or waits for a permit or an
answer. -/
theorem Ordered.exists_step (h : w.Ordered) (hover : ¬w.Over) :
    (∃ t w', w.step (.discard t) = some w') ∨
      w.Numbered ∧ ∃ u ∈ w.bag, u.phase = .calling ∨ u.phase = .queued ∨
        ∃ l w', Inner l ∧ w.step l = some w' := by
  by_cases hroot : ∃ u ∈ w.bag, u.id = rootId
  · right
    have hr : w.result? = none := by
      by_contra hne
      obtain ⟨r, hr⟩ := Option.ne_none_iff_exists'.mp hne
      exact hover (.inr ⟨r, hr⟩)
    exact ⟨h.numbered hroot, (h.parented hroot).exists_step (h.numbered hroot) hroot hr⟩
  · left
    push Not at hroot
    have hne : w.bag ≠ 0 := by
      intro h0
      exact hover (.inl ((Multiset.coe_eq_zero _).mp h0))
    obtain ⟨u, hu, haborted⟩ := h.exists_aborted hroot hne
    refine ⟨u.id, w.drop u.id, ?_⟩
    simp only [Walk.step, task?_of_nodup h.nodup hu, haborted, if_true]

/-- A walk that is over takes no step. -/
theorem Over.step_eq_none (hover : w.Over) (h : w.Ordered) (l : Label) : w.step l = none := by
  rcases hover with htasks | ⟨r, hr⟩
  · have htask : ∀ t, w.task? t = none := fun t => by rw [task?, htasks]; rfl
    cases l <;> simp only [step, running?, htask, Option.filter_none]
  · have hroot := exists_root_of_result hr
    exact (h.parented hroot).step_eq_none (h.numbered hroot) hr l

/-- A walk that is over holds no permit. -/
theorem Over.calls_eq_zero (hover : w.Over) (h : w.Ordered) : w.calls = 0 := by
  rcases hover with htasks | ⟨r, hr⟩
  · rw [calls, bag, htasks]
    rfl
  · have hroot := exists_root_of_result hr
    obtain ⟨u, hbag, hphase⟩ := (h.parented hroot).alone (h.numbered hroot) hr
    rw [calls, hbag, Multiset.map_singleton, Multiset.sum_singleton, hphase]
    rfl

/-! ## Walks that were not given up -/

/-- A walk that was not given up: its root task is there. -/
structure Standing (w : Walk) : Prop where
  ordered : w.Ordered
  rooted : ∃ u ∈ w.bag, u.id = rootId

theorem Standing.ofRoot (root : Package) : Standing (ofRoot root) where
  ordered := .ofRoot root
  rooted := ⟨_, Multiset.mem_coe.mpr (List.mem_singleton_self _), rfl⟩

theorem Standing.numbered (h : w.Standing) : w.Numbered := h.ordered.numbered h.rooted

/-- No task of it is taken away. -/
theorem Standing.move (h : w.Standing) (hl : l ≠ .cancel) (hstep : w.step l = some w') :
    Move w w' l (w.note? l) := by
  rcases move_or_cut h.ordered.nodup hstep with hmove | hcut
  · exact hmove
  · cases hcut with
    | cancel => exact absurd rfl hl
    | discard htask haborted =>
      rw [h.ordered.upright h.rooted _ (mem_bag.mpr (task?_eq_some htask).1)] at haborted
      cases haborted

/-- Only giving the walk up takes the root task away. -/
theorem Standing.step (h : w.Standing) (hl : l ≠ .cancel) (hstep : w.step l = some w') :
    w'.Standing :=
  ⟨h.ordered.step hstep, (h.move hl hstep).rooted (h.ordered.parented h.rooted) h.rooted⟩

/-- A walk that stands has its result, or can still be given up. -/
theorem Standing.ends (h : w.Standing) :
    (∃ r, w.result? = some r) ∨ ∃ w', w.step .cancel = some w' := by
  obtain ⟨u, hu, hid⟩ := h.rooted
  have hrun : w.running? rootId = some u := by
    rw [← hid]
    exact running?_of_nodup h.ordered.nodup hu (h.ordered.upright h.rooted u hu)
  cases hphase : u.phase with
  | done r => exact .inl ⟨r, by simp [result?, hrun, hphase]⟩
  | spawned | queued | calling | joining =>
    exact .inr ⟨w.drop rootId, by simp [Walk.step, hrun, hphase]⟩

/-! ## What goes with a task -/

/-- A task that goes takes its share of a sum with it. -/
theorem sum_drop {f : Task → Nat} (hf : ∀ u, f { u with aborted := true } = f u)
    (hnodup : (w.bag.map (·.id)).Nodup) (hu : u ∈ w.tasks) :
    f u + ((w.drop u.id).bag.map f).sum = (w.bag.map f).sum := by
  rw [← cons_map_drop f hf hnodup hu, Multiset.sum_cons]

/-- A task that goes gives its permit back. -/
theorem calls_drop (hnodup : (w.bag.map (·.id)).Nodup) (htask : w.task? t = some u) :
    (w.drop t).calls + (if w.isCalling t then 1 else 0) = w.calls := by
  obtain ⟨hu, rfl⟩ := task?_eq_some htask
  have hsum : u.phase.calls + (w.drop u.id).calls = w.calls :=
    sum_drop (f := (·.phase.calls)) (fun _ => rfl) hnodup hu
  have hcalling : (if w.isCalling u.id then 1 else 0) = u.phase.calls := by
    cases hphase : u.phase <;> simp [isCalling, htask, hphase, Phase.calls]
  rw [hcalling, Nat.add_comm]
  exact hsum

/-- Taking a task away leaves less to do. -/
theorem left_drop_lt (hnodup : (w.bag.map (·.id)).Nodup) (htask : w.task? t = some u) :
    (w.drop t).left < w.left := by
  obtain ⟨hu, rfl⟩ := task?_eq_some htask
  have hsum : u.phase.left + (w.drop u.id).left = w.left :=
    sum_drop (f := (·.phase.left)) (fun _ => rfl) hnodup hu
  have hpos : 0 < u.phase.left := by cases u.phase <;> exact Nat.succ_pos _
  omega

/-- Taking a task away leaves less to do. -/
theorem Cut.left_lt (h : Cut w w' l) (hnodup : (w.bag.map (·.id)).Nodup) : w'.left < w.left := by
  cases h with
  | cancel hrun _ hdrop =>
    rw [hdrop]
    exact left_drop_lt hnodup (running?_eq_some hrun).1
  | discard htask _ hdrop =>
    rw [hdrop]
    exact left_drop_lt hnodup htask

/-! ## Who holds a permit -/

/-- Among these tasks, the one with the number `t` holds a permit. -/
def CallsIn (s : Multiset Task) (t : Nat) : Prop := ∃ u ∈ s, u.id = t ∧ u.phase = .calling

theorem callsIn_cons {s : Multiset Task} :
    CallsIn (u ::ₘ s) t ↔ (u.id = t ∧ u.phase = .calling) ∨ CallsIn s t := by
  simp only [CallsIn, Multiset.mem_cons, or_and_right, exists_or, exists_eq_left]

/-- Children hold no permit when they are spawned. -/
theorem callsIn_add_children {s : Multiset Task} {parent first : Nat} {ps : List Package} :
    CallsIn (s + children parent first ps) t ↔ CallsIn s t := by
  constructor
  · rintro ⟨u, hu, hid, hphase⟩
    rcases Multiset.mem_add.mp hu with hu | hu
    · exact ⟨u, hu, hid, hphase⟩
    · obtain ⟨-, -, -, -, hspawned, -⟩ := mem_children hu
      rw [hphase] at hspawned
      cases hspawned
  · rintro ⟨u, hu, hcalls⟩
    exact ⟨u, Multiset.mem_add.mpr (.inl hu), hcalls⟩

/-- The walk knows which task holds a permit. -/
theorem isCalling_iff (hnodup : (w.bag.map (·.id)).Nodup) :
    w.isCalling t = true ↔ CallsIn w.bag t := by
  unfold isCalling
  constructor
  · intro h
    split at h
    · rename_i u htask
      obtain ⟨hu, hid⟩ := task?_eq_some htask
      split at h
      · exact ⟨u, mem_bag.mpr hu, hid, ‹_›⟩
      · cases h
    · cases h
  · rintro ⟨u, hu, rfl, hphase⟩
    simp only [task?_of_nodup hnodup hu, hphase]

/-- The step ends the call of the task `t`: its answer comes in, or it is taken away. -/
def Label.Ends (t : Nat) : Label → Prop
  | .answer k _ | .discard k => k = t
  | .cancel => rootId = t
  | _ => False

/-- A permit is held from the request on until the call ends. -/
theorem Move.callsIn_iff (h : Move w w' l x) (hnodup : (w.bag.map (·.id)).Nodup) :
    CallsIn w'.bag t ↔ l = .request t ∨ (CallsIn w.bag t ∧ ¬l.Ends t) := by
  -- A task that has moved is the only one with its number.
  have hne : ∀ {u : Task} {rest : Multiset Task}, w.bag = u ::ₘ rest → CallsIn rest t →
      u.id ≠ t := by
    rintro u rest hbag ⟨v, hv, rfl, -⟩ hid
    rw [hbag, Multiset.map_cons, Multiset.nodup_cons] at hnodup
    exact hnodup.1 (Multiset.mem_map.mpr ⟨v, hv, hid.symm⟩)
  cases h with
  | claim hbag hphase _ hbag' | find hbag hphase _ hbag' | finish hbag hphase _ hbag' =>
    rw [hbag, hbag', callsIn_cons, callsIn_cons]
    simp [hphase, Label.Ends]
  | send hbag hphase hbag' =>
    rw [hbag, hbag', callsIn_cons, callsIn_cons]
    simp [hphase, Label.Ends]
  | refuse hbag hphase hbag' =>
    have hrest := hne hbag
    rw [hbag, hbag', callsIn_cons, callsIn_cons]
    simp only [hphase, Label.Ends, reduceCtorEq, and_false, false_or, and_true]
    tauto
  | meet hbag hphase _ _ hbag' =>
    have hrest := hne hbag
    rw [hbag, hbag', callsIn_cons, callsIn_cons]
    simp only [hphase, Label.Ends, reduceCtorEq, and_false, false_or, and_true]
    tauto
  | keep hbag hphase _ hbag' | land hbag hphase _ _ hbag' =>
    have hrest := hne hbag
    rw [hbag, hbag', callsIn_cons, callsIn_cons, callsIn_add_children]
    simp only [hphase, Label.Ends, reduceCtorEq, and_false, false_or, and_true]
    tauto
  | join hbag hphase _ hjoining hbag' =>
    rw [hbag, hbag', callsIn_cons, callsIn_cons, callsIn_cons]
    simp [hphase, hjoining, Label.Ends]

/-- A task that is taken away holds no permit any more. -/
theorem callsIn_drop {k : Nat} : CallsIn (w.drop k).bag t ↔ CallsIn w.bag t ∧ k ≠ t := by
  constructor
  · rintro ⟨u, hu, rfl, hphase⟩
    obtain ⟨v, hv, hne, rfl⟩ := mem_drop hu
    split at hphase
    · rw [if_pos ‹_›]
      exact ⟨⟨v, hv, rfl, hphase⟩, hne.symm⟩
    · rw [if_neg ‹_›]
      exact ⟨⟨v, hv, rfl, hphase⟩, hne.symm⟩
  · rintro ⟨⟨u, hu, rfl, hphase⟩, hne⟩
    refine ⟨_, mem_drop_of_ne hu hne.symm, ?_⟩
    split <;> exact ⟨rfl, hphase⟩

/-- A task holds a permit from its request until its call ends. -/
theorem isCalling_step (h : w.Ordered) (hstep : w.step l = some w') :
    w'.isCalling t = true ↔ l = .request t ∨ (w.isCalling t = true ∧ ¬l.Ends t) := by
  rw [isCalling_iff h.nodup, isCalling_iff (h.step hstep).nodup]
  rcases move_or_cut h.nodup hstep with hmove | hcut
  · exact hmove.callsIn_iff h.nodup
  · cases hcut with
    | cancel _ _ hdrop =>
      rw [hdrop, callsIn_drop]
      simp [Label.Ends]
    | discard _ _ hdrop =>
      rw [hdrop, callsIn_drop]
      simp [Label.Ends]

end Walk

end PackageGate
