import PackageGate.Proofs.Walk.Accounts

/-!
# The requests of a walk

A task sends a request only for the key that it has claimed itself, and only once. This
holds of every walk, of one that is given up in the middle, too: taking tasks away frees
no key.

- `Walk.Sparing`, `Walk.Sparing.step`: no key is asked for twice, and every step keeps it so.
- `Walk.Called`, `Walk.Called.move`: every request is out or has been answered.
- `Walk.Past`, `Walk.Past.step`: no task goes back.
- `Walk.Sparing.past_of_request`, `Walk.Sparing.past_of_found`: how far a step leads its task.
-/

namespace PackageGate

namespace Walk

/-- The key that a task may still send a request for. -/
def Task.entitled (u : Task) : Multiset String :=
  match u.phase with
  | .queued => {u.package.key}
  | _ => 0

/-- The package that a task waits to be answered about. -/
def Task.asking (u : Task) : Multiset Package :=
  match u.phase with
  | .calling => {u.package}
  | _ => 0

/-- The package whose request an entry tells the answer to. -/
def Entry.replied (x : Entry) : Multiset Package :=
  match x.answer? with
  | some _ => {x.asked}
  | none => 0

/-- Whether an entry tells that a request has succeeded. -/
def Entry.succeeded (x : Entry) : Bool :=
  match x.answer? with
  | some (.ok _) => true
  | _ => false

/-- After requests for the packages `sent`, every key that was or may be asked for is claimed,
and none of them twice. -/
structure Sparing (sent : List Package) (w : Walk) : Prop where
  nodup : (w.bag.map (·.id)).Nodup
  below : ∀ u ∈ w.bag, u.id < w.spawned
  distinct : w.visits.keys.Nodup
  claimed : (sent.map (·.key) : Multiset String) + w.bag.bind Task.entitled ≤ w.visits.keys

/-- After requests for the packages `sent`, each of them is out or has been answered. -/
def Called (sent : List Package) (log : Multiset Entry) (w : Walk) : Prop :=
  (sent : Multiset Package) = w.bag.bind Task.asking + log.bind Entry.replied

variable {root : Package} {sent : List Package} {log : Multiset Entry} {w w' : Walk} {l : Label}
  {x : Option Entry} {u : Task} {n t : Nat}

/-! ## Moves and requests -/

/-- The request that goes out is that of the task that takes the step. -/
theorem sent?_request (hnodup : (w.bag.map (·.id)).Nodup) (hu : u ∈ w.bag) :
    w.sent? (.request u.id) = some u.package := by
  rw [sent?, task?_of_nodup hnodup hu]
  rfl

/-- A request is sent for the package of a task. -/
theorem exists_of_sent? {p : Package} (h : w.sent? l = some p) : ∃ u ∈ w.bag, u.package = p := by
  cases l with
  | request t =>
    obtain ⟨u, htask, rfl⟩ := Option.map_eq_some_iff.mp h
    exact ⟨u, mem_bag.mpr (task?_eq_some htask).1, rfl⟩
  | start | answer | join | finish | cancel | discard => cases h

theorem entitled_children (parent first : Nat) (ps : List Package) :
    (children parent first ps).bind Task.entitled = 0 :=
  bind_children (fun u hphase => by simp only [Task.entitled, hphase]) parent first ps

theorem asking_children (parent first : Nat) (ps : List Package) :
    (children parent first ps).bind Task.asking = 0 :=
  bind_children (fun u hphase => by simp only [Task.asking, hphase]) parent first ps

/-- A move sends no request without a claim to the key. -/
theorem Sparing.claimed_move (h : Sparing sent w) (hmove : Move w w' l x) :
    ((sent ++ (w.sent? l).toList).map (·.key) : Multiset String) +
      w'.bag.bind Task.entitled ≤ w'.visits.keys := by
  have hc := h.claimed
  cases hmove with
  | claim hbag hphase _ hbag' hvisits _ =>
    -- The key that the task may ask for now is the one that it has claimed.
    rw [hbag, Multiset.cons_bind] at hc
    rw [hbag', Multiset.cons_bind, hvisits, ← Multiset.cons_coe]
    simp only [Task.entitled, hphase, zero_add, sent?, Option.toList_none, List.append_nil] at hc ⊢
    rw [add_left_comm, Multiset.singleton_add]
    exact Multiset.cons_le_cons _ hc
  | send hbag hphase hbag' hvisits _ =>
    -- What the task was entitled to is used up.
    rw [sent?_request h.nodup (mem_of_bag_eq hbag), List.map_append, ← Multiset.coe_add]
    rw [hbag, Multiset.cons_bind] at hc
    rw [hbag', Multiset.cons_bind, hvisits]
    simp only [Task.entitled, hphase, zero_add] at hc ⊢
    rw [add_assoc]
    exact hc
  | find hbag hphase _ hbag' hvisits _ | refuse hbag hphase hbag' hvisits _
  | finish hbag hphase _ hbag' hvisits _ =>
    rw [hbag, Multiset.cons_bind] at hc
    rw [hbag', Multiset.cons_bind, hvisits]
    simp only [Task.entitled, hphase, sent?, Option.toList_none, List.append_nil] at hc ⊢
    exact hc
  | meet hbag hphase _ _ hbag' hvisits _ =>
    rw [hbag, Multiset.cons_bind] at hc
    rw [hbag', Multiset.cons_bind, hvisits]
    simp only [Task.entitled, hphase, sent?, Option.toList_none, List.append_nil] at hc ⊢
    exact hc
  | keep hbag hphase _ hbag' hvisits _ =>
    rw [hbag, Multiset.cons_bind] at hc
    rw [hbag', Multiset.cons_bind, Multiset.add_bind, entitled_children, hvisits]
    simp only [Task.entitled, hphase, sent?, Option.toList_none, List.append_nil, add_zero] at hc ⊢
    exact hc
  | land hbag hphase _ _ hbag' hvisits _ =>
    -- The key of the other version is claimed too, but never asked for.
    rw [hbag, Multiset.cons_bind] at hc
    rw [hbag', Multiset.cons_bind, Multiset.add_bind, entitled_children, hvisits,
      ← Multiset.cons_coe]
    simp only [Task.entitled, hphase, sent?, Option.toList_none, List.append_nil, add_zero] at hc ⊢
    exact hc.trans (Multiset.le_cons_self _ _)
  | join hbag hphase _ hjoining hbag' hvisits _ =>
    rw [hbag, Multiset.cons_bind, Multiset.cons_bind] at hc
    rw [hbag', Multiset.cons_bind, hvisits]
    simp only [Task.entitled, hphase, hjoining, zero_add, sent?, Option.toList_none,
      List.append_nil] at hc ⊢
    exact hc

/-- A move asks for no key twice. -/
theorem Sparing.move (h : Sparing sent w) (hmove : Move w w' l x) :
    Sparing (sent ++ (w.sent? l).toList) w' where
  nodup := hmove.shape.nodup h.nodup h.below
  below := hmove.shape.below h.below
  distinct := hmove.distinct h.distinct
  claimed := h.claimed_move hmove

/-- Every move sends a request, takes an answer, or leaves what is out. -/
theorem Called.move (h : Called sent log w) (hw : w.Numbered) (hmove : Move w w' l x) :
    Called (sent ++ (w.sent? l).toList) (extend log x) w' := by
  unfold Called at h ⊢
  cases hmove with
  | claim hbag hphase _ hbag' _ _ | finish hbag hphase _ hbag' _ _ =>
    rw [hbag, Multiset.cons_bind] at h
    rw [hbag', Multiset.cons_bind]
    simp only [Task.asking, hphase, sent?, Option.toList_none, List.append_nil, extend] at h ⊢
    exact h
  | find hbag hphase _ hbag' _ _ =>
    rw [hbag, Multiset.cons_bind] at h
    rw [hbag', Multiset.cons_bind]
    simp only [Task.asking, hphase, sent?, Option.toList_none, List.append_nil, extend,
      Multiset.cons_bind, Entry.replied, Entry.answer?, zero_add] at h ⊢
    exact h
  | send hbag hphase hbag' _ _ =>
    rw [sent?_request hw.nodup (mem_of_bag_eq hbag), ← Multiset.coe_add, h, hbag, hbag',
      Multiset.cons_bind, Multiset.cons_bind]
    simp only [Task.asking, hphase, extend, Option.toList_some, Multiset.coe_singleton]
    abel
  | refuse hbag hphase hbag' _ _ | meet hbag hphase _ _ hbag' _ _ =>
    rw [hbag, Multiset.cons_bind] at h
    rw [hbag', Multiset.cons_bind]
    simp only [Task.asking, hphase, sent?, Option.toList_none, List.append_nil, extend,
      Multiset.cons_bind, Entry.replied, Entry.answer?, Entry.asked, zero_add] at h ⊢
    rw [h, add_left_comm, add_assoc]
  | keep hbag hphase _ hbag' _ _ | land hbag hphase _ _ hbag' _ _ =>
    rw [hbag, Multiset.cons_bind] at h
    rw [hbag', Multiset.cons_bind, Multiset.add_bind, asking_children]
    simp only [Task.asking, hphase, sent?, Option.toList_none, List.append_nil, extend,
      Multiset.cons_bind, Entry.replied, Entry.answer?, Entry.asked, zero_add, add_zero] at h ⊢
    rw [h, add_left_comm, add_assoc]
  | join hbag hphase _ hjoining hbag' _ _ =>
    rw [hbag, Multiset.cons_bind, Multiset.cons_bind] at h
    rw [hbag', Multiset.cons_bind]
    simp only [Task.asking, hphase, hjoining, sent?, Option.toList_none, List.append_nil, extend,
      zero_add] at h ⊢
    exact h

theorem Called.ofRoot (root : Package) : Called [] 0 (ofRoot root) := rfl

/-- When the root task is done, every request has been answered. -/
theorem Called.result (h : Called sent log w) (haccounts : Accounts root log w)
    {r : Except Failure Tree} (hr : w.result? = some r) :
    (sent : Multiset Package) = log.bind Entry.replied := by
  obtain ⟨u, hbag, hphase⟩ := haccounts.alone hr
  unfold Called at h
  rw [h, hbag, Multiset.singleton_bind]
  simp only [Task.asking, hphase, zero_add]

/-- The packages whose requests have been answered, in the order of the history. -/
theorem bind_replied (log : List Entry) : (log : Multiset Entry).bind Entry.replied =
    ((log.filter (·.answer?.isSome)).map Entry.asked : Multiset Package) := by
  induction log with
  | nil => rfl
  | cons x log ih =>
    rw [← Multiset.cons_coe, Multiset.cons_bind, ih, Entry.replied]
    cases hans : x.answer? with
    | none =>
      rw [List.filter_cons_of_neg (by simp [hans])]
      exact zero_add _
    | some reply =>
      rw [List.filter_cons_of_pos (by simp [hans])]
      rfl

/-- What comes of an answer succeeds with it. -/
theorem succeeded_received (w : Walk) (p : Package) (reply : Except Failure Manifest) :
    (w.received p reply).succeeded = reply.isOk := by
  rw [Entry.succeeded, answer?_received]
  cases reply <;> rfl

/-- Only an answer tells of a success. -/
theorem not_succeeded_of_note (hl : ∀ t reply, l ≠ .answer t reply) :
    (w.note? l).toList.countP Entry.succeeded = 0 := by
  cases l with
  | answer t reply => exact absurd rfl (hl t reply)
  | start t =>
    simp only [note?]
    split
    · split <;> rfl
    · rfl
  | request | join | finish | cancel | discard => rfl

/-! ## Every step -/

theorem Sparing.ofRoot (root : Package) : Sparing [] (ofRoot root) where
  nodup := (Accounts.ofRoot root).numbered.nodup
  below := (Accounts.ofRoot root).numbered.below
  distinct := List.nodup_nil
  claimed := le_rfl

/-- Taking a task away frees no key. -/
theorem Sparing.drop (h : Sparing sent w) (t : Nat) : Sparing sent (w.drop t) where
  nodup := nodup_drop h.nodup t
  below := below_drop h.below t
  distinct := h.distinct
  claimed := (add_le_add_right (bind_drop_le Task.entitled (fun _ => rfl) w t) _).trans h.claimed

/-- Every step keeps from asking for a key twice. -/
theorem Sparing.step (h : Sparing sent w) (hstep : w.step l = some w') :
    Sparing (sent ++ (w.sent? l).toList) w' := by
  rcases move_or_cut h.nodup hstep with hmove | hcut
  · exact h.move hmove
  · obtain ⟨t, rfl⟩ := hcut.exists_drop
    rw [hcut.silent.2, Option.toList_none, List.append_nil]
    exact h.drop t

/-- No key was asked for twice. -/
theorem Sparing.nodup_sent (h : Sparing sent w) : (sent.map (·.key)).Nodup := by
  have hle : (sent.map (·.key) : Multiset String) ≤ w.visits.keys :=
    (Multiset.le_add_right _ _).trans h.claimed
  exact Multiset.coe_nodup.mp (Multiset.nodup_of_le hle (Multiset.coe_nodup.mpr h.distinct))

/-! ## How far a task has come -/

/-- How far a task in this phase has come: it has claimed its key, has sent its request, or has
no use for one any more. -/
def Phase.rank : Phase → Nat
  | .spawned => 0
  | .queued => 1
  | .calling => 2
  | .joining _ | .done _ => 3

/-- The task `t` has come as far as `n`, or is gone. -/
structure Past (n t : Nat) (w : Walk) : Prop where
  spawned : t < w.spawned
  rank : ∀ u ∈ w.tasks, u.id = t → n ≤ u.phase.rank

theorem Past.setPhase {k : Nat} {phase : Phase} (h : Past n t w)
    (hphase : k = t → n ≤ phase.rank) : Past n t (w.setPhase k phase) := by
  refine ⟨h.spawned, fun y hy hid => ?_⟩
  obtain ⟨u, hu, rfl⟩ := List.mem_map.mp hy
  split at hid
  · rename_i hk
    rw [if_pos hk]
    exact hphase (hk.symm.trans hid)
  · rename_i hk
    rw [if_neg hk]
    exact h.rank u hu hid

theorem Past.drop (h : Past n t w) (k : Nat) : Past n t (w.drop k) := by
  refine ⟨h.spawned, fun y hy hid => ?_⟩
  obtain ⟨u, hu, rfl⟩ := List.mem_map.mp hy
  have hu := (List.mem_filter.mp hu).1
  split at hid <;> rename_i hk
  · rw [if_pos hk]
    exact h.rank u hu hid
  · rw [if_neg hk]
    exact h.rank u hu hid

/-- A new task has a new number. -/
theorem Past.expand (h : Past n t w) {u : Task} (hrank : u.id = t → n ≤ 3) (resolved : Package)
    (m : Manifest) : Past n t (w.expand u resolved m) := by
  have hset : Past n t (w.setPhase u.id (.joining (.leaf resolved))) := h.setPhase hrank
  refine ⟨hset.spawned.trans_le (Nat.le_add_right _ _), fun y hy hid => ?_⟩
  rcases List.mem_append.mp hy with hy | hy
  · exact hset.rank y hy hid
  · obtain ⟨⟨p, i⟩, hpi, rfl⟩ := List.mem_map.mp hy
    have hle : w.spawned ≤ i := (List.mem_zipIdx hpi).1
    have hlt := h.spawned
    have hit : i = t := hid
    omega

theorem Past.start (h : Past n t w) {u : Task} (hrank : u.id = t → n ≤ 0) :
    Past n t (w.start u) := by
  cases hfree : w.visits.contains u.package.key with
  | true =>
    rw [Walk.start, Visits.mark_of_contains hfree]
    exact h.setPhase fun heq => (hrank heq).trans (Nat.zero_le _)
  | false =>
    rw [Walk.start, Visits.mark_of_free hfree]
    exact Past.setPhase ⟨h.spawned, h.rank⟩ fun heq => (hrank heq).trans (Nat.zero_le _)

theorem Past.receive (h : Past n t w) {u : Task} (hrank : u.id = t → n ≤ 2)
    (reply : Except Failure Manifest) : Past n t (w.receive u reply) := by
  have hrank : u.id = t → n ≤ 3 := fun heq => (hrank heq).trans (Nat.le_succ 2)
  cases reply with
  | error e => exact h.setPhase hrank
  | ok m =>
    show Past n t (if (resolvedPackage u.package m).key = u.package.key then
      w.expand u (resolvedPackage u.package m) m
      else w.settleOn u (resolvedPackage u.package m) m)
    split
    · exact h.expand hrank _ m
    · have hvisits : ∀ visits, Past n t { w with visits } := fun _ => ⟨h.spawned, h.rank⟩
      unfold settleOn
      dsimp only
      split
      · exact (hvisits _).expand hrank _ m
      · exact (hvisits _).setPhase hrank

/-- The task that takes a step has come as far as the step tells. -/
theorem Past.running (h : Past n t w) {k : Nat} (hrun : w.running? k = some u) :
    k = u.id ∧ (u.id = t → n ≤ u.phase.rank) := by
  obtain ⟨-, hu, hid⟩ := running?_eq_some hrun
  exact ⟨hid.symm, h.rank u hu⟩

/-- No step leads a task back. -/
theorem Past.step (h : Past n t w) (hstep : w.step l = some w') : Past n t w' := by
  cases l with
  | start k =>
    simp only [Walk.step] at hstep
    split at hstep
    · rename_i u hrun
      obtain ⟨rfl, hrank⟩ := h.running hrun
      split at hstep <;> cases hstep
      rename_i hphase
      rw [hphase] at hrank
      exact h.start hrank
    · cases hstep
  | request k =>
    simp only [Walk.step] at hstep
    split at hstep
    · rename_i u hrun
      obtain ⟨rfl, hrank⟩ := h.running hrun
      split at hstep <;> cases hstep
      rename_i hphase
      rw [hphase] at hrank
      exact h.setPhase fun heq => (hrank heq).trans (Nat.le_succ 1)
    · cases hstep
  | answer k reply =>
    simp only [Walk.step] at hstep
    split at hstep
    · rename_i u hrun
      obtain ⟨rfl, hrank⟩ := h.running hrun
      split at hstep <;> cases hstep
      rename_i hphase
      rw [hphase] at hrank
      exact h.receive hrank reply
    · cases hstep
  | join k =>
    simp only [Walk.step] at hstep
    split at hstep
    · split at hstep
      · split at hstep
        · rename_i v hrun
          obtain ⟨rfl, hrank⟩ := h.running hrun
          split at hstep <;> cases hstep
          rename_i node hphase
          rw [hphase] at hrank
          refine Past.setPhase ⟨h.spawned, fun y hy => ?_⟩ hrank
          exact h.rank y (List.mem_filter.mp hy).1
        · cases hstep
      · cases hstep
    · cases hstep
  | finish k =>
    simp only [Walk.step] at hstep
    split at hstep
    · rename_i u hrun
      obtain ⟨rfl, hrank⟩ := h.running hrun
      split at hstep
      · rename_i node hphase
        rw [hphase] at hrank
        split at hstep <;> cases hstep
        exact h.setPhase hrank
      · cases hstep
    · cases hstep
  | cancel =>
    simp only [Walk.step] at hstep
    split at hstep
    · split at hstep <;> cases hstep
      exact h.drop rootId
    · cases hstep
  | discard k =>
    simp only [Walk.step] at hstep
    split at hstep
    · split at hstep <;> cases hstep
      exact h.drop k
    · cases hstep

/-- A task has come as far as its phase tells. -/
theorem Sparing.past (h : Sparing sent w) (hu : u ∈ w.tasks) : Past u.phase.rank u.id w := by
  refine ⟨h.below u (mem_bag.mpr hu), fun v hv hid => ?_⟩
  rw [List.inj_on_of_nodup_map (Multiset.coe_nodup.mp h.nodup) hv hu hid]

theorem spawned_of_start (hstep : w.step (.start t) = some w') :
    ∃ u ∈ w.tasks, u.id = t ∧ u.phase = .spawned ∧ w.task? t = some u ∧ w' = w.start u := by
  simp only [step] at hstep
  split at hstep
  · rename_i u hrun
    obtain ⟨htask, hu, hid⟩ := running?_eq_some hrun
    split at hstep <;> cases hstep
    exact ⟨u, hu, hid, ‹_›, htask, rfl⟩
  · cases hstep

/-- Only a task in the queue sends its request. -/
theorem queued_of_request (hstep : w.step (.request t) = some w') :
    ∃ u ∈ w.tasks, u.id = t ∧ u.phase = .queued ∧ w' = w.setPhase t .calling := by
  simp only [step] at hstep
  split at hstep
  · rename_i u hrun
    obtain ⟨-, hu, hid⟩ := running?_eq_some hrun
    split at hstep <;> cases hstep
    exact ⟨u, hu, hid, ‹_›, rfl⟩
  · cases hstep

/-- Only a task that calls is answered. -/
theorem calling_of_answer {reply : Except Failure Manifest}
    (hstep : w.step (.answer t reply) = some w') :
    ∃ u ∈ w.tasks, u.id = t ∧ u.phase = .calling ∧ w.task? t = some u := by
  simp only [step] at hstep
  split at hstep
  · rename_i u hrun
    obtain ⟨htask, hu, hid⟩ := running?_eq_some hrun
    split at hstep <;> cases hstep
    exact ⟨u, hu, hid, ‹_›, htask⟩
  · cases hstep

theorem mem_setPhase {phase : Phase} (hu : u ∈ w.tasks) :
    { u with phase } ∈ (w.setPhase u.id phase).tasks :=
  List.mem_map.mpr ⟨u, hu, if_pos rfl⟩

/-- A task that has sent its request has done so for good. -/
theorem Sparing.past_of_request (h : Sparing sent w) (hstep : w.step (.request t) = some w') :
    Past 2 t w' := by
  have hnext := h.step hstep
  obtain ⟨u, hu, rfl, -, rfl⟩ := queued_of_request hstep
  exact hnext.past (mem_setPhase hu)

/-- A task that was answered does not call again. -/
theorem Sparing.past_of_answer (h : Sparing sent w) {reply : Except Failure Manifest}
    (hstep : w.step (.answer t reply) = some w') : Past 2 t w' := by
  obtain ⟨u, hu, rfl, hphase, -⟩ := calling_of_answer hstep
  have hpast := h.past hu
  rw [hphase] at hpast
  exact hpast.step hstep

/-- A task that has found its key claimed is done. -/
theorem Sparing.past_of_found (h : Sparing sent w) (hstep : w.step (.start t) = some w')
    (htask : w.task? t = some u) (hclaimed : w.visits.contains u.package.key = true) :
    Past 3 t w' := by
  have hnext := h.step hstep
  obtain ⟨v, hv, rfl, -, htask', rfl⟩ := spawned_of_start hstep
  obtain rfl : u = v := Option.some.inj (htask.symm.trans htask')
  rw [Walk.start, Visits.mark_of_contains hclaimed] at hnext ⊢
  exact hnext.past (mem_setPhase hv)

end Walk

end PackageGate
