import PackageGate.Proofs.Explorer.History
import PackageGate.Proofs.Memo
import PackageGate.Proofs.Walk.Progress

/-!
# One walk under a catalog

With a registry that always answers alike, and no walk given up, an explorer that has begun
a walk of one root takes steps of this walk only. Its permits and its memo stay in order,
and it takes a step as long as the walk has no result.

- `Explorer.stepUnder`: the steps under a catalog.
- `Explorer.Idle`: no walk of the explorer can take a step, and a permit is free.
- `Explorer.Following`, `Explorer.Following.step`: the invariant, and that every step keeps it.
- `Explorer.Following.exists_step`: some step is possible.
- `Explorer.Following.idle`: with a result, the explorer is idle again.
-/

namespace PackageGate

namespace Explorer

/-- Whether a step keeps to a catalog: it gives no walk up, and an answer is the catalog's. -/
def obeys (c : Catalog) (e : Explorer) : Label → Bool
  | .walk _ .cancel => false
  | .walk i (.answer t reply) => (e.package? i t).all fun p => reply = c.answer p
  | _ => true

/-- A step under a catalog. -/
def stepUnder (c : Catalog) (e : Explorer) (l : Label) : Option Explorer :=
  if e.obeys c l then e.step l else none

/-- Nothing is under way: a permit is free, no walk can take a step, and what is remembered
are answers of the catalog. -/
structure Idle (c : Catalog) (e : Explorer) : Prop where
  free : 0 < e.free
  rest : ∀ w ∈ e.walks, ∀ l, w.step l = none
  memo : ∀ p m, e.remembered? p = some m → c.answer p = .ok m

/-- The explorer walks `root`, and nothing else. -/
structure Following (c : Catalog) (root : Package) (e₀ : Explorer) (log : Multiset Walk.Entry)
    (w : Walk) (e : Explorer) : Prop where
  walks : e.walks = e₀.walks ++ [w]
  underway : Walk.Underway c root log w
  permits : e.free + w.calls = e₀.free
  memo : ∀ p m, e.remembered? p = some m → c.answer p = .ok m

variable {c : Catalog} {root p : Package} {e₀ e e' : Explorer} {log : Multiset Walk.Entry}
  {w w' v v' : Walk} {l : Label} {ls : List Label} {note : Option Walk.Entry} {j t : Nat}

theorem idle_ofLimit (c : Catalog) (limit : Nat) : Idle c (ofLimit limit none) where
  free := Nat.lt_of_lt_of_le Nat.one_pos (Nat.le_max_left 1 limit)
  rest := nofun
  memo := nofun

/-- A walk that begins on an idle explorer is followed. -/
theorem Idle.following (h : Idle c e₀) (root : Package) :
    Following c root e₀ 0 (.ofRoot root) (e₀.begin root) where
  walks := rfl
  underway := .ofRoot c root
  permits := Nat.add_zero _
  memo := h.memo

/-! ## One walk takes all steps -/

/-- A walk that takes a step is the one that was begun. -/
theorem Following.index (h : Following c root e₀ log w e)
    (hrest : ∀ w ∈ e₀.walks, ∀ l, w.step l = none) {k : Walk.Label} (hv : e.walks[j]? = some v)
    (hstep : v.step k = some v') : j = e₀.nextWalk ∧ v = w := by
  rw [h.walks] at hv
  by_cases hj : j < e₀.walks.length
  · rw [List.getElem?_append_left hj] at hv
    rw [hrest v (List.mem_of_getElem? hv) k] at hstep
    cases hstep
  · -- Behind the walks of before there is only the one that was begun.
    rw [List.getElem?_append_right (by omega)] at hv
    obtain ⟨hlt, hget⟩ := List.getElem?_eq_some_iff.mp hv
    rw [List.length_singleton] at hlt
    have hj : j = e₀.walks.length := by omega
    subst hj
    refine ⟨rfl, ?_⟩
    simp only [Nat.sub_self, List.getElem_cons_zero] at hget
    exact hget.symm

theorem Following.set (h : Following c root e₀ log w e) (w' : Walk) :
    e.walks.set e₀.nextWalk w' = e₀.walks ++ [w'] := by
  rw [h.walks, nextWalk, List.set_append_right _ _ (Nat.le_refl _), Nat.sub_self]
  rfl

theorem Following.getElem? (h : Following c root e₀ log w e) :
    e.walks[e₀.nextWalk]? = some w := by
  rw [h.walks]
  exact List.getElem?_concat_length

theorem Following.package?_eq (h : Following c root e₀ log w e) (t : Nat) :
    e.package? e₀.nextWalk t = (w.task? t).map (·.package) :=
  Explorer.package?_eq h.getElem? t

/-- The entry for an answer of the catalog tells it. -/
theorem faithful_note {reply : Except Failure Manifest}
    (hreply : ∀ u, w.task? t = some u → reply = c.answer u.package) :
    ∀ x, w.note? (.answer t reply) = some x → x.Faithful c.answer := by
  have hobeys : w.Obeys (fun p r => r = c.answer p) (.answer t reply) := hreply
  exact fun x hx => hobeys.note hx

/-- What is true of a memo stays true when an answer is kept of which it is true. -/
theorem memo_keep {P : Package → Manifest → Prop} {memo : Option Memo}
    {reply : Except Failure Manifest}
    (hmemo : ∀ q m, memo.bind (·.manifest? q) = some m → P q m)
    (hreply : ∀ m, reply = .ok m → P p m) : ∀ q m,
      (memo.map (·.keepManifest p reply)).bind (·.manifest? q) = some m → P q m := by
  intro q m hm
  cases memo with
  | none => cases hm
  | some memo =>
    have hm : (memo.keepManifest p reply).manifest? q = some m := hm
    rw [Memo.manifest?_keepManifest] at hm
    by_cases hq : q = p
    · rw [if_pos hq] at hm
      cases reply with
      | error e => exact hmemo q m hm
      | ok m' =>
        cases hm
        rw [hq]
        exact hreply _ rfl
    · rw [if_neg hq] at hm
      exact hmemo q m hm

/-- A move of the walk, with its effect on the permits. -/
theorem Following.advance (h : Following c root e₀ log w e) {k : Walk.Label}
    (hmove : Walk.Move w w' k note) (hnote : ∀ x, note = some x → x.Faithful c.answer)
    (hwalks : e'.walks = e₀.walks ++ [w']) (hfree : e'.free + k.taken = e.free + k.released)
    (hmemo : ∀ p m, e'.remembered? p = some m → c.answer p = .ok m) :
    Following c root e₀ (Walk.extend log note) w' e' := by
  refine ⟨hwalks, h.underway.move hmove hnote, ?_, hmemo⟩
  have hcalls := hmove.calls_eq
  have hpermits := h.permits
  omega

/-- What a task tells by itself is no answer. -/
theorem faithful_inner {k : Walk.Label} (hk : Walk.Inner k) :
    ∀ x, w.note? k = some x → x.Faithful c.answer := by
  have hobeys : w.Obeys (fun p r => r = c.answer p) k := by cases hk <;> trivial
  exact fun x hx => hobeys.note hx

/-- A task that takes a permit keeps its package. -/
theorem package_of_request (hrequest : w.step (.request t) = some v) {u : Walk.Task}
    (hu : v.task? t = some u) : (w.task? t).map (·.package) = some u.package := by
  simp only [Walk.step] at hrequest
  split at hrequest
  · rename_i r hrun
    obtain ⟨htask, -, hid⟩ := Walk.running?_eq_some hrun
    split at hrequest <;> cases hrequest
    rw [Walk.task?_setPhase, htask, Option.map_some, if_pos hid] at hu
    cases hu
    rw [htask]
    rfl
  · cases hrequest

/-- How much a walk may still do, with five steps for each task. -/
def Uses (w w' : Walk) : Prop := w'.left + 1 + 5 * w.spawned ≤ w.left + 5 * w'.spawned

/-- Every step under a catalog goes on with the walk, and uses up some of what its tasks have
left to do. -/
theorem Following.step (h : Following c root e₀ log w e)
    (hrest : ∀ w ∈ e₀.walks, ∀ l, w.step l = none) (hstep : e.stepUnder c l = some e') :
    ∃ log' w', Following c root e₀ log' w' e' ∧ Uses w w' := by
  unfold stepUnder at hstep
  split at hstep
  · rename_i hobeys
    have hnumbered := h.underway.accounts.numbered
    cases step_move hstep with
    | @request _ t _ _ _ hv hv' hp hfree hnone =>
      obtain ⟨rfl, rfl⟩ := h.index hrest hv hv'
      have hmove := Walk.step_move (l := .request t) hnumbered nofun hv'
      refine ⟨_, _, h.advance hmove nofun (h.set _) ?_ h.memo, hmove.left_lt⟩
      show e.free - 1 + 1 = e.free + 0
      omega
    | @answer _ t reply v _ p hv hv' hp =>
      obtain ⟨rfl, rfl⟩ := h.index hrest hv hv'
      have hmove := Walk.step_move (l := .answer t reply) hnumbered nofun hv'
      have hreply : reply = c.answer p := by
        have hall : (e.package? e₀.nextWalk t).all (fun p => reply = c.answer p) = true := hobeys
        rw [hp] at hall
        exact of_decide_eq_true hall
      have hnote : ∀ x, v.note? (.answer t reply) = some x → x.Faithful c.answer := by
        refine faithful_note fun u hu => ?_
        rw [h.package?_eq, hu] at hp
        cases hp
        exact hreply
      exact ⟨_, _, h.advance hmove hnote (h.set _) rfl
        (memo_keep h.memo fun m hm => hreply.symm.trans hm), hmove.left_lt⟩
    | @remember _ t _ v w' p m hv hp hm hrequest hanswer hfree =>
      -- The permit is taken and given back: two moves of the walk in one step.
      obtain ⟨rfl, rfl⟩ := h.index hrest hv hrequest
      have hmove := Walk.step_move (l := .request t) hnumbered nofun hrequest
      have hsent : Following c root e₀ log v
          { e with walks := e₀.walks ++ [v], free := e.free - 1 } := by
        refine h.advance hmove nofun rfl ?_ h.memo
        show e.free - 1 + 1 = e.free + 0
        omega
      have hmove' := Walk.step_move (l := .answer t (.ok m)) hsent.underway.accounts.numbered nofun
        hanswer
      have hnote : ∀ x, v.note? (.answer t (.ok m)) = some x → x.Faithful c.answer := by
        refine faithful_note fun u hu => ?_
        rw [h.package?_eq, package_of_request hrequest hu] at hp
        cases hp
        exact (h.memo _ _ hm).symm
      have hlast : Following c root e₀ (Walk.extend log (v.note? (.answer t (.ok m)))) w'
          { e with walks := e.walks.set e₀.nextWalk w', fetched := e.fetched + 1 } := by
        refine hsent.advance hmove' hnote (h.set _) ?_ h.memo
        show e.free + 0 = e.free - 1 + 1
        omega
      refine ⟨_, w', hlast, ?_⟩
      have hfirst := hmove.left_lt
      have hsecond := hmove'.left_lt
      unfold Uses
      omega
    | @start _ t _ _ hv hv' =>
      obtain ⟨rfl, rfl⟩ := h.index hrest hv hv'
      have hmove := Walk.step_move (l := .start t) hnumbered nofun hv'
      exact ⟨_, _, h.advance hmove (faithful_inner (.start t)) (h.set _) rfl h.memo, hmove.left_lt⟩
    | @join _ t _ _ hv hv' =>
      obtain ⟨rfl, rfl⟩ := h.index hrest hv hv'
      have hmove := Walk.step_move (l := .join t) hnumbered nofun hv'
      exact ⟨_, _, h.advance hmove (faithful_inner (.join t)) (h.set _) rfl h.memo, hmove.left_lt⟩
    | @finish _ t _ _ hv hv' =>
      obtain ⟨rfl, rfl⟩ := h.index hrest hv hv'
      have hmove := Walk.step_move (l := .finish t) hnumbered nofun hv'
      exact ⟨_, _, h.advance hmove (faithful_inner (.finish t)) (h.set _) rfl h.memo, hmove.left_lt⟩
    -- No walk is given up, so no task is aborted.
    | cancel => cases hobeys
    | @discard _ t _ _ hv hv' =>
      obtain ⟨rfl, rfl⟩ := h.index hrest hv hv'
      cases Walk.step_move (l := .discard t) hnumbered nofun hv'
  · cases hstep

/-! ## Steps that are possible -/

/-- An outstanding request can be answered. -/
theorem exists_answer (hw : e.walks[j]? = some w) (hnodup : (w.bag.map (·.id)).Nodup)
    {u : Walk.Task} (hu : u ∈ w.bag) (haborted : u.aborted = false) (hphase : u.phase = .calling)
    (reply : Except Failure Manifest) : ∃ e', e.step (.walk j (.answer u.id reply)) = some e' := by
  have hstep := Walk.step_answer hnodup hu haborted hphase reply
  simp only [Explorer.step, hw, hstep, package?_eq hw, Walk.task?_of_nodup hnodup hu,
    Option.map_some, Option.bind_eq_bind, Option.bind_some]
  exact ⟨_, rfl⟩

/-- With a free permit, a request is sent or its answer is remembered. -/
theorem exists_request (hw : e.walks[j]? = some w) (hnumbered : w.Numbered) {u : Walk.Task}
    (hu : u ∈ w.bag) (hphase : u.phase = .queued) (hfree : e.free ≠ 0) :
    ∃ l, (l = .walk j (.request u.id) ∨ l = .recall j u.id) ∧ ∃ e', e.step l = some e' := by
  have hstep := Walk.step_request hnumbered hu hphase
  have hpackage : e.package? j u.id = some u.package := by
    rw [package?_eq hw, Walk.task?_of_mem hnumbered hu]
    rfl
  cases hmemo : e.remembered? u.package with
  | none =>
    refine ⟨.walk j (.request u.id), .inl rfl, ?_⟩
    simp only [Explorer.step, hw, hstep, hpackage, Option.bind_eq_bind, Option.bind_some, hmemo,
      hfree, decide_false, Option.isSome_none, Bool.or_self, Bool.false_eq_true, if_false]
    exact ⟨_, rfl⟩
  | some m =>
    -- The remembered answer comes in one step with the permit, which is given back at once.
    have hmove := Walk.step_move (l := .request u.id) hnumbered (by simp) hstep
    have hnumbered' := hnumbered.move hmove.shape
    obtain ⟨rest, -, -, hset⟩ := Walk.bag_split hnumbered.nodup (Walk.mem_bag.mp hu)
    have hu' : { u with phase := .calling } ∈ (w.setPhase u.id .calling).bag := by
      rw [hset]
      exact Multiset.mem_cons_self _ _
    have hstep' := Walk.step_answer hnumbered'.nodup hu' (hnumbered.running u hu) rfl (.ok m)
    refine ⟨.recall j u.id, .inr rfl, ?_⟩
    simp only [Explorer.step, hw, hstep, hpackage, Option.bind_eq_bind, Option.bind_some, hmemo,
      hfree, if_false]
    rw [hstep']
    exact ⟨_, rfl⟩

/-- A task that needs no permit goes on by itself. -/
theorem exists_inner (hw : e.walks[j]? = some w) {k : Walk.Label} (hk : Walk.Inner k)
    (hstep : w.step k = some w') : ∃ e', e.step (.walk j k) = some e' := by
  cases hk <;>
    simp only [Explorer.step, hw, hstep, Option.bind_eq_bind, Option.bind_some] <;>
    exact ⟨_, rfl⟩

/-! ## A walk can go on -/

theorem exists_stepUnder (l : Label) (hobeys : e.obeys c l = true)
    (hstep : ∃ e', e.step l = some e') : ∃ l e', e.stepUnder c l = some e' := by
  obtain ⟨e', hstep⟩ := hstep
  refine ⟨l, e', ?_⟩
  rw [stepUnder, if_pos hobeys]
  exact hstep

theorem Following.package?_of_mem (h : Following c root e₀ log w e) {u : Walk.Task}
    (hu : u ∈ w.bag) : e.package? e₀.nextWalk u.id = some u.package := by
  rw [h.package?_eq, Walk.task?_of_mem h.underway.accounts.numbered hu]
  rfl

/-- An outstanding request can be answered by the catalog. -/
theorem Following.step_answer (h : Following c root e₀ log w e) {u : Walk.Task} (hu : u ∈ w.bag)
    (hphase : u.phase = .calling) : ∃ l e', e.stepUnder c l = some e' := by
  have hnumbered := h.underway.accounts.numbered
  refine exists_stepUnder (.walk e₀.nextWalk (.answer u.id (c.answer u.package))) ?_
    (exists_answer h.getElem? hnumbered.nodup hu (hnumbered.running u hu) hphase _)
  show (e.package? e₀.nextWalk u.id).all _ = true
  rw [h.package?_of_mem hu]
  exact decide_eq_true rfl

theorem Following.result?_eq (h : Following c root e₀ log w e) :
    e.result? e₀.nextWalk = w.result? :=
  Explorer.result?_eq h.getElem?

/-- **No walk gets stuck**: while it has no result, some step is possible. When no permit is
free, all of them are held for requests that can be answered. -/
theorem Following.exists_step (h : Following c root e₀ log w e) (hfree : 0 < e₀.free)
    (hr : e.result? e₀.nextWalk = none) : ∃ l e', e.stepUnder c l = some e' := by
  rw [h.result?_eq] at hr
  have hnumbered := h.underway.accounts.numbered
  obtain ⟨u, hu, hcalling | hqueued | ⟨k, w', hk, hstep⟩⟩ :=
    h.underway.accounts.parented.exists_step hnumbered h.underway.rooted hr
  · exact h.step_answer hu hcalling
  · by_cases hnone : e.free = 0
    · have hpermits := h.permits
      have hcalls : w.calls ≠ 0 := by omega
      obtain ⟨v, hv, hcalling⟩ := Walk.exists_calling hcalls
      exact h.step_answer hv hcalling
    · obtain ⟨l, rfl | rfl, hstep⟩ := exists_request h.getElem? hnumbered hu hqueued hnone
      · exact exists_stepUnder _ rfl hstep
      · exact exists_stepUnder _ rfl hstep
  · refine exists_stepUnder _ ?_ (exists_inner h.getElem? hk hstep)
    cases hk <;> rfl

/-! ## A walk comes to its result -/

/-- A run is followed, and its length is bounded by the tasks that were spawned. -/
theorem following_of_steps (he₀ : Idle c e₀) (h : Steps (stepUnder c) (e₀.begin root) ls e) :
    ∃ log w, Following c root e₀ log w e ∧ ls.length + w.left ≤ 5 * w.spawned := by
  induction h with
  | refl => exact ⟨0, .ofRoot root, he₀.following root, Nat.le_refl _⟩
  | tail _ hstep ih =>
    obtain ⟨log, w, hfollowing, hlength⟩ := ih
    obtain ⟨log', w', hfollowing', huses⟩ := hfollowing.step he₀.rest hstep
    refine ⟨log', w', hfollowing', ?_⟩
    rw [List.length_append, List.length_singleton]
    unfold Uses at huses
    omega

/-- When the walk has its result, all permits are free again and nothing is under way. -/
theorem Following.idle (h : Following c root e₀ log w e) (he₀ : Idle c e₀)
    {r : Except Failure Tree} (hr : e.result? e₀.nextWalk = some r) : Idle c e := by
  rw [h.result?_eq] at hr
  refine ⟨?_, ?_, h.memo⟩
  · obtain ⟨u, hbag, hphase⟩ := h.underway.accounts.alone hr
    have hcalls : w.calls = 0 := by
      rw [Walk.calls, hbag, Multiset.map_singleton, Multiset.sum_singleton, hphase]
      rfl
    have hpermits := h.permits
    have hfree := he₀.free
    omega
  · intro v hv k
    rw [h.walks] at hv
    rcases List.mem_append.mp hv with hv | hv
    · exact he₀.rest v hv k
    · rw [List.mem_singleton.mp hv]
      exact h.underway.accounts.parented.step_eq_none h.underway.accounts.numbered hr k

end Explorer

end PackageGate
