import PackageGate.Proofs.Explorer.Fetches

/-!
# The permits of an explorer

All walks compete for the same permits, and a task may be given up while it waits for one,
while it holds one, and while it waits for its children. No permit is lost that way, and no
task waits for one in vain.

- `Explorer.held`, `Explorer.balance_of_acts`: free and held permits make up the limit.
- `Explorer.Holds`, `Explorer.Granted`, `Explorer.holds_iff`: who holds a permit, and since when.
- `Explorer.exists_lively`: unless all walks are over, some task takes a step.
- `Explorer.gone_of_acts`, `Explorer.exists_cascade`: what is left of a walk that is given up.
- `Explorer.Permits`, `Explorer.permits_of_acts`: what fetches make of the permits.
-/

namespace PackageGate

namespace Walk

variable {w w' : Walk} {l : Label} {t : Nat}

/-- How many permits a step gives back, those of the tasks included that it takes away. -/
def freed (w : Walk) : Label → Nat
  | .answer _ _ => 1
  | .cancel => if w.isCalling rootId then 1 else 0
  | .discard t => if w.isCalling t then 1 else 0
  | _ => 0

theorem Move.freed_eq {x : Option Entry} (h : Move w w' l x) : w.freed l = l.released := by
  cases h <;> rfl

/-- A permit is held until it is given back. -/
theorem calls_step (hnodup : (w.bag.map (·.id)).Nodup) (h : w.step l = some w') :
    w'.calls + w.freed l = w.calls + l.taken := by
  rcases move_or_cut hnodup h with hmove | hcut
  · rw [hmove.freed_eq]
    exact hmove.calls_eq
  · cases hcut with
    | cancel hrun _ hdrop =>
      rw [hdrop]
      exact calls_drop hnodup (running?_eq_some hrun).1
    | discard htask _ hdrop =>
      rw [hdrop]
      exact calls_drop hnodup htask

/-- A task that waits for a permit holds none. -/
theorem not_isCalling_of_request (hnodup : (w.bag.map (·.id)).Nodup)
    (h : w.step (.request t) = some w') : w.isCalling t ≠ true := by
  obtain ⟨u, hu, rfl, hphase, -⟩ := queued_of_request h
  simp only [isCalling, task?_of_nodup hnodup (mem_bag.mpr hu), hphase]
  exact Bool.false_ne_true

end Walk

namespace Explorer

variable {answers : Package → Except Failure Manifest → Prop} {limit : Nat} {memo : Option Memo}
  {e e' : Explorer} {l : Label} {ls : List Act} {a : Act} {w w' : Walk} {i t : Nat}

/-! ## The balance -/

/-- How many permits are held. -/
def held (e : Explorer) : Nat := (e.walks.map Walk.calls).sum

/-- A permit that is taken or given back by a step of the explorer changes hands in the walk. -/
theorem balance_step (hordered : ∀ w ∈ e.walks, w.Ordered) (h : e.step l = some e') :
    e'.free + e'.held = e.free + e.held := by
  have hnodup {j : Nat} {w : Walk} (hw : e.walks[j]? = some w) : (w.bag.map (·.id)).Nodup :=
    (hordered w (List.mem_of_getElem? hw)).nodup
  unfold held
  cases step_move h with
  | @request j t w w' p hw hw' _ hfree _ =>
    have hcalls := Walk.calls_step (hnodup hw) hw'
    have hsum := sum_map_set Walk.calls hw w'
    simp only [Walk.freed, Walk.Label.taken] at hcalls ⊢
    omega
  | @answer j t reply w w' p hw hw' _ =>
    have hcalls := Walk.calls_step (hnodup hw) hw'
    have hsum := sum_map_set Walk.calls hw w'
    simp only [Walk.freed, Walk.Label.taken] at hcalls ⊢
    omega
  | @remember j t w v w' p m hw _ _ hv hw' _ =>
    -- The permit is taken and given back in one step.
    have hcalls := Walk.calls_step (hnodup hw) hv
    have hcalls' := Walk.calls_step ((hordered w (List.mem_of_getElem? hw)).step hv).nodup hw'
    have hsum := sum_map_set Walk.calls hw w'
    simp only [Walk.freed, Walk.Label.taken] at hcalls hcalls' ⊢
    omega
  | @start j t w w' hw hw' | @join j t w w' hw hw' | @finish j t w w' hw hw'
  | @cancel j w w' hw hw' | @discard j t w w' hw hw' =>
    have hcalls := Walk.calls_step (hnodup hw) hw'
    have hsum := sum_map_set Walk.calls hw w'
    simp only [Walk.freed, Walk.Label.taken] at hcalls ⊢
    omega

/-- Free and held permits always make up the limit. -/
theorem balance_of_acts (h : Steps act (ofLimit limit memo) ls e) :
    e.free + e.held = max 1 limit := by
  induction h with
  | refl => rfl
  | @tail ls m a u hm ha ih =>
    cases a with
    | begin root =>
      cases ha
      have hheld : (m.begin root).held = m.held := by
        show ((m.walks ++ [Walk.ofRoot root]).map Walk.calls).sum = _
        rw [List.map_append, List.sum_append, List.map_singleton, List.sum_singleton]
        rfl
      rw [hheld]
      exact ih
    | own l => exact (balance_step (ordered_of_acts hm) ha).trans ih

/-! ## Who holds a permit -/

/-- The task `t` of the walk number `i` holds a permit. -/
def Holds (e : Explorer) (i t : Nat) : Prop := ∃ w, e.walks[i]? = some w ∧ w.isCalling t = true

/-- The act ends the call of the task `t` of the walk number `i`. -/
def Act.Ends (i t : Nat) : Act → Prop
  | .own (.walk j k) => j = i ∧ k.Ends t
  | _ => False

/-- The task `t` of the walk number `i` was granted a permit, and its call has not ended. -/
def Granted (i t : Nat) (ls : List Act) : Prop :=
  ∃ as bs, ls = as ++ .own (.walk i (.request t)) :: bs ∧ ∀ b ∈ bs, ¬b.Ends i t

/-- A permit is granted by the last request unless the task has ended since. -/
theorem granted_concat : Granted i t (ls ++ [a]) ↔
    a = .own (.walk i (.request t)) ∨ (Granted i t ls ∧ ¬a.Ends i t) := by
  constructor
  · rintro ⟨as, bs, hls, hbs⟩
    rcases List.eq_nil_or_concat bs with rfl | ⟨bs, b, rfl⟩
    · left
      exact (List.append_inj' hls rfl).2 |> List.singleton_inj.mp
    · right
      rw [List.concat_eq_append, ← List.cons_append, ← List.append_assoc] at hls
      obtain ⟨rfl, hab⟩ := List.append_inj' hls rfl
      rw [List.concat_eq_append] at hbs
      refine ⟨⟨as, bs, rfl, fun b hb => hbs b (List.mem_append_left _ hb)⟩, ?_⟩
      rw [List.singleton_inj.mp hab]
      exact hbs b (List.mem_append_right _ (List.mem_singleton_self b))
  · rintro (rfl | ⟨⟨as, bs, rfl, hbs⟩, ha⟩)
    · exact ⟨ls, [], rfl, List.forall_mem_nil _⟩
    · refine ⟨as, bs ++ [a], by simp, fun b hb => ?_⟩
      rcases List.mem_append.mp hb with hb | hb
      · exact hbs b hb
      · rw [List.mem_singleton.mp hb]
        exact ha

theorem holds_iff_of_getElem? (hw : e.walks[i]? = some w) :
    e.Holds i t ↔ w.isCalling t = true := by
  simp only [Holds, hw, Option.some.injEq, exists_eq_left']

/-- A walk that begins holds no permit, and changes nothing for the others. -/
theorem holds_begin (root : Package) : (e.begin root).Holds i t ↔ e.Holds i t := by
  constructor
  · rintro ⟨w, hw, hcalling⟩
    have hw : (e.walks ++ [Walk.ofRoot root])[i]? = some w := hw
    rw [List.getElem?_append] at hw
    split at hw
    · exact ⟨w, hw, hcalling⟩
    · -- The root task has not begun.
      obtain rfl := List.mem_singleton.mp (List.mem_of_getElem? hw)
      rw [Walk.isCalling_iff (Walk.Ordered.ofRoot root).nodup] at hcalling
      obtain ⟨u, hu, -, hphase⟩ := hcalling
      obtain rfl := List.mem_singleton.mp hu
      cases hphase
  · rintro ⟨w, hw, hcalling⟩
    refine ⟨w, ?_, hcalling⟩
    show (e.walks ++ [Walk.ofRoot root])[i]? = some w
    rw [List.getElem?_append_left (List.getElem?_eq_some_iff.mp hw).1]
    exact hw

/-- A task holds a permit from its request until its call ends. -/
theorem holds_step (hordered : ∀ w ∈ e.walks, w.Ordered) (h : e.step l = some e') :
    e'.Holds i t ↔ l = .walk i (.request t) ∨ (e.Holds i t ∧ ¬(Act.own l).Ends i t) := by
  cases (step_move h).seen i with
  | aside hsame _ howner =>
    have hne : l ≠ .walk i (.request t) := by
      rintro rfl
      exact howner rfl
    have hends : ¬(Act.own l).Ends i t := by
      cases l with
      | walk j k => exact fun hends => howner hends.1
      | «recall» j k => exact id
    simp only [Holds, hsame, hne, hends, false_or, not_false_eq_true, and_true]
  | @step k w w' hl hw hk hnext =>
    subst hl
    rw [holds_iff_of_getElem? hw, holds_iff_of_getElem? hnext,
      Walk.isCalling_step (hordered w (List.mem_of_getElem? hw)) hk]
    simp only [Act.Ends, Label.walk.injEq, true_and]
  | @remember k p m w v w' hl _ _ hw hv hw' hnext =>
    subst hl
    have hwalk := hordered w (List.mem_of_getElem? hw)
    rw [holds_iff_of_getElem? hw, holds_iff_of_getElem? hnext,
      Walk.isCalling_step (hwalk.step hv) hw', Walk.isCalling_step hwalk hv]
    -- Who asks the memo gives its permit back at once.
    have hnot := Walk.not_isCalling_of_request hwalk.nodup hv
    simp only [Act.Ends, Walk.Label.Ends, Walk.Label.request.injEq, reduceCtorEq, false_or,
      not_false_eq_true, and_true]
    constructor
    · rintro ⟨rfl | hcalling, hne⟩
      · exact absurd rfl hne
      · exact hcalling
    · intro hcalling
      refine ⟨.inr hcalling, ?_⟩
      rintro rfl
      exact hnot hcalling

/-- Who holds a permit was granted one, and its call has not ended. -/
theorem holds_iff (h : Steps act (ofLimit limit memo) ls e) : e.Holds i t ↔ Granted i t ls := by
  induction h with
  | refl =>
    constructor
    · rintro ⟨w, hw, -⟩
      cases hw
    · rintro ⟨as, bs, hls, -⟩
      exact absurd (congrArg List.length hls) (by simp)
  | @tail ls m a u hm ha ih =>
    rw [granted_concat, ← ih]
    cases a with
    | begin root =>
      cases ha
      rw [holds_begin]
      simp only [Act.Ends, reduceCtorEq, false_or, not_false_eq_true, and_true]
    | own l =>
      rw [holds_step (ordered_of_acts hm) ha]
      simp only [Act.own.injEq]

/-- The tasks that hold a permit, each with the number of its walk. -/
def holders (e : Explorer) : List (Nat × Nat) :=
  e.walks.zipIdx.flatMap fun (w, i) =>
    (w.tasks.filter (·.phase.calls = 1)).map fun u => (i, u.id)

/-- There are as many holders as permits that are held. -/
theorem length_holders (e : Explorer) : e.holders.length = e.held := by
  have hcalls : ∀ tasks : List Walk.Task,
      (tasks.filter (·.phase.calls = 1)).length = (tasks.map (·.phase.calls)).sum := by
    intro tasks
    induction tasks with
    | nil => rfl
    | cons u tasks ih =>
      rw [List.map_cons, List.sum_cons, ← ih]
      cases hphase : u.phase <;> simp [hphase, Walk.Phase.calls, Nat.add_comm]
  have hwalk : ∀ w : Walk, w.calls = (w.tasks.filter (·.phase.calls = 1)).length :=
    fun w => (hcalls w.tasks).symm
  have hwalks : e.walks = e.walks.zipIdx.map Prod.fst := (List.zipIdx_map_fst 0 e.walks).symm
  unfold holders held
  rw [List.length_flatMap]
  conv_rhs => rw [hwalks, List.map_map]
  congr 1
  refine List.map_congr_left fun x _ => ?_
  rw [List.length_map]
  exact (hwalk x.1).symm

theorem mem_holders (h : e.Holds i t) : (i, t) ∈ e.holders := by
  obtain ⟨w, hw, hcalling⟩ := h
  unfold Walk.isCalling at hcalling
  split at hcalling
  · rename_i u htask
    obtain ⟨hu, rfl⟩ := Walk.task?_eq_some htask
    split at hcalling
    · rename_i hphase
      refine List.mem_flatMap.mpr ⟨(w, i), List.mem_zipIdx_iff_getElem?.mpr hw, ?_⟩
      refine List.mem_map.mpr ⟨u, List.mem_filter.mpr ⟨hu, ?_⟩, rfl⟩
      rw [hphase]
      rfl
    · cases hcalling
  · cases hcalling

/-! ## Some task takes a step -/

theorem exists_discard (hw : e.walks[i]? = some w) (hstep : w.step (.discard t) = some w') :
    ∃ e', e.step (.walk i (.discard t)) = some e' ∧ e'.walks[i]? = some w' := by
  simp only [step, hw, hstep, Option.bind_eq_bind, Option.bind_some]
  exact ⟨_, rfl, getElem?_set_self_of_some hw⟩

/-- Every request that is out, of a task that is not aborted, can be answered. -/
def Responsive (answers : Package → Except Failure Manifest → Prop) (e : Explorer) : Prop :=
  ∀ w ∈ e.walks, ∀ u ∈ w.tasks, u.phase = .calling → u.aborted = false →
    ∃ reply, answers u.package reply

/-- Where the registry responds, a task that is calling can go on. -/
theorem Responsive.exists_step (h : e.Responsive answers) (hw : e.walks[i]? = some w)
    (hnodup : (w.bag.map (·.id)).Nodup) {u : Walk.Task} (hu : u ∈ w.bag)
    (hcalling : u.phase = .calling) (haborted : u.aborted = false) :
    ∃ l e', e.step l = some e' ∧ e.Obeys answers l ∧ ∀ i, l ≠ .walk i .cancel := by
  obtain ⟨reply, hreply⟩ :=
    h w (List.mem_of_getElem? hw) u (Walk.mem_bag.mp hu) hcalling haborted
  obtain ⟨e', hstep⟩ := exists_answer hw hnodup hu haborted hcalling reply
  refine ⟨_, e', hstep, fun p hp => ?_, by simp⟩
  rw [package?_eq hw, Walk.task?_of_nodup hnodup hu] at hp
  cases hp
  exact hreply

/-- A task that holds a permit gives it back: its request is answered, or it is taken away. -/
theorem Responsive.exists_release (h : e.Responsive answers)
    (hordered : ∀ w ∈ e.walks, w.Ordered) (hheld : e.held ≠ 0) :
    ∃ l e', e.step l = some e' ∧ e.Obeys answers l ∧ ∀ i, l ≠ .walk i .cancel := by
  have hcalls : ∃ w ∈ e.walks, w.calls ≠ 0 := by
    by_contra hnone
    push Not at hnone
    exact hheld (List.sum_eq_zero (List.forall_mem_map.mpr hnone))
  obtain ⟨w, hw, hcalls⟩ := hcalls
  obtain ⟨i, hi⟩ := List.getElem?_of_mem hw
  obtain ⟨u, hu, hcalling⟩ := Walk.exists_calling hcalls
  have hnodup := (hordered w hw).nodup
  cases haborted : u.aborted with
  | true =>
    have hdiscard : w.step (.discard u.id) = some (w.drop u.id) := by
      simp only [Walk.step, Walk.task?_of_nodup hnodup hu, haborted, if_true]
    obtain ⟨e', hstep, -⟩ := exists_discard hi hdiscard
    exact ⟨_, e', hstep, trivial, by simp⟩
  | false => exact h.exists_step hi hnodup hu hcalling haborted

/-- **No walk is stuck**: unless all walks are over, some task takes a step, if all requests that
are out can be answered. When no permit is free, there is a task that gives one back. -/
theorem exists_lively (hordered : ∀ w ∈ e.walks, w.Ordered) (hpermits : e.free + e.held ≠ 0)
    (h : e.Responsive answers) (hover : ∃ w ∈ e.walks, ¬w.Over) :
    ∃ l e', e.step l = some e' ∧ e.Obeys answers l ∧ ∀ i, l ≠ .walk i .cancel := by
  obtain ⟨w, hw, hover⟩ := hover
  obtain ⟨i, hi⟩ := List.getElem?_of_mem hw
  rcases (hordered w hw).exists_step hover with ⟨t, w', hdiscard⟩ | ⟨hnumbered, u, hu, hnext⟩
  · obtain ⟨e', hstep, -⟩ := exists_discard hi hdiscard
    exact ⟨_, e', hstep, trivial, by simp⟩
  · rcases hnext with hcalling | hqueued | ⟨k, w', hk, hstep⟩
    · exact h.exists_step hi hnumbered.nodup hu hcalling (hnumbered.running u hu)
    · by_cases hfree : e.free = 0
      · exact h.exists_release hordered (by omega)
      · obtain ⟨l, rfl | rfl, e', hstep⟩ := exists_request hi hnumbered hu hqueued hfree
        · exact ⟨_, e', hstep, trivial, by simp⟩
        · exact ⟨_, e', hstep, trivial, by simp⟩
    · obtain ⟨e', hstep⟩ := exists_inner hi hk hstep
      cases hk <;> exact ⟨_, e', hstep, trivial, by simp⟩

/-! ## Walks that are given up -/

/-- An act leaves the walks alone that take no step with it. -/
theorem getElem?_act (ha : e.act a = some e') (hw : e.walks[i]? = some w)
    (howner : ∀ l, a = .own l → l.owner ≠ i) : e'.walks[i]? = some w := by
  cases a with
  | begin root =>
    cases ha
    show (e.walks ++ [Walk.ofRoot root])[i]? = some w
    rw [List.getElem?_append_left (List.getElem?_eq_some_iff.mp hw).1]
    exact hw
  | own l =>
    obtain ⟨v, v', -, -, hset⟩ := exists_turn ha
    rw [hset, List.getElem?_set_ne (howner l rfl)]
    exact hw

theorem getElem?_acts {m : Explorer} (h : Steps act e ls m) (hw : e.walks[i]? = some w)
    (howner : ∀ l, .own l ∈ ls → l.owner ≠ i) : m.walks[i]? = some w := by
  induction h with
  | refl => exact hw
  | tail _ ha ih =>
    have hw := ih fun l hl => howner l (List.mem_append_left _ hl)
    refine getElem?_act ha hw fun l hl => howner l (List.mem_append_right _ ?_)
    rw [hl]
    exact List.mem_singleton_self _

/-- The walk number `i` has no root task any more. -/
def GivenUp (e : Explorer) (i : Nat) : Prop := ∃ w, e.walks[i]? = some w ∧ w.Gone

/-- A walk that was given up stays given up. -/
theorem GivenUp.act (h : e.GivenUp i) (ha : e.act a = some e') : e'.GivenUp i := by
  obtain ⟨w, hw, hgone⟩ := h
  by_cases howner : ∃ l, a = .own l ∧ l.owner = i
  · obtain ⟨l, rfl, rfl⟩ := howner
    obtain ⟨v, v', hv, hturn, hset⟩ := exists_turn ha
    obtain rfl := Option.some.inj (hw.symm.trans hv)
    refine ⟨v', ?_, ?_⟩
    · rw [hset, getElem?_set_self_of_some hw]
    · cases hturn with
      | one hk => exact hgone.onward (Walk.step_onward hk)
      | remember _ _ hrequest hanswer =>
        exact (hgone.onward (Walk.step_onward hrequest)).onward (Walk.step_onward hanswer)
  · push Not at howner
    exact ⟨w, getElem?_act ha hw fun l hl => howner l hl, hgone⟩

/-- A walk that was given up is so for good. -/
theorem givenUp_of_acts (h : Steps act (ofLimit limit memo) ls e)
    (hcancel : .own (.walk i .cancel) ∈ ls) : e.GivenUp i := by
  obtain ⟨as, bs, rfl⟩ := List.append_of_mem hcancel
  obtain ⟨m, hm, hrest⟩ := h.split
  obtain ⟨n, hn, hbs⟩ := hrest.cons_inv
  have hn : m.step (.walk i .cancel) = some n := hn
  have hgiven : n.GivenUp i := by
    cases step_move hn with
    | cancel hw hw' =>
      have hordered := ordered_of_acts hm _ (List.mem_of_getElem? hw)
      exact ⟨_, getElem?_set_self_of_some hw, hordered.gone_of_cancel hw'⟩
  exact hbs.invariant (P := fun e => e.GivenUp i) (fun hs ha => hs.act ha) hgiven

/-- While a walk that was given up has tasks left, one of them can be taken away. -/
theorem exists_fall (hordered : ∀ w ∈ e.walks, w.Ordered) (h : e.GivenUp i)
    (hw : e.walks[i]? = some w) (htasks : w.tasks ≠ []) : ∃ t e',
      e.step (.walk i (.discard t)) = some e' ∧ e'.GivenUp i ∧
        ∃ w', e'.walks[i]? = some w' ∧ w'.tasks.length < w.tasks.length := by
  obtain ⟨v, hv, hgone⟩ := h
  obtain rfl := Option.some.inj (hw.symm.trans hv)
  have hwalk := hordered w (List.mem_of_getElem? hw)
  have hne : w.bag ≠ 0 := fun h0 => htasks ((Multiset.coe_eq_zero _).mp h0)
  obtain ⟨u, hu, haborted⟩ :=
    hwalk.exists_aborted (fun u hu => hgone.rootless u (Walk.mem_bag.mp hu)) hne
  have hdiscard : w.step (.discard u.id) = some (w.drop u.id) := by
    simp only [Walk.step, Walk.task?_of_nodup hwalk.nodup hu, haborted, if_true]
  obtain ⟨e', hstep, hw'⟩ := exists_discard hw hdiscard
  refine ⟨u.id, e', hstep, ⟨_, hw', hgone.onward (Walk.step_onward hdiscard)⟩, _, hw', ?_⟩
  show ((w.tasks.filter (·.id ≠ u.id)).map _).length < _
  rw [List.length_map]
  exact List.length_filter_lt_length_iff_exists.mpr ⟨u, Walk.mem_bag.mp hu, by simp⟩

/-- One task after another is taken away, until none is left. -/
theorem exists_cascade (hordered : ∀ w ∈ e.walks, w.Ordered) (h : e.GivenUp i)
    (hw : e.walks[i]? = some w) : ∃ ks e', (∀ k ∈ ks, ∃ t, k = .walk i (.discard t)) ∧
      Steps step e ks e' ∧ ∃ w', e'.walks[i]? = some w' ∧ w'.tasks = [] := by
  induction hn : w.tasks.length using Nat.strong_induction_on generalizing e w with
  | _ n ih =>
    by_cases htasks : w.tasks = []
    · exact ⟨[], e, List.forall_mem_nil _, .refl, w, hw, htasks⟩
    · obtain ⟨t, m, hstep, hgiven, v, hv, hlt⟩ := exists_fall hordered h hw htasks
      have hordered' : ∀ w ∈ m.walks, w.Ordered := by
        obtain ⟨x, x', hx, hturn, hset⟩ := exists_turn hstep
        intro y hy
        rw [hset] at hy
        rcases List.mem_or_eq_of_mem_set hy with hy | rfl
        · exact hordered y hy
        · cases hturn with
          | one hk => exact (hordered x (List.mem_of_getElem? hx)).step hk
      obtain ⟨ks, e', hks, hsteps, hend⟩ := ih _ (hn ▸ hlt) hordered' hgiven hv rfl
      refine ⟨.walk i (.discard t) :: ks, e', ?_, (Steps.single hstep).trans hsteps, hend⟩
      intro k hk
      rcases List.mem_cons.mp hk with rfl | hk
      · exact ⟨t, rfl⟩
      · exact hks k hk

/-! ## Walks that are over -/

theorem step_eq_none_of_over (hordered : w.Ordered) (hw : e.walks[l.owner]? = some w)
    (hover : w.Over) : e.step l = none := by
  by_contra hne
  obtain ⟨e', hstep⟩ := Option.ne_none_iff_exists'.mp hne
  obtain ⟨v, v', hv, hturn, -⟩ := exists_turn hstep
  obtain rfl := Option.some.inj (hw.symm.trans hv)
  cases hturn with
  | one hk =>
    rw [hover.step_eq_none hordered] at hk
    cases hk
  | remember _ _ hk _ =>
    rw [hover.step_eq_none hordered] at hk
    cases hk

/-- When all walks are over, no permit is held. -/
theorem held_eq_zero_of_over (hordered : ∀ w ∈ e.walks, w.Ordered)
    (hover : ∀ w ∈ e.walks, w.Over) : e.held = 0 :=
  List.sum_eq_zero (List.forall_mem_map.mpr fun w hw => (hover w hw).calls_eq_zero (hordered w hw))

/-! ## Fetches and their permits -/

/-- What the acts `ls` make of the permits of an explorer. -/
structure Permits (limit : Nat) (memo : Option Memo) (ls : List Act) (e : Explorer) : Prop where
  /-- Free and held permits make up the limit. -/
  balance : e.free + e.held = max 1 limit
  /-- A task holds a permit from when it is granted one until its call ends. -/
  granted : ∀ i t, e.Holds i t ↔ Granted i t ls
  /-- No more requests are out than the limit allows. -/
  bounded : ∀ xs : List (Nat × Nat), xs.Nodup → (∀ x ∈ xs, Granted x.1 x.2 ls) →
    xs.length ≤ max 1 limit
  /-- A task that waits for its children holds no permit. -/
  waiting : ∀ i w u node, e.walks[i]? = some w → u ∈ w.tasks → u.phase = .joining node →
    ¬Granted i u.id ls
  /-- Unless all walks are over, some task takes a step, if all requests can be answered. -/
  lively : ∀ answers, e.Responsive answers → (∃ w ∈ e.walks, ¬w.Over) →
    ∃ l e', e.step l = some e' ∧ e.Obeys answers l ∧ ∀ i, l ≠ .walk i .cancel
  /-- Where finitely many packages can be asked for, the steps come to an end. -/
  finite : ∀ answers pool width, Walk.Spans answers pool width →
    (ofLimit limit memo).Recalls answers →
    (∀ as a bs m, ls = as ++ a :: bs → Steps act (ofLimit limit memo) as m →
      m.Lawful answers pool a) →
    ls.countP Act.isOwn ≤ 5 * (1 + width * pool.card) * e.walks.length
  /-- When a walk was given up, a task can be taken away as long as one is left, -/
  falls : ∀ i w, .own (.walk i .cancel) ∈ ls → e.walks[i]? = some w → w.tasks ≠ [] →
    ∃ t e', e.step (.walk i (.discard t)) = some e'
  /-- until none is left. -/
  cascade : ∀ i, .own (.walk i .cancel) ∈ ls → ∃ ks e', (∀ k ∈ ks, ∃ t, k = .walk i (.discard t)) ∧
    Steps step e ks e' ∧ ∃ w, e'.walks[i]? = some w ∧ w.tasks = []
  /-- Then the walk holds no permit, and takes no step any more. -/
  fallen : ∀ i w, e.walks[i]? = some w → w.tasks = [] →
    (∀ t, ¬Granted i t ls) ∧ ∀ l, l.owner = i → e.step l = none
  /-- When all walks are over, all permits are free again. -/
  rest : (∀ w ∈ e.walks, w.Over) → e.free = max 1 limit ∧ ∀ l, e.step l = none
  /-- What other walks do before that does not touch a walk. -/
  apart : ∀ ks e' i w, Steps act e ks e' → e.walks[i]? = some w →
    (∀ l, .own l ∈ ks → l.owner ≠ i) → e'.walks[i]? = some w

/-- **Permits are bounded, never waited for in vain, and never lost.** Take any limit (zero counts
as one), and let fetches begin, take their steps and be given up in any order. Then free and
held permits always make up the limit; a task holds one from its grant to the end of its own
call, and none while it waits for its children; as long as a walk is not over, some task
takes a step; and when a walk that was given up has lost its tasks, one after another, it
holds no permit and takes no step, nor has it touched another walk before. -/
theorem permits_of_acts (limit : Nat) (memo : Option Memo)
    (h : Steps act (ofLimit limit memo) ls e) : Permits limit memo ls e := by
  have hordered := ordered_of_acts h
  have hbalance := balance_of_acts h
  have hlimit : max 1 limit ≠ 0 := Nat.ne_of_gt (Nat.le_max_left 1 limit)
  refine ⟨hbalance, fun i t => holds_iff h, ?_, ?_, ?_, ?_, ?_, ?_, ?_, ?_, ?_⟩
  · intro xs hxs hgranted
    have hsub : xs ⊆ e.holders := fun x hx => mem_holders ((holds_iff h).mpr (hgranted x hx))
    have hlength := (hxs.subperm hsub).length_le
    rw [length_holders] at hlength
    omega
  · intro i w u node hw hu hphase hgranted
    have hcalling := (holds_iff_of_getElem? hw).mp ((holds_iff h).mpr hgranted)
    have hnodup := (hordered w (List.mem_of_getElem? hw)).nodup
    simp only [Walk.isCalling, Walk.task?_of_nodup hnodup (Walk.mem_bag.mpr hu), hphase] at hcalling
    cases hcalling
  · intro answers hresponsive hover
    exact exists_lively hordered (by omega) hresponsive hover
  · intro answers pool width hspans hrecalls hlawful
    exact (Nat.le_add_right _ _).trans (countP_le_of_acts hspans h hrecalls hlawful)
  · intro i w hcancel hw htasks
    obtain ⟨t, e', hstep, -⟩ := exists_fall hordered (givenUp_of_acts h hcancel) hw htasks
    exact ⟨t, e', hstep⟩
  · intro i hcancel
    obtain ⟨w, hw, hgone⟩ := givenUp_of_acts h hcancel
    exact exists_cascade hordered ⟨w, hw, hgone⟩ hw
  · intro i w hw htasks
    constructor
    · intro t hgranted
      have hcalling := (holds_iff_of_getElem? hw).mp ((holds_iff h).mpr hgranted)
      simp only [Walk.isCalling, Walk.task?, htasks, List.find?_nil] at hcalling
      cases hcalling
    · rintro l rfl
      exact step_eq_none_of_over (hordered w (List.mem_of_getElem? hw)) hw (.inl htasks)
  · intro hover
    have hheld := held_eq_zero_of_over hordered hover
    refine ⟨by omega, fun l => ?_⟩
    by_contra hne
    obtain ⟨e', hstep⟩ := Option.ne_none_iff_exists'.mp hne
    obtain ⟨w, -, hw, -⟩ := exists_turn hstep
    have hmem := List.mem_of_getElem? hw
    exact hne (step_eq_none_of_over (hordered w hmem) hw (hover w hmem))
  · intro ks e' i w hsteps hw howner
    exact getElem?_acts hsteps hw howner

/-- A fetch that is given up while one of its tasks holds the only permit and another waits for
it; the next fetch gets the permit when the first task is taken away. -/
def crowdedActs : List Act :=
  [.begin ⟨"app", "1"⟩, .own (.walk 0 (.start 0)), .own (.walk 0 (.request 0)),
    .own (.walk 0 (.answer 0 (.ok ⟨"app", "1", [("left", "1"), ("right", "1")]⟩))),
    .own (.walk 0 (.start 1)), .own (.walk 0 (.start 2)), .own (.walk 0 (.request 1)),
    .own (.walk 0 .cancel), .begin ⟨"left", "1"⟩, .own (.walk 1 (.start 0)),
    .own (.walk 0 (.discard 1)), .own (.walk 1 (.request 0))]

/-- The next fetch holds the permit, and the one that was given up can go on to clear its tasks
away. -/
theorem permits_of_acts_crowded : ∃ e, Steps act (ofLimit 0 none) crowdedActs e ∧
    e.free + e.held = 1 ∧ Granted 1 0 crowdedActs ∧
    ∃ t e', e.step (.walk 0 (.discard t)) = some e' := by
  have hrun : (crowdedActs.foldlM act (ofLimit 0 none)).map
      (fun e => (e.walks.map fun w => (w.isCalling 0, w.tasks.isEmpty))) =
        some [(false, false), (true, false)] := by
    decide +kernel
  obtain ⟨e, he, hstate⟩ := Option.map_eq_some_iff.mp hrun
  have hsteps := steps_iff_foldlM.mpr he
  have h := permits_of_acts 0 none hsteps
  obtain ⟨w, v, hwalks⟩ := List.length_eq_two.mp
    ((List.length_map _).symm.trans (congrArg List.length hstate))
  rw [hwalks] at hstate
  simp only [List.map_cons, List.map_nil, List.cons.injEq, Prod.mk.injEq, and_true] at hstate
  obtain ⟨⟨-, htasks⟩, hcalling, -⟩ := hstate
  have hw : e.walks[0]? = some w := by rw [hwalks]; rfl
  have hv : e.walks[1]? = some v := by rw [hwalks]; rfl
  refine ⟨e, hsteps, h.balance, (h.granted 1 0).mp ⟨v, hv, hcalling⟩, ?_⟩
  refine h.falls 0 w (by simp [crowdedActs]) hw ?_
  rw [← List.isEmpty_eq_false_iff]
  exact htasks

end Explorer

end PackageGate
