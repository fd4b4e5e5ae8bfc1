import PackageGate.Proofs.Explorer.Following
import PackageGate.Proofs.Walk.Calls
import PackageGate.Proofs.Walk.Formed
import PackageGate.Proofs.Walk.Head

/-!
# One request and one owner for each key

Whatever the registry answers, and however the tasks of a walk take turns, a walk asks for
no key twice, and its tree expands no key at two nodes.

- `Explorer.sparing_of_steps`: no key is asked for twice.
- `Explorer.Label.Asks`, `Explorer.unasked_of_claimed`: a task that finds its key claimed
  takes no part in asking.
- `Explorer.counted_of_steps`: the counter and the requests of a walk that goes on alone.
- `Explorer.Booked`: what is known of a walk that has not been given up.
- `Explorer.fetches_once`: what a walk asks for, counts and comes to.
-/

namespace PackageGate

namespace Explorer

/-- The task `t` of the walk number `i` sends its request, takes the answer, or finds one in the
memo. -/
def Label.Asks (i t : Nat) (l : Label) : Prop :=
  l = .walk i (.request t) ∨ (∃ reply, l = .walk i (.answer t reply)) ∨ l = .recall i t

variable {e e' e₀ m : Explorer} {l : Label} {ls as bs : List Label} {root : Package} {i t n : Nat}
  {w : Walk}

/-! ## Tasks that do not ask -/

/-- A run of the explorer sends no request twice. -/
theorem sparing_of_steps (h : Steps step (e₀.begin root) ls e) :
    ∃ w, e.walks[e₀.nextWalk]? = some w ∧
      Walk.Sparing ((e₀.begin root).calls e₀.nextWalk ls) w :=
  walk_invariant (P := fun sent _ w => Walk.Sparing sent w) Walk.Sparing.step
    (Walk.Sparing.ofRoot root) h

/-- The task `t` of the walk number `i` has come as far as `n`, or is gone. -/
def Past (n i t : Nat) (e : Explorer) : Prop := ∃ w, e.walks[i]? = some w ∧ w.Past n t

theorem Past.step (h : Past n i t e) (hstep : e.step l = some e') : Past n i t e' := by
  obtain ⟨w, hw, hpast⟩ := h
  cases (step_move hstep).seen i with
  | aside hsame => exact ⟨w, hsame.trans hw, hpast⟩
  | step _ hw' hk hnext =>
    obtain rfl := Option.some.inj (hw.symm.trans hw')
    exact ⟨_, hnext, hpast.step hk⟩
  | remember _ _ _ hw' hrequest hanswer hnext =>
    obtain rfl := Option.some.inj (hw.symm.trans hw')
    exact ⟨_, hnext, (hpast.step hrequest).step hanswer⟩

theorem Past.steps (h : Past n i t e) (hsteps : Steps Explorer.step e ls e') : Past n i t e' :=
  hsteps.invariant (fun hm hl => Past.step hm hl) h

/-- A task that is through with asking does not ask. -/
theorem Past.not_asks (h : Past 3 i t e) (hstep : e.step l = some e') : ¬l.Asks i t := by
  obtain ⟨w, hw, hpast⟩ := h
  have hrequest : ∀ {v : Walk}, w.step (.request t) = some v → False := by
    intro v hv
    obtain ⟨u, hu, hid, hphase, -⟩ := Walk.queued_of_request hv
    have hrank := hpast.rank u hu hid
    rw [hphase] at hrank
    exact absurd hrank (by decide)
  rintro (rfl | ⟨reply, rfl⟩ | rfl)
  · cases step_move hstep with
    | request hw' hv =>
      rw [hw] at hw'
      cases hw'
      exact hrequest hv
  · cases step_move hstep with
    | answer hw' hv =>
      rw [hw] at hw'
      cases hw'
      obtain ⟨u, hu, hid, hphase, -⟩ := Walk.calling_of_answer hv
      have hrank := hpast.rank u hu hid
      rw [hphase] at hrank
      exact absurd hrank (by decide)
  · cases step_move hstep with
    | remember hw' _ _ hv =>
      rw [hw] at hw'
      cases hw'
      exact hrequest hv

/-- A task that asks has sent its request when the step is done. -/
theorem past_of_asks {sent : List Package} (hw : e.walks[i]? = some w)
    (hsparing : Walk.Sparing sent w) (hasks : l.Asks i t) (hstep : e.step l = some e') :
    Past 2 i t e' := by
  rcases hasks with rfl | ⟨reply, rfl⟩ | rfl
  · cases step_move hstep with
    | request hw' hv =>
      obtain rfl := Option.some.inj (hw.symm.trans hw')
      exact ⟨_, getElem?_set_self_of_some hw, hsparing.past_of_request hv⟩
  · cases step_move hstep with
    | answer hw' hv =>
      obtain rfl := Option.some.inj (hw.symm.trans hw')
      exact ⟨_, getElem?_set_self_of_some hw, hsparing.past_of_answer hv⟩
  · cases step_move hstep with
    | remember hw' _ _ hv hv' =>
      obtain rfl := Option.some.inj (hw.symm.trans hw')
      exact ⟨_, getElem?_set_self_of_some hw, (hsparing.past_of_request hv).step hv'⟩

/-- A task that finds its key claimed does not ask, neither before nor after. -/
theorem unasked_of_claimed {u : Walk.Task} (h : Steps step (e₀.begin root) ls e)
    (hls : ls = as ++ .walk e₀.nextWalk (.start t) :: bs) (hm : Steps step (e₀.begin root) as m)
    (hw : m.walks[e₀.nextWalk]? = some w) (htask : w.task? t = some u)
    (hclaimed : w.visits.contains u.package.key = true) : ∀ l ∈ ls, ¬l.Asks e₀.nextWalk t := by
  subst hls
  obtain ⟨m', hm', hrest⟩ := h.split
  obtain rfl := hm.det hm'
  obtain ⟨k, hstart, hbs⟩ := hrest.cons_inv
  obtain ⟨w', hw', hsparing⟩ := sparing_of_steps hm
  obtain rfl := Option.some.inj (hw'.symm.trans hw)
  have hmove : ∃ v, w'.step (.start t) = some v ∧ k.walks[e₀.nextWalk]? = some v := by
    cases step_move hstart with
    | start hw' hv =>
      obtain rfl := Option.some.inj (hw.symm.trans hw')
      exact ⟨_, hv, getElem?_set_self_of_some hw⟩
  obtain ⟨v, hv, hkv⟩ := hmove
  intro l hl
  rcases List.mem_append.mp hl with hl | hl
  · -- Had it asked before, it would not be about to begin.
    intro hasks
    obtain ⟨cs, ds, rfl⟩ := List.append_of_mem hl
    obtain ⟨a, ha, hrest⟩ := hm.split
    obtain ⟨b, hl, hds⟩ := hrest.cons_inv
    obtain ⟨wa, hwa, hsparing⟩ := sparing_of_steps ha
    obtain ⟨wm, hwm, hpast⟩ := (past_of_asks hwa hsparing hasks hl).steps hds
    obtain rfl := Option.some.inj (hw.symm.trans hwm)
    obtain ⟨u', hu', hid, hphase, -⟩ := Walk.spawned_of_start hv
    have hrank := hpast.rank u' hu' hid
    rw [hphase] at hrank
    exact absurd hrank (by decide)
  · rcases List.mem_cons.mp hl with rfl | hl
    · rintro (h | ⟨reply, h⟩ | h) <;> cases h
    · have hpast : Past 3 e₀.nextWalk t k := ⟨v, hkv, hsparing.past_of_found hv htask hclaimed⟩
      obtain ⟨cs, ds, rfl⟩ := List.append_of_mem hl
      obtain ⟨a, ha, hrest⟩ := hbs.split
      obtain ⟨b, hl, -⟩ := hrest.cons_inv
      exact (hpast.steps ha).not_asks hl

/-! ## Counting -/

theorem isAnswer_eq (reply : Except Failure Manifest) : isAnswer reply = reply.isOk := by
  cases reply <;> rfl

/-- A step of a walk is counted where it brings a success. -/
theorem fetched_step (hw : e.walks[i]? = some w) (howner : l.owner = i)
    (hstep : e.step l = some e') :
    e'.fetched = e.fetched + (e.note? i l).toList.countP Walk.Entry.succeeded := by
  subst howner
  -- Steps other than answers tell of no success.
  have hnone {j : Nat} {w : Walk} {k : Walk.Label} (hw : e.walks[j]? = some w)
      (hk : ∀ t reply, k ≠ .answer t reply) :
      e.fetched = e.fetched + (e.note? j (.walk j k)).toList.countP Walk.Entry.succeeded := by
    rw [note?_walk hw, Walk.not_succeeded_of_note hk, Nat.add_zero]
  cases step_move hstep with
  | request hw | start hw | join hw | finish hw | cancel hw | discard hw => exact hnone hw nofun
  | @answer j t reply v w' p hw' hv hp =>
    obtain ⟨u, -, -, -, htask⟩ := Walk.calling_of_answer hv
    have hnote : v.note? (.answer t reply) = some (v.received u.package reply) := by
      simp only [Walk.note?, htask, Option.map_some]
    rw [show (Label.walk j (.answer t reply)).owner = j from rfl, note?_walk hw', hnote,
      Option.toList_some, List.countP_singleton, Walk.succeeded_received, isAnswer_eq]
  | @remember j t v u w' p reply hw' hp hm hv hu hfree =>
    obtain ⟨a, -, -, -, htask⟩ := Walk.calling_of_answer hu
    have hnote : e.note? j (.recall j t) = some (u.received a.package (.ok reply)) := by
      simp only [note?, if_true, hp, hm, hw', hv, Option.bind_eq_bind, Option.bind_some, Walk.note?,
        htask, Option.map_some]
    rw [show (Label.recall j t).owner = j from rfl, hnote, Option.toList_some,
      List.countP_singleton, Walk.succeeded_received]
    rfl

/-- Without a memo, what a walk asks for is requested. -/
theorem requests_step (hw : e.walks[i]? = some w) (howner : l.owner = i) (hmemo : e.memo = none)
    (hstep : e.step l = some e') :
    e'.memo = none ∧ e'.requests = e.requests ++ (e.called? i l).toList := by
  subst howner
  cases step_move hstep with
  | start | join | finish | cancel | discard => exact ⟨hmemo, (List.append_nil _).symm⟩
  | answer => exact ⟨by rw [hmemo]; rfl, (List.append_nil _).symm⟩
  | @request j t v w' p hw' hv hp =>
    refine ⟨hmemo, ?_⟩
    show _ = e.requests ++ (if j = j then e.package? j t else none).toList
    rw [if_pos rfl, hp]
    rfl
  | remember _ _ hm =>
    rw [remembered?, hmemo] at hm
    cases hm

/-- Only a task that asks changes the counter or the requests. -/
theorem asks_of_changed (hstep : e.step l = some e')
    (h : e'.fetched ≠ e.fetched ∨ e'.requests ≠ e.requests) : ∃ i t, l.Asks i t := by
  cases step_move hstep with
  | @request j t => exact ⟨j, t, .inl rfl⟩
  | @answer j t reply => exact ⟨j, t, .inr (.inl ⟨reply, rfl⟩)⟩
  | @remember j t => exact ⟨j, t, .inr (.inr rfl)⟩
  | start | join | finish | cancel | discard =>
    rcases h with h | h <;> exact absurd rfl h

/-- While no other walk takes a step, the counter has grown by the successes of this one, and
without a memo every call is a request. -/
theorem counted_of_steps (h : Steps step (e₀.begin root) ls e)
    (halone : ∀ l ∈ ls, l.owner = e₀.nextWalk) :
    e.fetched = e₀.fetched +
        ((e₀.begin root).history e₀.nextWalk ls).countP Walk.Entry.succeeded ∧
      (e₀.memo = none → e.memo = none ∧
        e.requests = e₀.requests ++ (e₀.begin root).calls e₀.nextWalk ls) := by
  induction h with
  | refl => exact ⟨rfl, fun hmemo => ⟨hmemo, (List.append_nil _).symm⟩⟩
  | @tail ls m l u hm hl ih =>
    obtain ⟨hfetched, hrequests⟩ := ih fun k hk => halone k (List.mem_append_left _ hk)
    have howner := halone l (List.mem_append_right _ (List.mem_singleton_self l))
    obtain ⟨w, hw, -⟩ := sparing_of_steps hm
    constructor
    · rw [history_concat _ hm hl, List.countP_append, ← Nat.add_assoc, ← hfetched]
      exact fetched_step hw howner hl
    · intro hmemo
      obtain ⟨hm', hrequests⟩ := hrequests hmemo
      obtain ⟨hu, hsent⟩ := requests_step hw howner hm' hl
      refine ⟨hu, ?_⟩
      rw [hsent, hrequests, List.append_assoc, calls_concat _ hm hl]

/-! ## What a walk comes to -/

/-- What is known of a walk that has not been given up. -/
structure Booked (root : Package) (sent : List Package) (log : List Walk.Entry) (w : Walk) :
    Prop where
  accounts : Walk.Accounts root log w
  called : Walk.Called sent log w
  formed : Walk.Formed log w
  headed : Walk.Headed (fun _ => True) root w
  /-- Where names are distinct, no node of the history is missing in the trees. -/
  grown : (∀ x ∈ log, x.Distinct) → Walk.Grown log w

/-- A step keeps the books of a walk, or gives it up. -/
theorem Booked.step {sent : List Package} {log : List Walk.Entry} {w' : Walk} {k : Walk.Label}
    (h : w.Gone ∨ Booked root sent log w) (hstep : w.step k = some w') :
    w'.Gone ∨ Booked root (sent ++ (w.sent? k).toList) (log ++ (w.note? k).toList) w' := by
  rcases h with hgone | h
  · exact .inl (hgone.onward (Walk.step_onward hstep))
  · rcases Walk.gone_or_move h.accounts.numbered hstep with hgone | hmove
    · exact .inl hgone
    · refine .inr ⟨?_, ?_, ?_, ?_, fun hdistinct => ?_⟩
      · rw [coe_append_note]
        exact h.accounts.move hmove
      · rw [coe_append_note]
        exact h.called.move h.accounts.numbered hmove
      · rw [coe_append_note]
        exact h.formed.move hmove
      · exact h.headed.move h.accounts.parented hmove fun _ _ _ _ _ => trivial
      · have hgrown := h.grown fun x hx => hdistinct x (List.mem_append_left _ hx)
        rw [coe_append_note]
        refine hgrown.move h.accounts hmove fun x hx => hdistinct x ?_
        exact List.mem_append_right _ (Option.mem_toList.mpr hx)

/-- A walk that has come to a result keeps its books. -/
theorem booked_of_steps {r : Except Failure Tree} (h : Steps step (e₀.begin root) ls e)
    (hr : e.result? e₀.nextWalk = some r) : ∃ w, e.walks[e₀.nextWalk]? = some w ∧
      w.result? = some r ∧ Booked root ((e₀.begin root).calls e₀.nextWalk ls)
        ((e₀.begin root).history e₀.nextWalk ls) w := by
  obtain ⟨w, hw, hbooked⟩ :=
    walk_invariant (P := fun sent log w => w.Gone ∨ Booked root sent log w) Booked.step
      (.inr ⟨.ofRoot root, .ofRoot root, .ofRoot root, .ofRoot _ root, fun _ => .ofRoot root⟩) h
  have hresult : w.result? = some r := (result?_eq hw).symm.trans hr
  rcases hbooked with hgone | hbooked
  · rw [hgone.result?_eq_none] at hresult
    cases hresult
  · exact ⟨w, hw, hresult, hbooked⟩

/-- Every key of a tree has one owner at most, the root among them, and every flattened key stands
once. -/
structure OneOwner (t : Tree) : Prop where
  owners : (t.expanded.map Package.key).Nodup
  bare : t.Bare
  rooted : t.isStub = false
  first : t.flatten.head? = some t.package.key
  distinct : t.flatten.Nodup

/-- From the books of a walk that has ended, each key has one owner. -/
theorem Booked.oneOwner {sent : List Package} {log : List Walk.Entry} {tree : Tree}
    (h : Booked root sent log w) (hr : w.result? = some (.ok tree)) : OneOwner (w.settle tree) where
  owners := h.formed.nodup_expanded h.accounts hr
  bare := h.formed.bare_result h.accounts hr
  rooted := by
    obtain ⟨-, -, -, hstub⟩ := h.headed.result h.accounts hr
    rw [Walk.settle, Tree.isStub_resolveStubs]
    exact hstub
  first := Tree.head?_flatten _
  distinct := Tree.nodup_flatten _

/-- What the walk of `root`, begun in `e₀`, asks for, counts and comes to in the run `ls`. -/
structure FetchesOnce (e₀ : Explorer) (root : Package) (ls : List Label) (e : Explorer) :
    Prop where
  /-- No key is asked for twice. -/
  once : (((e₀.begin root).calls e₀.nextWalk ls).map (·.key)).Nodup
  /-- Without a memo, what is asked for is what the registry is sent. -/
  sent : (∀ l ∈ ls, l.owner = e₀.nextWalk) → e₀.memo = none →
    e.requests = e₀.requests ++ (e₀.begin root).calls e₀.nextWalk ls
  /-- A task that finds its key claimed does not ask, neither before nor after. -/
  found : ∀ as bs t m w u, ls = as ++ .walk e₀.nextWalk (.start t) :: bs →
    Steps step (e₀.begin root) as m → m.walks[e₀.nextWalk]? = some w → w.task? t = some u →
    w.visits.contains u.package.key = true → ∀ l ∈ ls, ¬l.Asks e₀.nextWalk t
  /-- Steps of tasks that do not ask are not counted. -/
  changed : ∀ as l bs m m', ls = as ++ l :: bs → Steps step (e₀.begin root) as m →
    m.step l = some m' → m'.fetched ≠ m.fetched ∨ m'.requests ≠ m.requests →
    ∃ i t, l.Asks i t
  /-- When the walk is through, every request has been answered, and the counter has grown by the
  successes. -/
  counted : (∀ l ∈ ls, l.owner = e₀.nextWalk) → ∀ r, e.result? e₀.nextWalk = some r →
    ((e₀.begin root).calls e₀.nextWalk ls).Perm
        ((((e₀.begin root).history e₀.nextWalk ls).filter (·.answer?.isSome)).map
          Walk.Entry.asked) ∧
      e.fetched = e₀.fetched +
        ((e₀.begin root).history e₀.nextWalk ls).countP Walk.Entry.succeeded
  /-- In the tree, every key has one owner. -/
  owned : ∀ tree w, e.result? e₀.nextWalk = some (.ok tree) → e.walks[e₀.nextWalk]? = some w →
    OneOwner (w.settle tree)

/-- **One request and one owner for each key.** Whatever the registry answers, in whatever order
the tasks take turns and however many permits there are, a walk asks for no key twice, its counter
tells how many requests have succeeded, and its tree expands no key at two nodes. -/
theorem fetches_once (e₀ : Explorer) (root : Package) {ls : List Label} {e : Explorer}
    (h : Steps step (e₀.begin root) ls e) : FetchesOnce e₀ root ls e where
  once := by
    obtain ⟨w, -, hsparing⟩ := sparing_of_steps h
    exact hsparing.nodup_sent
  sent halone hmemo := ((counted_of_steps h halone).2 hmemo).2
  found as bs t m w u hls hm hw htask hclaimed := unasked_of_claimed h hls hm hw htask hclaimed
  changed as l bs m m' _ _ hstep hchanged := asks_of_changed hstep hchanged
  counted halone r hr := by
    obtain ⟨w, -, hresult, hbooked⟩ := booked_of_steps h hr
    have hreplied := hbooked.called.result hbooked.accounts hresult
    rw [Walk.bind_replied] at hreplied
    exact ⟨Multiset.coe_eq_coe.mp hreplied, (counted_of_steps h halone).1⟩
  owned tree w hr hw := by
    obtain ⟨w', hw', hresult, hbooked⟩ := booked_of_steps h hr
    obtain rfl := Option.some.inj (hw'.symm.trans hw)
    exact hbooked.oneOwner hresult

/-! ## A package that two others depend on -/

/-- A registry in which `left` and `right` both depend on `base`. -/
def diamondRegistry (p : Package) : Except Failure Manifest :=
  if p.name = "app" then .ok ⟨"app", "1", [("left", "1"), ("right", "1")]⟩
  else if p.name = "base" then .ok ⟨"base", "1", []⟩
  else .ok ⟨p.name, "1", [("base", "1")]⟩

/-- The steps of a walk of `app` until the second task for `base` begins. -/
def diamondStart : List Label :=
  [.walk 0 (.start 0), .walk 0 (.request 0),
    .walk 0 (.answer 0 (diamondRegistry ⟨"app", "1"⟩)), .walk 0 (.start 1), .walk 0 (.start 2),
    .walk 0 (.request 1), .walk 0 (.request 2),
    .walk 0 (.answer 1 (diamondRegistry ⟨"left", "1"⟩)),
    .walk 0 (.answer 2 (diamondRegistry ⟨"right", "1"⟩)), .walk 0 (.start 3)]

/-- The rest of the walk; the first task for `base` has not even sent its request. -/
def diamondRest : List Label :=
  [.walk 0 (.request 3), .walk 0 (.answer 3 (diamondRegistry ⟨"base", "1"⟩)),
    .walk 0 (.finish 3), .walk 0 (.join 3), .walk 0 (.finish 1), .walk 0 (.join 1),
    .walk 0 (.join 4), .walk 0 (.finish 2), .walk 0 (.join 2), .walk 0 (.finish 0)]

/-- A diamond: both sides ask for the base, and it is fetched once. -/
theorem fetches_once_diamond : ∃ e t w,
    Steps step ((ofLimit 2 none).begin ⟨"app", "1"⟩)
        (diamondStart ++ .walk 0 (.start 4) :: diamondRest) e ∧
      e.result? 0 = some (.ok t) ∧ e.walks[0]? = some w ∧ OneOwner (w.settle t) ∧
      e.fetched = 4 ∧ e.requests.map (·.key) = ["app@1", "left@1", "right@1", "base@1"] ∧
      ∀ l ∈ diamondStart ++ .walk 0 (.start 4) :: diamondRest, ¬l.Asks 0 4 := by
  have hrun : ((diamondStart ++ .walk 0 (.start 4) :: diamondRest).foldlM step
      ((ofLimit 2 none).begin ⟨"app", "1"⟩)).map
        (fun e => (e.result? 0).map Except.isOk) = some (some true) := by
    decide +kernel
  have hstart : (diamondStart.foldlM step ((ofLimit 2 none).begin ⟨"app", "1"⟩)).bind
      (fun m => m.walks[0]?.bind fun w =>
        (w.task? 4).map fun u => w.visits.contains u.package.key) = some true := by
    decide +kernel
  obtain ⟨e, he, hok⟩ := Option.map_eq_some_iff.mp hrun
  obtain ⟨result, hresult, hisok⟩ := Option.map_eq_some_iff.mp hok
  obtain ⟨m, hm, hwalks⟩ := Option.bind_eq_some_iff.mp hstart
  obtain ⟨w, hw, htask⟩ := Option.bind_eq_some_iff.mp hwalks
  obtain ⟨u, hu, hclaimed⟩ := Option.map_eq_some_iff.mp htask
  have hsteps := steps_iff_foldlM.mpr he
  have honce := fetches_once (ofLimit 2 none) ⟨"app", "1"⟩ hsteps
  have halone : ∀ l ∈ diamondStart ++ .walk 0 (.start 4) :: diamondRest, l.owner = 0 := by
    decide +kernel
  obtain ⟨v, hv, -⟩ := booked_of_steps hsteps hresult
  cases result with
  | error => cases hisok
  | ok t =>
    refine ⟨e, t, v, hsteps, hresult, hv, honce.owned t v hresult hv, ?_, ?_, ?_⟩
    · refine (honce.counted halone _ hresult).2.trans ?_
      decide +kernel
    · rw [honce.sent halone rfl]
      decide +kernel
    · exact honce.found _ _ 4 m w u rfl (steps_iff_foldlM.mpr hm) hw hu hclaimed

end Explorer

end PackageGate
