import PackageGate.Proofs.Explorer.Fetches

/-!
# Successes that are not asked for again

Whoever remembers successes can still ask twice at the same time, before the first answer is in.
A walk does not, since it asks for no key twice, and as long as walks follow one another, no two of
them ask at the same time. So every success is the only one for its package.

- `Walk.asking`, `Walk.Saving`: what a walk is waiting to be answered about, each of it once.
- `Explorer.answered?`: the package for which a success comes in from the registry.
- `Explorer.Saves`: what has been answered with success is remembered and not asked for again.
- `Explorer.Saves.step`, `Explorer.Saves.begin`: every step keeps it so, and so does a new walk
  after the others.
-/

namespace PackageGate

/-! ## One walk -/

namespace Walk

variable {w w' v : Walk} {l : Label} {t : Nat} {p : Package} {x : Option Entry}
  {reply : Except Failure Manifest}

/-- The packages that a walk waits to be answered about. -/
def asking (w : Walk) : Multiset Package := w.bag.bind Task.asking

theorem asking_ofRoot (root : Package) : (ofRoot root).asking = 0 := rfl

/-- A request adds to what is waited for, and its answer takes it away. -/
theorem asking_move (hw : w.Numbered) (hmove : Move w w' l x) :
    w'.asking + (extend 0 x).bind Entry.replied = w.asking + (w.sent? l).toList := by
  obtain ⟨sent, hsent⟩ := Quot.exists_rep w.asking
  have hcalled : Called sent 0 w := by
    show (sent : Multiset Package) = w.asking + Multiset.bind 0 Entry.replied
    rw [Multiset.zero_bind, add_zero]
    exact hsent
  have hnext : ((sent ++ (w.sent? l).toList : List Package) : Multiset Package) =
      w'.asking + (extend 0 x).bind Entry.replied := hcalled.move hw hmove
  rw [← hnext, ← Multiset.coe_add]
  exact congrArg (· + _) hsent

/-- A walk that stands, and asks for nothing twice. -/
structure Saving (w : Walk) : Prop where
  standing : w.Standing
  sparing : ∃ sent, Sparing sent w ∧ w.asking ≤ (sent : Multiset Package)

theorem Saving.ofRoot (root : Package) : Saving (ofRoot root) :=
  ⟨.ofRoot root, [], .ofRoot root, le_rfl⟩

/-- A walk that saves waits for no package twice. -/
theorem Saving.nodup (h : w.Saving) : w.asking.Nodup := by
  obtain ⟨sent, hsparing, hle⟩ := h.sparing
  exact Multiset.nodup_of_le hle (Multiset.coe_nodup.mpr (hsparing.nodup_sent.of_map _))

/-- What a step waits for in addition, it has sent a request for. -/
theorem Saving.asking_le (h : w.Saving) (hstep : w.step l = some w') (hl : l ≠ .cancel) :
    w'.asking ≤ w.asking + (w.sent? l).toList := by
  rw [← asking_move h.standing.numbered (h.standing.move hl hstep)]
  exact Multiset.le_add_right _ _

theorem Saving.step (h : w.Saving) (hstep : w.step l = some w') (hl : l ≠ .cancel) :
    w'.Saving := by
  obtain ⟨sent, hsparing, hle⟩ := h.sparing
  refine ⟨h.standing.step hl hstep, _, hsparing.step hstep, (h.asking_le hstep hl).trans ?_⟩
  rw [← Multiset.coe_add]
  exact add_le_add_left hle _

/-- The package of an answer was waited for until then. -/
theorem Saving.asking_answer (h : w.Saving) (hstep : w.step (.answer t reply) = some w')
    (hp : (w.task? t).map (·.package) = some p) : w.asking = p ::ₘ w'.asking := by
  obtain ⟨u, -, -, -, htask⟩ := calling_of_answer hstep
  have hmove := asking_move h.standing.numbered (h.standing.move (l := .answer t reply) nofun hstep)
  have hnote : w.note? (.answer t reply) = some (w.received u.package reply) := by
    rw [note?, htask, Option.map_some]
  have hreplied : (extend 0 (some (w.received u.package reply))).bind Entry.replied = {p} := by
    rw [htask, Option.map_some] at hp
    rw [extend, Multiset.cons_bind, Multiset.zero_bind, add_zero, Entry.replied, answer?_received,
      asked_received, Option.some.inj hp]
  rw [hnote, hreplied, add_comm, Multiset.singleton_add] at hmove
  exact (hmove.trans (add_zero _)).symm

end Walk

/-! ## One walk after another -/

namespace Explorer

variable {e e' : Explorer} {done done' : List Package} {current : Option Nat} {l : Label} {j : Nat}
  {w w' : Walk} {k : Walk.Label}

/-- The package for which a success comes in from the registry. -/
def answered? (e : Explorer) : Label → Option Package
  | .walk i (.answer t (.ok _)) => e.package? i t
  | _ => none

/-- The packages `done` have been answered with success, each of them once. They are remembered, and
the walk that is going on, if there is one, does not wait for any of them. -/
structure Saves (done : List Package) (current : Option Nat) (e : Explorer) : Prop where
  nodup : done.Nodup
  remembered : ∃ memo, e.memo = some memo ∧ ∀ p ∈ done, (memo.manifest? p).isSome = true
  saving : ∀ w ∈ e.walks, w.Saving
  fresh : ∀ j w, e.walks[j]? = some w →
    w.Over ∨ (current = some j ∧ ∀ p ∈ w.asking, p ∉ done)

theorem Saves.ofLimit (limit : Nat) (memo : Memo) :
    Saves [] none (ofLimit limit (some memo)) where
  nodup := .nil
  remembered := ⟨memo, rfl, nofun⟩
  saving := nofun
  fresh := nofun

theorem Saves.saving_at (h : Saves done current e) (hw : e.walks[j]? = some w) : w.Saving :=
  h.saving w (List.mem_of_getElem? hw)

/-- Only the walk that is going on takes a step. -/
theorem Saves.going (h : Saves done current e) (hw : e.walks[j]? = some w)
    (hk : w.step k = some w') : current = some j ∧ ∀ p ∈ w.asking, p ∉ done := by
  refine (h.fresh j w hw).resolve_left fun hover => ?_
  rw [hover.step_eq_none (h.saving_at hw).standing.ordered k] at hk
  cases hk

/-- Where no walk is going on, none takes a step. -/
theorem Saves.step_eq_none (h : Saves done none e) (l : Label) : e.step l = none := by
  by_contra hne
  obtain ⟨e', hstep⟩ := Option.ne_none_iff_exists'.mp hne
  obtain ⟨w, w', hw, hturn, -⟩ := exists_turn hstep
  cases hturn with
  | one hk => cases (h.going hw hk).1
  | remember _ _ hv => cases (h.going hw hv).1

/-- The walk that is going on has moved, and waits for nothing that is done by now. -/
theorem Saves.set (h : Saves done current e) (hw : e.walks[j]? = some w)
    (hcurrent : current = some j) (hset : e'.walks = e.walks.set j w') (hsaving : w'.Saving)
    (hnodup : done'.Nodup)
    (hremembered : ∃ memo, e'.memo = some memo ∧
      ∀ p ∈ done', (memo.manifest? p).isSome = true)
    (hfresh : ∀ p ∈ w'.asking, p ∉ done') : Saves done' current e' where
  nodup := hnodup
  remembered := hremembered
  saving v hv := by
    rw [hset] at hv
    rcases List.mem_or_eq_of_mem_set hv with hv | rfl
    · exact h.saving v hv
    · exact hsaving
  fresh i v hv := by
    rw [hset] at hv
    by_cases hij : j = i
    · subst hij
      rw [getElem?_set_self_of_some hw] at hv
      cases hv
      exact .inr ⟨hcurrent, hfresh⟩
    · rw [List.getElem?_set_ne hij] at hv
      refine .inl ((h.fresh i v hv).resolve_right fun hgoing => hij ?_)
      exact Option.some.inj (hcurrent.symm.trans hgoing.1)

/-- A step that asks for nothing leaves the walk waiting for nothing new. -/
theorem Saves.of_quiet (h : Saves done current e) (hw : e.walks[j]? = some w)
    (hk : w.step k = some w') (hcancel : k ≠ .cancel) (hsent : w.sent? k = none)
    (hset : e'.walks = e.walks.set j w') (hmemo : e'.memo = e.memo) : Saves done current e' := by
  obtain ⟨hcurrent, hfresh⟩ := h.going hw hk
  have hle := (h.saving_at hw).asking_le hk hcancel
  rw [hsent, Option.toList_none, Multiset.coe_nil, add_zero] at hle
  exact h.set hw hcurrent hset ((h.saving_at hw).step hk hcancel) h.nodup (hmemo ▸ h.remembered)
    fun p hp => hfresh p (Multiset.mem_of_le hle hp)

/-- What is not remembered may be asked for: it is not done. -/
theorem Saves.of_request {t : Nat} {p : Package} (h : Saves done current e)
    (hw : e.walks[j]? = some w) (hk : w.step (.request t) = some w')
    (hp : e.package? j t = some p) (hnone : e.remembered? p = none)
    (hset : e'.walks = e.walks.set j w') (hmemo : e'.memo = e.memo) : Saves done current e' := by
  obtain ⟨hcurrent, hfresh⟩ := h.going hw hk
  have hle := (h.saving_at hw).asking_le hk nofun
  rw [show w.sent? (.request t) = some p from (package?_eq hw t).symm.trans hp] at hle
  refine h.set hw hcurrent hset ((h.saving_at hw).step hk nofun) h.nodup (hmemo ▸ h.remembered) ?_
  intro q hq
  rcases Multiset.mem_add.mp (Multiset.mem_of_le hle hq) with hq | hq
  · exact hfresh q hq
  · obtain rfl : q = p := by simpa using hq
    obtain ⟨memo, hmemo, hremembered⟩ := h.remembered
    rw [remembered?, hmemo, Option.bind_some] at hnone
    intro hdone
    have hsome := hremembered q hdone
    rw [hnone] at hsome
    cases hsome

/-- A failure that comes in is forgotten at once. -/
theorem Saves.of_failure {t : Nat} {p : Package} {failure : Failure} (h : Saves done current e)
    (hw : e.walks[j]? = some w) (hk : w.step (.answer t (.error failure)) = some w')
    (hset : e'.walks = e.walks.set j w')
    (hmemo : e'.memo = e.memo.map (·.keepManifest p (.error failure))) :
    Saves done current e' := by
  refine h.of_quiet hw hk nofun rfl hset (hmemo.trans ?_)
  cases e.memo <;> rfl

/-- A success that comes in is remembered, and the walk waits for it no more. -/
theorem Saves.of_success {t : Nat} {p : Package} {m : Manifest} (h : Saves done current e)
    (hw : e.walks[j]? = some w) (hk : w.step (.answer t (.ok m)) = some w')
    (hp : e.package? j t = some p) (hset : e'.walks = e.walks.set j w')
    (hmemo : e'.memo = e.memo.map (·.keepManifest p (.ok m))) :
    Saves (done ++ [p]) current e' := by
  obtain ⟨hcurrent, hfresh⟩ := h.going hw hk
  obtain ⟨memo, he, hremembered⟩ := h.remembered
  have hnodup := (h.saving_at hw).nodup
  rw [(h.saving_at hw).asking_answer hk ((package?_eq hw t).symm.trans hp)] at hfresh hnodup
  refine h.set hw hcurrent hset ((h.saving_at hw).step hk nofun) ?_
    ⟨memo.keepManifest p (.ok m), ?_, ?_⟩ ?_
  · exact List.nodup_append_comm.mp (List.nodup_cons.mpr
      ⟨hfresh p (Multiset.mem_cons_self p _), h.nodup⟩)
  · rw [hmemo, he, Option.map_some]
  · intro q hq
    rcases List.mem_append.mp hq with hq | hq
    · exact Memo.isSome_manifest?_keepManifest (hremembered q hq) p (.ok m)
    · rw [List.mem_singleton.mp hq, Memo.manifest?_keepManifest, if_pos rfl]
      rfl
  · intro q hq hdone
    rcases List.mem_append.mp hdone with hdone | hdone
    · exact hfresh q (Multiset.mem_cons_of_mem hq) hdone
    · rw [List.mem_singleton.mp hdone] at hq
      exact (Multiset.nodup_cons.mp hnodup).1 hq

/-- A request that the memo answers leaves nothing to wait for. -/
theorem Saves.of_recall {t : Nat} {m : Manifest} {v : Walk} (h : Saves done current e)
    (hw : e.walks[j]? = some w) (hv : w.step (.request t) = some v)
    (hk : v.step (.answer t (.ok m)) = some w') (hset : e'.walks = e.walks.set j w')
    (hmemo : e'.memo = e.memo) : Saves done current e' := by
  obtain ⟨hcurrent, hfresh⟩ := h.going hw hv
  have hsent := (h.saving_at hw).step hv nofun
  obtain ⟨u, -, -, -, htask⟩ := Walk.calling_of_answer hk
  have hle := (h.saving_at hw).asking_le hv nofun
  have hasking : v.asking = u.package ::ₘ w'.asking :=
    hsent.asking_answer hk (by rw [htask, Option.map_some])
  have hp : w.sent? (.request t) = some u.package := package_of_request hv htask
  rw [hp, hasking, Option.toList_some, Multiset.coe_singleton, add_comm, Multiset.singleton_add,
    Multiset.cons_le_cons_iff] at hle
  exact h.set hw hcurrent hset (hsent.step hk nofun) h.nodup (hmemo ▸ h.remembered)
    fun q hq => hfresh q (Multiset.mem_of_le hle hq)

/-- Every step of the tasks keeps it so, and what it answers with success is done. -/
theorem Saves.step (h : Saves done current e) (hl : ∀ i, l ≠ .walk i .cancel)
    (hstep : e.step l = some e') : Saves (done ++ (e.answered? l).toList) current e' := by
  have hquiet : ∀ x, Saves done current x → Saves (done ++ []) current x := by
    intro x hx
    rw [List.append_nil]
    exact hx
  cases step_move hstep with
  | start hw hk | join hw hk | finish hw hk | discard hw hk =>
    exact hquiet _ (h.of_quiet hw hk nofun rfl rfl rfl)
  | cancel => exact absurd rfl (hl _)
  | request hw hk hp _ hnone => exact hquiet _ (h.of_request hw hk hp hnone rfl rfl)
  | remember hw _ _ hv hk => exact hquiet _ (h.of_recall hw hv hk rfl rfl)
  | @answer j t reply w w' p hw hk hp =>
    cases reply with
    | error failure => exact hquiet _ (h.of_failure hw hk rfl rfl)
    | ok m =>
      rw [answered?, hp]
      exact h.of_success hw hk hp rfl rfl

/-- What is remembered about newest versions changes nothing about this. -/
theorem Saves.keepLatest (h : Saves done current e) (name : String)
    (reply : Except Failure (Option String)) :
    Saves done current { e with memo := e.memo.map (·.keepLatest name reply) } where
  nodup := h.nodup
  remembered := by
    obtain ⟨memo, hmemo, hremembered⟩ := h.remembered
    refine ⟨memo.keepLatest name reply, by rw [hmemo, Option.map_some], fun p hp => ?_⟩
    rw [Memo.manifest?_keepLatest]
    exact hremembered p hp
  saving := h.saving
  fresh := h.fresh

/-- A walk with a result is not going on. -/
theorem Saves.rest (h : Saves done (some j) e) {r : Except Failure Tree}
    (hresult : e.result? j = some r) : Saves done none e where
  nodup := h.nodup
  remembered := h.remembered
  saving := h.saving
  fresh i w hw := by
    refine .inl ((h.fresh i w hw).elim id fun hgoing => ?_)
    obtain rfl := Option.some.inj hgoing.1
    exact .inr ⟨r, (result?_eq hw).symm.trans hresult⟩

/-- After the others, a new walk may begin. -/
theorem Saves.begin (h : Saves done none e) (root : Package) :
    Saves done (some e.nextWalk) (e.begin root) where
  nodup := h.nodup
  remembered := h.remembered
  saving w hw := by
    rcases List.mem_append.mp hw with hw | hw
    · exact h.saving w hw
    · rw [List.mem_singleton.mp hw]
      exact .ofRoot root
  fresh j w hw := by
    rcases lt_or_ge j e.walks.length with hlt | hge
    · rw [Explorer.begin, List.getElem?_append_left hlt] at hw
      exact .inl ((h.fresh j w hw).resolve_right nofun)
    · rw [Explorer.begin, List.getElem?_append_right hge, List.getElem?_singleton] at hw
      split at hw
      · cases hw
        refine .inr ⟨congrArg some (show e.walks.length = j by omega), ?_⟩
        intro p hp
        rw [Walk.asking_ofRoot] at hp
        cases Multiset.notMem_zero p hp
      · cases hw

end Explorer

end PackageGate
