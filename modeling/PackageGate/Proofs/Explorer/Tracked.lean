import PackageGate.Proofs.Explorer.Following
import PackageGate.Proofs.Walk.Head

/-!
# One walk among others

In a run of the gate the explorer goes through one walk after another, and tasks of walks that
were given up may still be about. None of this matters to the walk that is going on: under a
catalog it comes to what the catalog has on its root.

- `Explorer.Truthful`: what is remembered are answers of the catalog.
- `Explorer.Tracked`: the walk with a number is one of a root, and on its way.
- `Explorer.Tracked.step`: every step of the explorer keeps it so.
- `Explorer.Tracked.arrived`, `Explorer.Tracked.failed`: what the walk comes to.
-/

namespace PackageGate

namespace Explorer

/-- What is remembered are answers of the catalog. -/
def Truthful (c : Catalog) (memo : Option Memo) : Prop :=
  ∀ p m, memo.bind (·.manifest? p) = some m → c.answer p = .ok m

/-- The walk with the number `i` is one of `root`, and has told answers of the catalog only. -/
def Tracked (c : Catalog) (root : Package) (i : Nat) (e : Explorer) : Prop :=
  ∃ log w, e.walks[i]? = some w ∧ Walk.Underway c root log w ∧
    Walk.Headed (c.answer root = ·) root w

variable {c : Catalog} {root p : Package} {e e' : Explorer} {log : Multiset Walk.Entry}
  {w w' v : Walk} {l : Label} {i t : Nat}

theorem step_of_stepUnder (h : e.stepUnder c l = some e') : e.obeys c l ∧ e.step l = some e' := by
  unfold stepUnder at h
  split at h
  · exact ⟨‹_›, h⟩
  · cases h

/-- Every step under a catalog leaves answers of the catalog in the memo. -/
theorem Truthful.step (h : Truthful c e.memo) (hstep : e.stepUnder c l = some e') :
    Truthful c e'.memo := by
  obtain ⟨hobeys, hstep⟩ := step_of_stepUnder hstep
  cases step_move hstep with
  | @answer j t reply w w' p _ _ hp =>
    have hall : (e.package? j t).all (fun p => reply = c.answer p) = true := hobeys
    rw [hp] at hall
    have hreply : reply = c.answer p := of_decide_eq_true hall
    exact memo_keep h fun m hm => hreply.symm.trans hm
  | request | remember | start | join | finish | cancel | discard => exact h

/-- What the catalog answers to the root's request is what a faithful entry tells of it. -/
theorem answer_of_faithful {x : Walk.Entry} (hx : x.Faithful c.answer) (hasked : x.asked = root) :
    ∀ r, x.answer? = some r → c.answer root = r := by
  intro r hr
  rw [hx r hr, hasked]

theorem tracked_begin (c : Catalog) (root : Package) (e : Explorer) :
    Tracked c root e.nextWalk (e.begin root) :=
  ⟨0, .ofRoot root, List.getElem?_concat_length, .ofRoot c root, .ofRoot _ root⟩

/-- A step under a catalog tells an answer of the catalog, or none. -/
theorem faithful_of_obeys {k : Walk.Label} (hobeys : e.obeys c (.walk i k) = true)
    (hw : e.walks[i]? = some w) : ∀ x, w.note? k = some x → x.Faithful c.answer := by
  cases k with
  | start t => exact faithful_inner (.start t)
  | join t => exact faithful_inner (.join t)
  | finish t => exact faithful_inner (.finish t)
  | request | cancel | discard => exact nofun
  | answer t reply =>
    refine faithful_note fun u hu => ?_
    have hall : (e.package? i t).all (fun p => reply = c.answer p) = true := hobeys
    rw [package?_eq hw, hu] at hall
    exact of_decide_eq_true hall

/-- **A walk is not disturbed** by the other walks, nor by what is remembered of their answers. -/
theorem Tracked.step (h : Tracked c root i e) (hmemo : Truthful c e.memo)
    (hstep : e.stepUnder c l = some e') : Tracked c root i e' := by
  obtain ⟨log, w, hw, hunderway, hheaded⟩ := h
  obtain ⟨hobeys, hstep⟩ := step_of_stepUnder hstep
  have hparented := hunderway.accounts.parented
  cases (step_move hstep).seen i with
  | aside hsame => exact ⟨log, w, hsame.trans hw, hunderway, hheaded⟩
  | @step k _ w' hl hw' hk hnext =>
    obtain rfl := Option.some.inj (hw.symm.trans hw')
    subst hl
    have hcancel : k ≠ .cancel := by
      rintro rfl
      cases hobeys
    have hmove := Walk.step_move hunderway.accounts.numbered hcancel hk
    have hnote := faithful_of_obeys hobeys hw
    exact ⟨_, w', hnext, hunderway.move hmove hnote,
      hheaded.move hparented hmove fun x hx => answer_of_faithful (hnote x hx)⟩
  | @remember t p m _ v w' _ hp hm hw' hrequest hanswer hnext =>
    obtain rfl := Option.some.inj (hw.symm.trans hw')
    have hnumbered := hunderway.accounts.numbered
    -- The permit first, then the remembered answer.
    have hsend := Walk.step_move (l := .request t) hnumbered nofun hrequest
    have hsent := hunderway.move hsend nofun
    have hasking := hheaded.move hparented hsend nofun
    have hreceive := Walk.step_move (l := .answer t (.ok m)) hsent.accounts.numbered nofun hanswer
    have hnote : ∀ x, v.note? (.answer t (.ok m)) = some x → x.Faithful c.answer := by
      refine faithful_note fun u hu => ?_
      rw [package?_eq hw, package_of_request hrequest hu] at hp
      cases hp
      exact (hmemo _ _ hm).symm
    exact ⟨_, w', hnext, hsent.move hreceive hnote,
      hasking.move hsent.accounts.parented hreceive fun x hx => answer_of_faithful (hnote x hx)⟩

/-- The tree of a walk lists what the catalog has on the root, and the root in the version that
its request was answered with. -/
theorem Tracked.arrived (h : Tracked c root i e) (hc : c.Regular root)
    (hw : e.walks[i]? = some w) {t : Tree} (hr : e.result? i = some (.ok t)) :
    ∃ m, c.answer root = .ok m ∧ (w.settle t).package = Walk.resolvedPackage root m ∧
      ∀ key, key ∈ (w.settle t).flatten ↔ c.Listed root key := by
  obtain ⟨log, w', hw', hunderway, hheaded⟩ := h
  obtain rfl := Option.some.inj (hw'.symm.trans hw)
  rw [result?_eq hw] at hr
  obtain ⟨m, hanswer, hpackage⟩ :=
    Walk.HeadNode.package_settle (w := w') (hheaded.result hunderway.accounts hr)
  have hnodes := hunderway.grown.nodes_result hunderway.accounts hr
  exact ⟨m, hanswer, hpackage, fun key => (hunderway.walked hc hr).mem_flatten hanswer hnodes⟩

/-- A walk fails only because its root's request has failed. -/
theorem Tracked.failed (h : Tracked c root i e) {why : Failure}
    (hr : e.result? i = some (.error why)) : ∃ why, c.answer root = .error why := by
  obtain ⟨log, w, hw, hunderway, hheaded⟩ := h
  rw [result?_eq hw] at hr
  exact hheaded.result hunderway.accounts hr

end Explorer

end PackageGate
