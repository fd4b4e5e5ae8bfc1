import PackageGate.Proofs.Explorer.Fetch
import PackageGate.Proofs.Explorer.Requests
import PackageGate.Proofs.Explorer.Tracked
import PackageGate.Proofs.Walk.Stubs

/-!
# Stubs in the tree of a walk

In the tree that a walk comes to, a stub stands for a node that is no stub exactly when the
request for its key was not spurned: it was answered, with this very key. A package that could
not be fetched has no node of its own, but its key is listed as soon as a second task wanted it.

- `Explorer.Stands`, `Explorer.stubs_stand`: what stands for the keys that were claimed.
- `Explorer.stub_without_node`: a walk with a stub that stands for no node.
-/

namespace PackageGate

namespace Explorer

/-- Every manifest that the registry answered with names a dependency once. -/
def DistinctNames (log : List Walk.Entry) : Prop :=
  ∀ x ∈ log, ∀ m, x.answer? = some (.ok m) → (m.dependencies.map Prod.fst).Nodup

/-- What stands in the tree `t` for the keys that the tasks of a walk have claimed. -/
structure Stands (log : List Walk.Entry) (w : Walk) (t : Tree) : Prop where
  /-- A key has a node of its own exactly when it was claimed and not spurned. -/
  represented : ∀ key, t.Represents key ↔ key ∈ w.visits.keys ∧ ¬Walk.Spurned log key
  /-- Where names are plain, a stub stands for such a node exactly when its key was not
  spurned. -/
  stub : Walk.PlainNames log → ∀ p, (p, true) ∈ t.nodes →
    (t.Represents p.key ↔ ¬Walk.Spurned log p.key)
  /-- A package whose request has failed has no node of its own. -/
  failed : ∀ p e, Walk.Entry.refused p e ∈ log → ¬t.Represents p.key
  /-- Its key is listed exactly when another task left the package to the failing one. -/
  listed : Walk.PlainNames log → ∀ p e, Walk.Entry.refused p e ∈ log →
    (p.key ∈ t.flatten ↔ ∃ x ∈ log, ∃ q, x.left? = some q ∧ q.key = p.key)

variable {e e₀ : Explorer} {ls : List Label} {root : Package} {log : List Walk.Entry} {w : Walk}
  {t : Tree}

theorem DistinctNames.distinct (h : DistinctNames log) : ∀ x ∈ log, x.Distinct := by
  intro x hx r m hexp
  have hans : x.answer? = some (.ok m) := by
    cases x <;> cases hexp <;> rfl
  exact (h x hx m hans).sublist (Catalog.names_edgePackages m)

/-- **What stubs stand for.** In the tree of a walk, a key has a node that is no stub exactly when
a task has claimed it and its request, if there was one, was answered with this very key. Stubs
for other keys stand for nothing: above all those for a package that could not be fetched, which
are there as soon as two tasks wanted it. -/
theorem stubs_stand (e₀ : Explorer) (root : Package) {ls : List Label} {e : Explorer} {t : Tree}
    {w : Walk} (h : Steps step (e₀.begin root) ls e) (hr : e.result? e₀.nextWalk = some (.ok t))
    (hw : e.walks[e₀.nextWalk]? = some w)
    (hdistinct : DistinctNames ((e₀.begin root).history e₀.nextWalk ls)) :
    Stands ((e₀.begin root).history e₀.nextWalk ls) w (w.settle t) := by
  obtain ⟨w', hw', hresult, hbooked⟩ := booked_of_steps h hr
  obtain rfl := Option.some.inj (hw'.symm.trans hw)
  have hsettled := hbooked.accounts.settled hresult
  have hnodes := (hbooked.grown hdistinct.distinct).nodes_result hbooked.accounts hresult
  refine ⟨fun key => hsettled.represents_iff hnodes, fun hplain p hp => ?_, fun p why hx => ?_,
    fun hplain p why hx => hsettled.refused_listed_iff hplain hnodes hx⟩
  · rw [hsettled.represents_iff hnodes]
    exact and_iff_right (hsettled.stub_mem hplain hnodes hp)
  · rw [hsettled.represents_iff hnodes]
    exact fun hboth => hboth.2 (Walk.spurned_of_refused hx)

/-! ## A stub that stands for nothing

In the ring, `left` and `right` both depend on `gone`, which cannot be fetched. One of the two
tasks asks for it in vain, and the other one has left a stub by then.
-/

/-- What happens on the way around the ring. -/
def ringHistory : List Walk.Entry :=
  [.kept ⟨"app", "1"⟩ ⟨"app", "1", [("left", "1"), ("right", "*")]⟩,
    .landed ⟨"right", "latest"⟩ ⟨"right", "2", [("app", "1"), ("gone", "1")]⟩,
    .kept ⟨"left", "1"⟩ ⟨"left", "1", [("gone", "1"), ("right", "2")]⟩,
    .found ⟨"app", "1"⟩, .found ⟨"gone", "1"⟩, .found ⟨"right", "2"⟩,
    .refused ⟨"gone", "1"⟩ (.ofFault (.validation "gone"))]

theorem ringRun_history :
    ((ofLimit 1 none).begin ⟨"app", "1"⟩).history 0 ringRun = ringHistory := by
  decide +kernel

/-- The walk comes to a tree with a stub for the package that is gone, and no other node. -/
theorem ringRun_stub : ∃ e t w,
    Steps (stepUnder ring) ((ofLimit 1 none).begin ⟨"app", "1"⟩) ringRun e ∧
      e.result? 0 = some (.ok t) ∧ e.walks[0]? = some w ∧
      (⟨"gone", "1"⟩, true) ∈ (w.settle t).nodes ∧
      ∀ p ∈ (w.settle t).expanded, p.key ≠ "gone@1" := by
  have hrun : (ringRun.foldlM (stepUnder ring) ((ofLimit 1 none).begin ⟨"app", "1"⟩)).bind
      (fun e => (e.result? 0).bind fun r => e.walks[0]?.map fun w =>
        r.toOption.any fun t => (⟨"gone", "1"⟩, true) ∈ (w.settle t).nodes ∧
          ∀ p ∈ (w.settle t).expanded, p.key ≠ "gone@1") = some true := by
    decide +kernel
  obtain ⟨e, he, hresult⟩ := Option.bind_eq_some_iff.mp hrun
  obtain ⟨r, hr, hwalk⟩ := Option.bind_eq_some_iff.mp hresult
  obtain ⟨w, hw, hstub⟩ := Option.map_eq_some_iff.mp hwalk
  cases r with
  | error => cases hstub
  | ok t => exact ⟨e, t, w, steps_iff_foldlM.mpr he, hr, hw, of_decide_eq_true hstub⟩

theorem ringHistory_distinctNames : DistinctNames ringHistory := by
  intro x hx m hans
  simp only [ringHistory, List.mem_cons, List.not_mem_nil, or_false] at hx
  rcases hx with rfl | rfl | rfl | rfl | rfl | rfl | rfl <;> cases hans <;> decide

theorem ringHistory_plainNames : Walk.PlainNames ringHistory := by
  have hall : ringHistory.all fun x =>
      x.asked.name.toList ≠ [] ∧ '@' ∉ x.asked.name.toList.tail := by
    decide +kernel
  intro x hx
  obtain ⟨hnonempty, hplain⟩ := of_decide_eq_true (List.all_eq_true.mp hall x hx)
  exact ⟨hnonempty, hplain⟩

/-- The key that is gone stands in the tree of the ring, and no node represents it. -/
theorem stubs_stand_ring : ∃ e t w,
    Steps step ((ofLimit 1 none).begin ⟨"app", "1"⟩) ringRun e ∧ e.result? 0 = some (.ok t) ∧
      e.walks[0]? = some w ∧ ¬(w.settle t).Represents "gone@1" ∧
      "gone@1" ∈ (w.settle t).flatten := by
  obtain ⟨e, t, w, hunder, hresult, hw, -⟩ := ringRun_stub
  have hsteps : Steps step _ ringRun e := hunder.mono fun hl => (step_of_stepUnder hl).2
  have hhistory : ((ofLimit 1 none).begin ⟨"app", "1"⟩).history (ofLimit 1 none).nextWalk ringRun =
      ringHistory := ringRun_history
  have hstands := stubs_stand (ofLimit 1 none) ⟨"app", "1"⟩ hsteps hresult hw
    (hhistory ▸ ringHistory_distinctNames)
  rw [hhistory] at hstands
  have hrefused : .refused ⟨"gone", "1"⟩ (.ofFault (.validation "gone")) ∈ ringHistory := by
    decide +kernel
  refine ⟨e, t, w, hsteps, hresult, hw, hstands.failed _ _ hrefused, ?_⟩
  have hfound : .found ⟨"gone", "1"⟩ ∈ ringHistory := by
    decide +kernel
  exact (hstands.listed ringHistory_plainNames _ _ hrefused).mpr ⟨_, hfound, _, rfl, rfl⟩

/-- Not every stub stands for a node, even when the registry answers each package always alike and
for a tag as for the version behind it. -/
theorem stub_without_node : ¬∀ (c : Catalog) (e₀ : Explorer) (root : Package) (ls : List Label)
    (e : Explorer) (t : Tree) (w : Walk), c.Stable → Idle c e₀ →
    Steps (stepUnder c) (e₀.begin root) ls e → e.result? e₀.nextWalk = some (.ok t) →
    e.walks[e₀.nextWalk]? = some w →
    ∀ p, (p, true) ∈ (w.settle t).nodes → (w.settle t).Represents p.key := by
  intro hall
  obtain ⟨e, t, w, hsteps, hresult, hw, hstub, hnone⟩ := ringRun_stub
  obtain ⟨p, hp, hkey⟩ := hall ring (ofLimit 1 none) ⟨"app", "1"⟩ ringRun e t w ring_stable
    (idle_ofLimit ring 1) hsteps hresult hw _ hstub
  exact hnone p hp (hkey.trans (by decide))

end Explorer

end PackageGate
