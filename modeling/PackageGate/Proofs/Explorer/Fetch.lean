import PackageGate.Proofs.Explorer.Following
import PackageGate.Proofs.Walk.Head

/-!
# What a root's dependencies come to

A walk that is not given up, with a registry that always answers alike, comes to an end
under every order of its steps and every number of permits. Its tree then lists the same
keys and has the same number of nodes.

- `Explorer.finds_exactly`: the result, and that it is reached.
- `Explorer.ring`: a catalog with a cycle, a tag and a request that fails.
-/

namespace PackageGate

namespace Explorer

variable {c : Catalog} {root p : Package} {e₀ e : Explorer} {log : Multiset Walk.Entry} {w : Walk}

/-- A walk that has ended under a catalog has walked it. -/
theorem Following.walked (h : Following c root e₀ log w e) (hc : c.Regular root)
    {r : Except Failure Tree} (hr : w.result? = some r) : Walk.Walked c root log w :=
  h.underway.walked hc hr

/-- A walk whose root is answered does not fail: the root leaves a node behind. -/
theorem Following.result_ok (h : Following c root e₀ log w e) (hc : c.Regular root)
    {m₀ : Manifest} (hroot : c.answer root = .ok m₀) {r : Except Failure Tree}
    (hr : w.result? = some r) : ∃ t, r = .ok t := by
  have hwalked := h.walked hc hr
  have hexpanded := hwalked.mem_expands.mpr ⟨root, m₀, .root, hroot, rfl⟩
  obtain ⟨x, hx, hexpands⟩ := Multiset.mem_bind.mp hexpanded
  obtain ⟨m, hexp⟩ := Walk.Entry.mem_expands.mp hexpands
  have hnode := Multiset.mem_bind.mpr ⟨x, hx, Walk.Entry.mem_nodes_of_expanded hexp⟩
  rw [← h.underway.grown.nodes] at hnode
  obtain ⟨u, hbag, hphase⟩ := h.underway.accounts.alone hr
  rw [hbag, Multiset.singleton_bind] at hnode
  cases r with
  | ok t => exact ⟨t, rfl⟩
  | error e =>
    simp only [Walk.Task.nodes, Walk.Task.tree?, hphase] at hnode
    exact absurd hnode (Multiset.notMem_zero _)

/-- **What a walk finds.** Take a catalog that is stable, and a root that it answers, from which
only finitely many packages can be asked for, none with an `@` behind the first character of
its name. Then from any idle explorer, with any number of permits, and in any order of steps,
the walk of the root takes a bounded number of steps, some step is possible until it has a
result, and the result is a tree that lists exactly the keys to be listed, with a number of
nodes that does not depend on the order. -/
theorem finds_exactly (c : Catalog) (hstable : c.Stable) (root : Package)
    (hname : Text.isBlankText root.name = false) {m₀ : Manifest} (hroot : c.answer root = .ok m₀)
    (hseparator : ∀ p, c.Asked root p → '@' ∉ p.name.toList.tail)
    (hfinite : {p | c.Asked root p}.Finite) (e₀ : Explorer) (he₀ : Idle c e₀) :
    (∃ bound, ∀ ls e, Steps (stepUnder c) (e₀.begin root) ls e → ls.length ≤ bound ∧
      (e.result? e₀.nextWalk = none → ∃ l e', e.stepUnder c l = some e')) ∧
    ∃ count, ∀ ls e r, Steps (stepUnder c) (e₀.begin root) ls e →
      e.result? e₀.nextWalk = some r → ∃ w t, e.walks[e₀.nextWalk]? = some w ∧ r = .ok t ∧
        (∀ key, key ∈ (w.settle t).flatten ↔ c.Listed root key) ∧
        (w.settle t).nodeCount = count := by
  have hc := Catalog.regular_of_nonblank hstable hname hseparator
  constructor
  · -- Five steps for the root and for every dependency that is declared.
    refine ⟨5 * (1 + Catalog.breadth hfinite), fun ls e h => ?_⟩
    obtain ⟨log, w, hfollowing, hlength⟩ := following_of_steps he₀ h
    have hspawned := hfollowing.underway.spawned_le hstable hfinite
    refine ⟨?_, hfollowing.exists_step he₀.free⟩
    omega
  · -- One node for each of them, but none for a failing request.
    refine ⟨1 + Catalog.breadth hfinite - (Catalog.failures hfinite).card, fun ls e r h hr => ?_⟩
    obtain ⟨log, w, hfollowing, -⟩ := following_of_steps he₀ h
    rw [hfollowing.result?_eq] at hr
    obtain ⟨t, rfl⟩ := hfollowing.result_ok hc hroot hr
    have hwalked := hfollowing.walked hc hr
    have hnodes := hfollowing.underway.grown.nodes_result hfollowing.underway.accounts hr
    refine ⟨w, t, hfollowing.getElem?, rfl, fun key => hwalked.mem_flatten hroot hnodes, ?_⟩
    have hcount := hwalked.nodeCount_add hnodes hfinite
    omega

/-- A ring of packages: `right` depends on `app` again, and is named by a tag and by its
version; what both `left` and `right` depend on is gone. -/
def ringEntries : List (Package × Manifest) :=
  [(⟨"app", "1"⟩, ⟨"app", "1", [("left", "1"), ("right", "*")]⟩),
    (⟨"left", "1"⟩, ⟨"left", "1", [("gone", "1"), ("right", "2")]⟩),
    (⟨"right", "latest"⟩, ⟨"right", "2", [("app", "1"), ("gone", "1")]⟩),
    (⟨"right", "2"⟩, ⟨"right", "2", [("app", "1"), ("gone", "1")]⟩)]

/-- The packages that are asked for in the ring. -/
def ringPackages : List Package :=
  [⟨"app", "1"⟩, ⟨"left", "1"⟩, ⟨"right", "latest"⟩, ⟨"right", "2"⟩, ⟨"gone", "1"⟩]

/-- The answers in the ring. -/
def ringAnswer (p : Package) : Except Failure Manifest :=
  match ringEntries.lookup p with
  | some m => .ok m
  | none => .error (.ofFault (.validation "gone"))

theorem mem_ringEntries {m : Manifest} (h : ringAnswer p = .ok m) : (p, m) ∈ ringEntries := by
  unfold ringAnswer at h
  split at h
  · rename_i m' hlookup
    cases h
    obtain ⟨as, bs, hentries, -⟩ := List.lookup_eq_some_iff.mp hlookup
    rw [hentries]
    exact List.mem_append_right as List.mem_cons_self
  · cases h

/-- The catalog of the ring. -/
def ring : Catalog where
  answer := ringAnswer
  distinct p m h := by
    have hall : ringEntries.all fun x => (x.2.dependencies.map Prod.fst).Nodup := by
      decide +kernel
    exact of_decide_eq_true (List.all_eq_true.mp hall _ (mem_ringEntries h))

/-- Asked again under the version that it answers with, the ring answers the same. -/
theorem ring_stable : ring.Stable := by
  have hall : ringEntries.all fun x =>
      ringEntries.lookup (x.1.withVersion x.2.version) = some x.2 := by
    decide +kernel
  intro p m h _
  have hlookup := of_decide_eq_true (List.all_eq_true.mp hall _ (mem_ringEntries h))
  refine ⟨m, ?_, rfl, .inl rfl⟩
  show ringAnswer _ = _
  rw [ringAnswer, hlookup]

theorem ring_asked (h : ring.Asked ⟨"app", "1"⟩ p) : p ∈ ringPackages := by
  have hall : ringEntries.all fun x => (Walk.edgePackages x.2).all fun q => q ∈ ringPackages := by
    decide +kernel
  cases h with
  | root => exact List.mem_cons_self
  | edge _ hanswer hq =>
    have hedges := List.all_eq_true.mp hall _ (mem_ringEntries hanswer)
    exact of_decide_eq_true (List.all_eq_true.mp hedges _ hq)

/-- One order of steps around the ring, with one permit. -/
def ringRun : List Label :=
  [.walk 0 (.start 0), .walk 0 (.request 0), .walk 0 (.answer 0 (ringAnswer ⟨"app", "1"⟩)),
    .walk 0 (.start 1), .walk 0 (.start 2), .walk 0 (.request 2),
    .walk 0 (.answer 2 (ringAnswer ⟨"right", "latest"⟩)), .walk 0 (.request 1),
    .walk 0 (.answer 1 (ringAnswer ⟨"left", "1"⟩)), .walk 0 (.start 3), .walk 0 (.start 4),
    .walk 0 (.start 5), .walk 0 (.start 6), .walk 0 (.request 4),
    .walk 0 (.answer 4 (ringAnswer ⟨"gone", "1"⟩)), .walk 0 (.join 3), .walk 0 (.join 4),
    .walk 0 (.finish 2), .walk 0 (.join 2), .walk 0 (.join 5), .walk 0 (.join 6),
    .walk 0 (.finish 1), .walk 0 (.join 1), .walk 0 (.finish 0)]

/-- The dependency that is gone is among the keys that are found. -/
theorem finds_exactly_ring : ∃ e w t,
    Steps (stepUnder ring) ((ofLimit 1 none).begin ⟨"app", "1"⟩) ringRun e ∧
      e.result? 0 = some (.ok t) ∧ e.walks[0]? = some w ∧ "gone@1" ∈ (w.settle t).flatten := by
  have hrun : (ringRun.foldlM (stepUnder ring) ((ofLimit 1 none).begin ⟨"app", "1"⟩)).map
      (fun e => (e.result? 0).isSome) = some true := by
    decide +kernel
  obtain ⟨e, he, hsome⟩ := Option.map_eq_some_iff.mp hrun
  obtain ⟨r, hr⟩ := Option.isSome_iff_exists.mp hsome
  have hsteps := steps_iff_foldlM.mpr he
  have hfinite : {p | ring.Asked ⟨"app", "1"⟩ p}.Finite :=
    (List.finite_toSet ringPackages).subset fun p hp => ring_asked hp
  have hseparator : ∀ p, ring.Asked ⟨"app", "1"⟩ p → '@' ∉ p.name.toList.tail := by
    have hall : ringPackages.all fun p => '@' ∉ p.name.toList.tail := by
      decide +kernel
    intro p hp
    exact of_decide_eq_true (List.all_eq_true.mp hall p (ring_asked hp))
  have hname : Text.isBlankText "app" = false := by
    decide +kernel
  have hroot : ring.answer ⟨"app", "1"⟩ =
      .ok ⟨"app", "1", [("left", "1"), ("right", "*")]⟩ := rfl
  obtain ⟨-, count, hresult⟩ := finds_exactly ring ring_stable ⟨"app", "1"⟩ hname hroot hseparator
    hfinite (ofLimit 1 none) (idle_ofLimit ring 1)
  obtain ⟨w, t, hw, rfl, hkeys, -⟩ := hresult ringRun e r hsteps hr
  refine ⟨e, w, t, hsteps, hr, hw, (hkeys "gone@1").mpr ?_⟩
  have happ : ring.Asked ⟨"app", "1"⟩ ⟨"app", "1"⟩ := .root
  have hleft : ring.Asked ⟨"app", "1"⟩ ⟨"left", "1"⟩ := happ.edge rfl (by decide +kernel)
  have hright : ring.Asked ⟨"app", "1"⟩ ⟨"right", "latest"⟩ := happ.edge rfl (by decide +kernel)
  have hgone : ring.Asked ⟨"app", "1"⟩ ⟨"gone", "1"⟩ := hleft.edge rfl (by decide +kernel)
  have hfirst : ring.Declares ⟨"app", "1"⟩ ⟨"left", "1"⟩ ⟨"gone", "1"⟩ :=
    ⟨_, _, hleft, rfl, by decide +kernel, by decide +kernel⟩
  have hsecond : ring.Declares ⟨"app", "1"⟩ ⟨"right", "2"⟩ ⟨"gone", "1"⟩ :=
    ⟨_, _, hright, rfl, by decide +kernel, by decide +kernel⟩
  exact .failed hgone rfl (by decide) hfirst hsecond

end Explorer

end PackageGate
