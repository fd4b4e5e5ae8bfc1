import PackageGate.Proofs.Explorer.History

/-!
# Which dependencies are visited

A walk that comes to a tree has visited the dependencies of every package that it
expanded. A package that some request was answered with is expanded unless the request
for its very key was made too and was answered otherwise: that request has claimed the
key, and all others have left the package to it.

- `Explorer.Answered`: some request was answered with a package of this key.
- `Explorer.DependenciesVisited`: the dependencies of a manifest were visited.
- `Explorer.answered_edges_visited`: when the dependencies of such a package are visited.
- `Explorer.spurned_edge_missed`: a walk in which they are not.
-/

namespace PackageGate

namespace Explorer

/-- Some request was answered with the manifest `m` of a package with the key `key`. -/
def Answered (log : List Walk.Entry) (key : String) (m : Manifest) : Prop :=
  ∃ x ∈ log, x.answer? = some (.ok m) ∧ ∃ r, x.resolved? = some r ∧ r.key = key

/-- Every dependency of the manifest was visited: it was asked for, with whatever answer, or
was expanded when another request was answered with it. -/
def DependenciesVisited (log : List Walk.Entry) (visits : Visits) (m : Manifest) : Prop :=
  ∀ p ∈ Walk.edgePackages m, p.key ∈ visits.keys ∧
    ((∃ x ∈ log, x.answer?.isSome ∧ x.asked.key = p.key) ∨ ∃ m', Walk.Expanded log p.key m')

variable {root : Package} {log : List Walk.Entry} {visits : Visits} {key : String} {m : Manifest}

theorem Answered.exists_resolved (h : Answered log key m) :
    ∃ x ∈ log, ∃ r, x.resolved? = some r ∧ r.key = key := by
  obtain ⟨x, hx, -, r, hr, hkey⟩ := h
  exact ⟨x, hx, r, hr, hkey⟩

theorem answered_of_expanded (h : Walk.Expanded log key m) : Answered log key m := by
  obtain ⟨x, hx, r, hexp, hkey⟩ := h
  refine ⟨x, hx, ?_, r, Walk.Entry.resolved_of_expanded hexp, hkey⟩
  cases x <;> cases hexp <;> rfl

/-- Where a package is expanded, its dependencies are visited. -/
theorem dependenciesVisited_of_expanded (h : Walk.Settled root log visits)
    (hexp : Walk.Expanded log key m) : DependenciesVisited log visits m := by
  intro p hp
  have hvisited := h.edge_visited hexp hp
  obtain ⟨x, hx, hclaims⟩ := h.mem_keys_iff.mp hvisited
  refine ⟨hvisited, ?_⟩
  rcases Walk.Entry.mem_claims hclaims with ⟨hans, hasked⟩ | ⟨r, m', hexp', hkey⟩
  · exact .inl ⟨x, hx, hans, hasked⟩
  · exact .inr ⟨m', x, hx, r, hexp', hkey⟩

/-- **Which dependencies are visited.** In a walk that has come to a tree, a package that some
request was answered with is expanded exactly when the request for its own key was not
answered otherwise. The dependencies of what is expanded are visited, and so are those in
every answer with the package, when it is expanded and the answers agree. Nothing else is
visited but the root and what requests were answered with. -/
theorem answered_edges_visited (e₀ : Explorer) (root : Package) {ls : List Label} {e : Explorer}
    {t : Tree} (h : Steps step (e₀.begin root) ls e)
    (hr : e.result? e₀.nextWalk = some (.ok t)) :
    ∃ w log, e.walks[e₀.nextWalk]? = some w ∧ log = (e₀.begin root).history e₀.nextWalk ls ∧
      (∀ key, (∃ m, Answered log key m) →
        ((∃ m, Walk.Expanded log key m) ↔ ¬Walk.Spurned log key) ∧
        (∀ m, Walk.Expanded log key m → DependenciesVisited log w.visits m) ∧
        (¬Walk.Spurned log key →
          (∀ m m', Answered log key m → Answered log key m' →
            Walk.edgePackages m = Walk.edgePackages m') →
          ∀ m, Answered log key m → DependenciesVisited log w.visits m)) ∧
      (∀ key, w.visits.contains key ↔ key = root.key ∨
        (∃ k m, Walk.Expanded log k m ∧ ∃ p ∈ Walk.edgePackages m, p.key = key) ∨
        ∃ m, Answered log key m) := by
  obtain ⟨w, hw, hresult, haccounts⟩ := settled_of_steps h hr
  have hsettled := haccounts.settled hresult
  refine ⟨w, _, hw, rfl, fun key hanswered => ?_, fun key => ?_⟩
  · -- Whether the key is expanded is settled by its owner.
    obtain ⟨m₀, hm₀⟩ := hanswered
    obtain ⟨x, hx, r, hr, rfl⟩ := hm₀.exists_resolved
    have hiff := hsettled.expanded_iff hx hr
    refine ⟨hiff, fun m hexp => dependenciesVisited_of_expanded hsettled hexp, ?_⟩
    intro hnot hagree m hm
    obtain ⟨m₁, hexp⟩ := hiff.mpr hnot
    have hvisited := dependenciesVisited_of_expanded hsettled hexp
    unfold DependenciesVisited at hvisited ⊢
    rw [hagree m m₁ hm (answered_of_expanded hexp)]
    exact hvisited
  · have hcontains : w.visits.contains key ↔ key ∈ w.visits.keys := List.contains_iff_mem
    rw [hcontains, hsettled.visited_iff]
    refine or_congr_right (or_congr_right ?_)
    constructor
    · rintro ⟨x, hx, r, hr, hkey⟩
      cases x with
      | found | refused => cases hr
      | kept p m | landed p m | met p m => exact ⟨m, _, hx, rfl, r, hr, hkey⟩
    · rintro ⟨m, hm⟩
      exact hm.exists_resolved

/-! ## A dependency that is missed

`app` asks for `n` in version `1`, whose request fails, and for `mid`, which asks for the
newest `n`. The registry answers that with version `1` and its dependency `evil`. The first
task has claimed `n@1` by then, so the second leaves the package to it.
-/

/-- A registry in which a version cannot be fetched but is what the newest tag names. -/
def tornRegistry (p : Package) : Except Failure Manifest :=
  if p = ⟨"app", "1"⟩ then .ok ⟨"app", "1", [("mid", "1"), ("n", "1")]⟩
  else if p = ⟨"mid", "1"⟩ then .ok ⟨"mid", "1", [("n", "*")]⟩
  else if p = ⟨"n", "latest"⟩ then .ok ⟨"n", "1", [("evil", "1")]⟩
  else .error (.ofFault (.validation "gone"))

/-- The explorer before the walk of `app`. -/
def beforeApp : Explorer := .ofLimit 2 none

/-- A walk of `app` in which the request for `n@1` comes before the one for the newest `n`. -/
def tornRun : List Label :=
  [.walk 0 (.start 0), .walk 0 (.request 0),
    .walk 0 (.answer 0 (tornRegistry ⟨"app", "1"⟩)), .walk 0 (.start 2), .walk 0 (.start 1),
    .walk 0 (.request 1), .walk 0 (.answer 1 (tornRegistry ⟨"mid", "1"⟩)), .walk 0 (.start 3),
    .walk 0 (.request 2), .walk 0 (.request 3),
    .walk 0 (.answer 3 (tornRegistry ⟨"n", "latest"⟩)),
    .walk 0 (.answer 2 (tornRegistry ⟨"n", "1"⟩)), .walk 0 (.join 2), .walk 0 (.join 3),
    .walk 0 (.finish 1), .walk 0 (.join 1), .walk 0 (.finish 0)]

/-- What has happened in it. -/
def tornHistory : List Walk.Entry :=
  [.kept ⟨"app", "1"⟩ ⟨"app", "1", [("mid", "1"), ("n", "1")]⟩,
    .kept ⟨"mid", "1"⟩ ⟨"mid", "1", [("n", "*")]⟩,
    .met ⟨"n", "latest"⟩ ⟨"n", "1", [("evil", "1")]⟩,
    .refused ⟨"n", "1"⟩ (.ofFault (.validation "gone"))]

theorem tornRun_history : (beforeApp.begin ⟨"app", "1"⟩).history 0 tornRun = tornHistory := by
  decide +kernel

/-- The walk comes to a tree. -/
theorem tornRun_ends : ∃ e t w, Steps step (beforeApp.begin ⟨"app", "1"⟩) tornRun e ∧
    e.result? 0 = some (.ok t) ∧ e.walks[0]? = some w ∧
    w.visits.keys = ["n@latest", "mid@1", "n@1", "app@1"] := by
  have hrun : (tornRun.foldlM step (beforeApp.begin ⟨"app", "1"⟩)).map
      (fun e => ((e.result? 0).map Except.isOk, e.walks[0]?.map fun w => w.visits.keys)) =
      some (some true, some ["n@latest", "mid@1", "n@1", "app@1"]) := by
    decide +kernel
  obtain ⟨e, he, heq⟩ := Option.map_eq_some_iff.mp hrun
  obtain ⟨hok, hkeys⟩ := Prod.mk.inj heq
  obtain ⟨result, hresult, hisok⟩ := Option.map_eq_some_iff.mp hok
  obtain ⟨w, hw, hwkeys⟩ := Option.map_eq_some_iff.mp hkeys
  cases result with
  | error => cases hisok
  | ok t => exact ⟨e, t, w, steps_iff_foldlM.mpr he, hresult, hw, hwkeys⟩

/-- No request expands `n@1` in this walk, and still all that `mid` depends on is visited. -/
theorem answered_edges_visited_torn : ∃ e t w,
    Steps step (beforeApp.begin ⟨"app", "1"⟩) tornRun e ∧ e.result? 0 = some (.ok t) ∧
    e.walks[0]? = some w ∧ ¬(∃ m, Walk.Expanded tornHistory "n@1" m) ∧
    DependenciesVisited tornHistory w.visits ⟨"mid", "1", [("n", "*")]⟩ := by
  obtain ⟨e, t, -, hsteps, hresult, -, -⟩ := tornRun_ends
  obtain ⟨w, log, hw, hlog, hanswered, -⟩ :=
    answered_edges_visited beforeApp ⟨"app", "1"⟩ hsteps hresult
  have hlog : log = tornHistory := hlog.trans tornRun_history
  subst hlog
  refine ⟨e, t, w, hsteps, hresult, hw, ?_, ?_⟩
  · have hn : Answered tornHistory "n@1" ⟨"n", "1", [("evil", "1")]⟩ :=
      ⟨.met ⟨"n", "latest"⟩ ⟨"n", "1", [("evil", "1")]⟩, by decide, rfl, _, rfl, by decide⟩
    rw [(hanswered "n@1" ⟨_, hn⟩).1, not_not]
    exact ⟨.refused ⟨"n", "1"⟩ (.ofFault (.validation "gone")), by simp [tornHistory], by decide,
      rfl, nofun⟩
  · have hexp : Walk.Expanded tornHistory "mid@1" ⟨"mid", "1", [("n", "*")]⟩ :=
      ⟨.kept ⟨"mid", "1"⟩ ⟨"mid", "1", [("n", "*")]⟩, by simp [tornHistory], _, rfl, by decide⟩
    exact (hanswered "mid@1" ⟨_, answered_of_expanded hexp⟩).2.1 _ hexp

/-- Not every dependency declared in an answer is visited, even when the registry answers
each package always alike. -/
theorem spurned_edge_missed : ¬∀ (answer : Package → Except Failure Manifest) (e₀ : Explorer)
    (root : Package) (ls : List Label) (e : Explorer) (t : Tree) (w : Walk),
    Steps step (e₀.begin root) ls e → e.result? e₀.nextWalk = some (.ok t) →
    e.walks[e₀.nextWalk]? = some w →
    (∀ x ∈ (e₀.begin root).history e₀.nextWalk ls, x.Faithful answer) →
    ∀ key m, Answered ((e₀.begin root).history e₀.nextWalk ls) key m →
      ∀ p ∈ Walk.edgePackages m, p.key ∈ w.visits.keys := by
  intro hall
  obtain ⟨e, t, w, hsteps, hresult, hw, hkeys⟩ := tornRun_ends
  have hfaithful : ∀ x ∈ (beforeApp.begin ⟨"app", "1"⟩).history 0 tornRun,
      x.Faithful tornRegistry := by
    rw [tornRun_history]
    intro x hx reply hreply
    simp only [tornHistory, List.mem_cons, List.not_mem_nil, or_false] at hx
    rcases hx with rfl | rfl | rfl | rfl <;> cases hreply <;> decide
  have hn : Answered ((beforeApp.begin ⟨"app", "1"⟩).history 0 tornRun) "n@1"
      ⟨"n", "1", [("evil", "1")]⟩ := by
    rw [tornRun_history]
    exact ⟨.met ⟨"n", "latest"⟩ ⟨"n", "1", [("evil", "1")]⟩, by decide, rfl, _, rfl, by decide⟩
  have hevil : (⟨"evil", "1"⟩ : Package) ∈ Walk.edgePackages ⟨"n", "1", [("evil", "1")]⟩ := by
    decide +kernel
  have hmem := hall tornRegistry beforeApp ⟨"app", "1"⟩ tornRun e t w hsteps hresult hw hfaithful
    "n@1" _ hn _ hevil
  rw [hkeys] at hmem
  exact absurd hmem (by decide)

end Explorer

end PackageGate
