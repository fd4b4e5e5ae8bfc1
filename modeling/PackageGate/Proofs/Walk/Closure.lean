import PackageGate.Proofs.Walk.Owners
import PackageGate.Proofs.Walk.Told

/-!
# What a walk finds

A walk that is through has asked for everything that can be asked for from its root, and
has expanded every package that some request was answered with. This settles the keys that
its tree lists and the number of its nodes, in whatever order its tasks took their steps.

- `Walk.Walked`: a walk of a catalog that is through.
- `Walk.Walked.mem_expands`, `Walk.Walked.mem_failures`: what was expanded and what failed.
- `Walk.Walked.mem_flatten`: the keys that are listed.
- `Walk.Walked.nodeCount_add`: the number of nodes.
-/

namespace PackageGate

namespace Walk

/-- A walk of a catalog that is through. -/
structure Walked (c : Catalog) (root : Package) (log : Multiset Entry) (w : Walk) : Prop
    extends Told c root log w where
  settled : Settled root log w.visits
  regular : c.Regular root

variable {c : Catalog} {root p q r : Package} {m : Manifest} {log : Multiset Entry} {w : Walk}
  {x y : Entry}

/-! ## Owners in a catalog -/

/-- The owner of a key was asked for its package and told the answer of the catalog, or
expanded the package. -/
theorem Walked.owner (h : Walked c root log w) (hp : Package.Plain p.name)
    (hkey : p.key ∈ w.visits.keys) : ∃ y ∈ log,
      (y.asked = p ∧ y.answer? = some (c.answer p)) ∨ ∃ m, y.expanded? = some (p, m) := by
  obtain ⟨y, hy, hclaims⟩ := h.settled.mem_keys_iff.mp hkey
  refine ⟨y, hy, ?_⟩
  rcases Entry.mem_claims hclaims with ⟨hans, hasked⟩ | ⟨r, m, hexp, hr⟩
  · left
    have heq : y.asked = p := Package.key_inj (h.regular.plain _ (h.asked y hy)) hp hasked
    obtain ⟨reply, hreply⟩ := Option.isSome_iff_exists.mp hans
    refine ⟨heq, ?_⟩
    rw [hreply, h.faithful y hy reply hreply, heq]
  · right
    obtain ⟨-, hres⟩ := (h.faithful y hy).expanded hexp
    have hplain : Package.Plain r.name := by
      rw [hres]
      exact h.regular.plain_resolved (h.asked y hy) m
    exact ⟨m, by rw [hexp, Package.key_inj hplain hp hr]⟩

/-- An expanded package is answered for itself. -/
theorem Walked.again (h : Walked c root log w) (hy : y ∈ log) (hexp : y.expanded? = some (p, m)) :
    ∃ m', c.answer p = .ok m' ∧ resolvedPackage p m' = p := by
  obtain ⟨hanswer, hp⟩ := (h.faithful y hy).expanded hexp
  obtain ⟨m', hagain, -, hsame⟩ := h.regular.stable.again hanswer
  rw [hp]
  exact ⟨m', hagain, hsame⟩

theorem mem_bind_expands (hy : y ∈ log) (hexp : y.expanded? = some (p, m)) :
    p ∈ log.bind Entry.expands :=
  Multiset.mem_bind.mpr ⟨y, hy, Entry.mem_expands.mpr ⟨m, hexp⟩⟩

/-- A package that is visited and answered for itself is expanded. -/
theorem Walked.expands_of_visited (h : Walked c root log w) (hp : Package.Plain p.name)
    (hkey : p.key ∈ w.visits.keys) (hanswer : c.answer p = .ok m)
    (hsame : resolvedPackage p m = p) : p ∈ log.bind Entry.expands := by
  obtain ⟨y, hy, ⟨hasked, hans⟩ | ⟨m', hexp⟩⟩ := h.owner hp hkey
  · rw [hanswer] at hans
    have hrightly := h.settled.rightly y hy
    cases y with
    | found | refused => cases hans
    | kept p' m' =>
      cases hans
      obtain rfl : p' = p := hasked
      exact mem_bind_expands hy (congrArg some (Prod.ext hsame rfl))
    | landed p' m' | met p' m' =>
      -- These entries tell of another version than was asked for.
      cases hans
      obtain rfl : p' = p := hasked
      exact absurd (congrArg Package.key hsame) hrightly
  · exact mem_bind_expands hy hexp

/-- **Nothing is left out**: what a visited request is answered with is expanded, by whichever
task has come first. -/
theorem Walked.expands_resolved (h : Walked c root log w) (hx : x ∈ log)
    (hanswer : c.answer x.asked = .ok m) :
    resolvedPackage x.asked m ∈ log.bind Entry.expands := by
  have hasked := h.asked x hx
  obtain ⟨y, hy, ⟨hp, hans⟩ | ⟨m', hexp⟩⟩ :=
    h.owner (h.regular.plain _ hasked) (h.settled.asked_mem hx)
  · -- The owner was asked for this very package: its answer resolves to the same one.
    have hres : y.resolved? = some (resolvedPackage x.asked m) := by
      rw [hanswer] at hans
      cases y with
      | found | refused => cases hans
      | kept p' m' | landed p' m' | met p' m' =>
        cases hans
        obtain rfl : p' = x.asked := hp
        rfl
    obtain ⟨m'', hagain, -, hsame⟩ := h.regular.stable.again hanswer
    exact h.expands_of_visited (h.regular.plain_resolved hasked m)
      (h.settled.resolved_mem hy hres) hagain hsame
  · -- The owner landed on the package, which is then its own resolution.
    obtain ⟨m'', hagain, hsame⟩ := h.again hy hexp
    obtain rfl : m = m'' := Except.ok.inj (hanswer.symm.trans hagain)
    rw [hsame]
    exact mem_bind_expands hy hexp

/-! ## Everything is asked for -/

/-- The packages asked for are the root and the dependencies of the expanded packages, each
as often as it is declared. -/
theorem Walked.map_asked (h : Walked c root log w) : log.map Entry.asked =
    root ::ₘ (log.bind Entry.expands).bind fun r => (c.edgesOf r : Multiset Package) := by
  rw [← h.settled.visitors, h.edges_eq h.regular.stable]

/-- Everything that is asked for has an entry. -/
theorem Walked.asked_complete (h : Walked c root log w) (hp : c.Asked root p) :
    ∃ x ∈ log, x.asked = p := by
  induction hp with
  | root =>
    have hmem : root ∈ log.map Entry.asked := by
      rw [h.map_asked]
      exact Multiset.mem_cons_self _ _
    exact Multiset.mem_map.mp hmem
  | @edge p q m _ hanswer hq ih =>
    -- What `p` resolves to is expanded by some task, with the same dependencies.
    obtain ⟨x, hx, rfl⟩ := ih
    have hmem : q ∈ log.map Entry.asked := by
      rw [h.map_asked]
      refine Multiset.mem_cons_of_mem (Multiset.mem_bind.mpr ⟨_, h.expands_resolved hx hanswer, ?_⟩)
      rw [h.regular.stable.edgesOf_resolved hanswer]
      exact Multiset.mem_coe.mpr hq
    exact Multiset.mem_map.mp hmem

/-- The expanded packages are those that can be found. -/
theorem Walked.mem_expands (h : Walked c root log w) : r ∈ log.bind Entry.expands ↔
    ∃ p m, c.Asked root p ∧ c.answer p = .ok m ∧ r = resolvedPackage p m := by
  constructor
  · intro hr
    obtain ⟨x, hx, hr⟩ := Multiset.mem_bind.mp hr
    obtain ⟨m, hexp⟩ := Entry.mem_expands.mp hr
    obtain ⟨hanswer, hr⟩ := (h.faithful x hx).expanded hexp
    exact ⟨x.asked, m, h.asked x hx, hanswer, hr⟩
  · rintro ⟨p, m, hp, hanswer, rfl⟩
    obtain ⟨x, hx, rfl⟩ := h.asked_complete hp
    exact h.expands_resolved hx hanswer

/-- A failing request is told of once. -/
theorem Walked.refused_mem (h : Walked c root log w) {e : Failure} (hp : c.Asked root p)
    (hanswer : c.answer p = .error e) : .refused p e ∈ log := by
  obtain ⟨x, hx, rfl⟩ := h.asked_complete hp
  obtain ⟨y, hy, ⟨hasked, hans⟩ | ⟨m, hexp⟩⟩ :=
    h.owner (h.regular.plain _ hp) (h.settled.asked_mem hx)
  · rw [hanswer] at hans
    cases y with
    | found | kept | landed | met => cases hans
    | refused p' e' =>
      cases hans
      obtain rfl : p' = x.asked := hasked
      exact hy
  · obtain ⟨m', hagain, -⟩ := h.again hy hexp
    rw [hanswer] at hagain
    cases hagain

/-- The failures are the requests that the catalog refuses. -/
theorem Walked.mem_failures (h : Walked c root log w) : p ∈ log.bind Entry.failures ↔
    c.Asked root p ∧ ∃ e, c.answer p = .error e := by
  constructor
  · intro hp
    obtain ⟨x, hx, hp⟩ := Multiset.mem_bind.mp hp
    cases x with
    | found | kept | landed | met => exact absurd hp (Multiset.notMem_zero p)
    | refused p' e =>
      obtain rfl : p = p' := Multiset.mem_singleton.mp hp
      exact ⟨h.asked _ hx, e, (h.faithful _ hx _ rfl).symm⟩
  · rintro ⟨hp, e, hanswer⟩
    exact Multiset.mem_bind.mpr ⟨_, h.refused_mem hp hanswer, Multiset.mem_singleton_self p⟩

/-! ## The number of nodes -/

/-- What is expanded does not depend on the walk. -/
theorem Walked.expands_eq (h : Walked c root log w) (hfinite : {p | c.Asked root p}.Finite) :
    log.bind Entry.expands = Catalog.expansions hfinite := by
  have hnodup := nodup_expands h.settled.nodup_claims h.settled.rightly
  refine (Multiset.Nodup.ext hnodup Catalog.nodup_expansions).mpr fun r => ?_
  rw [h.mem_expands, Catalog.mem_expansions]

theorem Walked.failures_eq (h : Walked c root log w) (hfinite : {p | c.Asked root p}.Finite) :
    log.bind Entry.failures = Catalog.failures hfinite := by
  have hnodup := nodup_failures h.settled.nodup_claims
  refine (Multiset.Nodup.ext hnodup Catalog.nodup_failures).mpr fun p => ?_
  rw [h.mem_failures, Catalog.mem_failures]

/-- Every entry puts one node into the tree, unless it tells of a failure. -/
theorem card_nodes_add (log : Multiset Entry) :
    (log.bind Entry.nodes).card + (log.bind Entry.failures).card = log.card := by
  induction log using Multiset.induction with
  | empty => rfl
  | cons x log ih =>
    have hx : x.nodes.card + x.failures.card = 1 := by
      cases x <;> rfl
    rw [Multiset.cons_bind, Multiset.cons_bind, Multiset.card_add, Multiset.card_add,
      Multiset.card_cons]
    omega

/-- **The number of nodes** is fixed by the catalog: a node for the root and for every declared
dependency, but none for a request that fails. -/
theorem Walked.nodeCount_add (h : Walked c root log w) {t : Tree}
    (ht : t.nodes = log.bind Entry.nodes) (hfinite : {p | c.Asked root p}.Finite) :
    (w.settle t).nodeCount + (Catalog.failures hfinite).card = 1 + Catalog.breadth hfinite := by
  have hcount : (w.settle t).nodeCount = (log.bind Entry.nodes).card := by
    rw [settle, Tree.nodeCount_eq, Tree.nodes_resolveStubs, Multiset.card_map, ht]
  have hcard : log.card = 1 + Catalog.breadth hfinite := by
    have hasked := congrArg Multiset.card h.map_asked
    rw [Multiset.card_map, Multiset.card_cons, h.expands_eq hfinite] at hasked
    rw [hasked, Catalog.breadth, Nat.add_comm]
  rw [hcount, ← h.failures_eq hfinite, card_nodes_add, hcard]

/-! ## The keys of the stubs -/

/-- The version that is remembered for a key is the one that its request was answered with,
which was another than the one asked for. -/
theorem Walked.resolution_eq (h : Walked c root log w) (hp : Package.Plain p.name)
    {version : String} (hv : w.visits.resolution? p.key = some version) :
    ∃ m, c.answer p = .ok m ∧ (resolvedPackage p m).key ≠ p.key ∧
      version = (resolvedPackage p m).version := by
  obtain ⟨q, m, hother, hkey, hversion⟩ := h.settled.resolution_told hv
  rcases hother with hx | hx
  all_goals
    obtain rfl : q = p := Package.key_inj (h.regular.plain _ (h.asked _ hx)) hp hkey
    exact ⟨m, (h.faithful _ hx _ rfl).symm, h.settled.rightly _ hx, hversion⟩

/-- A package that is answered for itself, or not at all, keeps its key. -/
theorem Walked.settleNode_same (h : Walked c root log w) (hp : Package.Plain p.name)
    (hsame : ∀ m, c.answer p = .ok m → (resolvedPackage p m).key = p.key) :
    Tree.settleNode w.visits.resolution? (p, true) = (p, true) := by
  cases hv : w.visits.resolution? p.key with
  | none =>
    rw [Tree.settleNode, hv]
    rfl
  | some version =>
    obtain ⟨m, hanswer, hother, -⟩ := h.resolution_eq hp hv
    exact absurd (hsame m hanswer) hother

/-- A stub for the version that a request was answered with keeps this version. -/
theorem Walked.settleNode_resolved (h : Walked c root log w) (hp : c.Asked root p)
    (hanswer : c.answer p = .ok m) :
    Tree.settleNode w.visits.resolution? (resolvedPackage p m, true) =
      (resolvedPackage p m, true) := by
  obtain ⟨m', hagain, -, hsame⟩ := h.regular.stable.again hanswer
  refine h.settleNode_same (h.regular.plain_resolved hp m) fun m'' hm'' => ?_
  obtain rfl : m' = m'' := Except.ok.inj (hagain.symm.trans hm'')
  rw [hsame]

/-- The owner of the key of a tag or a range has recorded the version behind it. -/
theorem Walked.resolution_isSome (h : Walked c root log w) (hp : c.Asked root p)
    (hanswer : c.answer p = .ok m) (hkey : (resolvedPackage p m).key ≠ p.key) :
    (w.visits.resolution? p.key).isSome := by
  obtain ⟨x, hx, rfl⟩ := h.asked_complete hp
  obtain ⟨y, hy, ⟨hasked, hans⟩ | ⟨m', hexp⟩⟩ :=
    h.owner (h.regular.plain _ hp) (h.settled.asked_mem hx)
  · rw [hanswer] at hans
    have hrightly := h.settled.rightly y hy
    have hmem : (x.asked.key, (resolvedPackage x.asked m).version) ∈
        log.bind Entry.resolutions := by
      refine Multiset.mem_bind.mpr ⟨y, hy, ?_⟩
      cases y with
      | found | refused => cases hans
      | kept p' m' =>
        cases hans
        obtain rfl : p' = x.asked := hasked
        exact absurd hrightly hkey
      | landed p' m' | met p' m' =>
        cases hans
        obtain rfl : p' = x.asked := hasked
        exact Multiset.mem_singleton_self _
    rw [← h.settled.resolutions] at hmem
    exact List.lookup_isSome_iff.mpr ⟨_, Multiset.mem_coe.mp hmem, beq_self_eq_true _⟩
  · -- An expanded package would be answered for itself.
    obtain ⟨m'', hagain, hsame⟩ := h.again hy hexp
    obtain rfl : m = m'' := Except.ok.inj (hanswer.symm.trans hagain)
    exact absurd (congrArg Package.key hsame) hkey

/-- A stub for a package that is asked for gets the version that its request is answered
with. -/
theorem Walked.settleNode_asked (h : Walked c root log w) (hp : c.Asked root p)
    (hanswer : c.answer p = .ok m) :
    Tree.settleNode w.visits.resolution? (p, true) = (resolvedPackage p m, true) := by
  have hplain := h.regular.plain p hp
  by_cases hkey : (resolvedPackage p m).key = p.key
  · have hsame : resolvedPackage p m = p :=
      Package.key_inj (h.regular.plain_resolved hp m) hplain hkey
    rw [hsame]
    refine h.settleNode_same hplain fun m' hm' => ?_
    rw [hanswer] at hm'
    cases hm'
    exact hkey
  · have hsome := h.resolution_isSome hp hanswer hkey
    obtain ⟨version, hv⟩ := Option.isSome_iff_exists.mp hsome
    obtain ⟨m', hm', -, hversion⟩ := h.resolution_eq hplain hv
    obtain rfl : m = m' := Except.ok.inj (hanswer.symm.trans hm')
    rw [Tree.settleNode, hv, hversion]
    show (p.withVersion (resolvedPackage p m).version, true) = _
    rw [Catalog.withVersion_resolved]

/-! ## Stubs of failing requests -/

/-- Over different packages, each of which has `p` once at most, `p` stands twice when two of
them have it. -/
theorem two_le_count_bind {found : Multiset Package} {f : Package → Multiset Package}
    (hfound : found.Nodup) (hf : ∀ r, (f r).Nodup) : 2 ≤ (found.bind f).count p ↔
      ∃ r₁ r₂, r₁ ≠ r₂ ∧ (r₁ ∈ found ∧ p ∈ f r₁) ∧ r₂ ∈ found ∧ p ∈ f r₂ := by
  constructor
  · intro h
    have hmem : p ∈ found.bind f := Multiset.count_pos.mp (by omega)
    obtain ⟨r₁, hr₁, hp₁⟩ := Multiset.mem_bind.mp hmem
    obtain ⟨rest, rfl⟩ := Multiset.exists_cons_of_mem hr₁
    have hone : (f r₁).count p ≤ 1 := Multiset.nodup_iff_count_le_one.mp (hf r₁) p
    rw [Multiset.cons_bind, Multiset.count_add] at h
    have hrest : p ∈ rest.bind f := Multiset.count_pos.mp (by omega)
    obtain ⟨r₂, hr₂, hp₂⟩ := Multiset.mem_bind.mp hrest
    have hne : r₁ ≠ r₂ := by
      rintro rfl
      exact (Multiset.nodup_cons.mp hfound).1 hr₂
    exact ⟨r₁, r₂, hne, ⟨hr₁, hp₁⟩, Multiset.mem_cons_of_mem hr₂, hp₂⟩
  · rintro ⟨r₁, r₂, hne, ⟨hr₁, hp₁⟩, hr₂, hp₂⟩
    obtain ⟨rest, rfl⟩ := Multiset.exists_cons_of_mem hr₁
    have hrest : r₂ ∈ rest := (Multiset.mem_cons.mp hr₂).resolve_left fun heq => hne heq.symm
    have hone : 1 ≤ (f r₁).count p := Multiset.count_pos.mpr hp₁
    have htwo : 1 ≤ (rest.bind f).count p :=
      Multiset.count_pos.mpr (Multiset.mem_bind.mpr ⟨r₂, hrest, hp₂⟩)
    rw [Multiset.cons_bind, Multiset.count_add]
    omega

theorem Walked.declares_iff (h : Walked c root log w) :
    c.Declares root r p ↔ r ∈ log.bind Entry.expands ∧ p ∈ (c.edgesOf r : Multiset Package) := by
  constructor
  · rintro ⟨q, m, hq, hanswer, hr, hp⟩
    refine ⟨h.mem_expands.mpr ⟨q, m, hq, hanswer, hr⟩, ?_⟩
    rw [hr, h.regular.stable.edgesOf_resolved hanswer]
    exact Multiset.mem_coe.mpr hp
  · rintro ⟨hr, hp⟩
    obtain ⟨q, m, hq, hanswer, rfl⟩ := h.mem_expands.mp hr
    rw [h.regular.stable.edgesOf_resolved hanswer] at hp
    exact ⟨q, m, hq, hanswer, rfl, Multiset.mem_coe.mp hp⟩

/-- One task tells of the failure of a request; every other one finds its key claimed. -/
theorem Walked.two_le_count_asked (h : Walked c root log w) {e : Failure} (hp : c.Asked root p)
    (hanswer : c.answer p = .error e) :
    2 ≤ (log.map Entry.asked).count p ↔ .found p ∈ log := by
  have hrefused := h.refused_mem hp hanswer
  obtain ⟨rest, hlog⟩ := Multiset.exists_cons_of_mem hrefused
  have hcount : (log.map Entry.asked).count p = 1 + (rest.map Entry.asked).count p := by
    rw [hlog, Multiset.map_cons, Nat.add_comm]
    exact Multiset.count_cons_self p _
  rw [hcount]
  constructor
  · -- Beside the failure a second entry is about `p`, and it can only have found the key.
    intro htwo
    have hmem : p ∈ rest.map Entry.asked := Multiset.count_pos.mp (by omega)
    obtain ⟨y, hy, hasked⟩ := Multiset.mem_map.mp hmem
    have hylog : y ∈ log := by
      rw [hlog]
      exact Multiset.mem_cons_of_mem hy
    cases hans : y.answer? with
    | none =>
      cases y with
      | found p' =>
        obtain rfl : p' = p := hasked
        exact hylog
      | _ => cases hans
    | some reply =>
      -- A second answered entry would claim the key a second time.
      have hclaims : p.key ∈ y.claims := by
        rw [← hasked]
        exact Entry.asked_mem_claims (by rw [hans]; rfl)
      have hnodup := h.settled.nodup_claims
      rw [hlog, Multiset.cons_bind] at hnodup
      exact absurd (Multiset.mem_bind.mpr ⟨y, hy, hclaims⟩) (Multiset.disjoint_left.mp
        (Multiset.nodup_add.mp hnodup).2.2 (Multiset.mem_singleton_self p.key))
  · intro hfound
    rw [hlog] at hfound
    have hrest : Entry.found p ∈ rest := (Multiset.mem_cons.mp hfound).resolve_left nofun
    have hone : 1 ≤ (rest.map Entry.asked).count p :=
      Multiset.count_pos.mpr (Multiset.mem_map.mpr ⟨_, hrest, rfl⟩)
    omega

/-- A failing request leaves a stub exactly when two expanded packages declare it. -/
theorem Walked.found_mem_iff (h : Walked c root log w) {e : Failure} (hne : p ≠ root)
    (hp : c.Asked root p) (hanswer : c.answer p = .error e) : .found p ∈ log ↔
      ∃ r₁ r₂, r₁ ≠ r₂ ∧ c.Declares root r₁ p ∧ c.Declares root r₂ p := by
  rw [← h.two_le_count_asked hp hanswer, h.map_asked, Multiset.count_cons_of_ne hne]
  rw [two_le_count_bind (nodup_expands h.settled.nodup_claims h.settled.rightly)
    (fun r => Multiset.coe_nodup.mpr (c.nodup_edgesOf r))]
  simp only [h.declares_iff]

/-! ## The keys that are listed -/

theorem Entry.mem_nodes_of_expanded (h : x.expanded? = some (r, m)) : (r, false) ∈ x.nodes := by
  cases x with
  | found | refused | met => cases h
  | kept p m' | landed p m' =>
    obtain ⟨hr, -⟩ := Prod.mk.inj (Option.some.inj h)
    rw [← hr]
    exact Multiset.mem_singleton_self _

/-- The keys that the tree lists are those of the settled nodes that the history tells of. -/
theorem mem_flatten_iff {t : Tree} (ht : t.nodes = log.bind Entry.nodes) {key : String} :
    key ∈ (w.settle t).flatten ↔ ∃ x ∈ log, ∃ n ∈ x.nodes,
      (Tree.settleNode w.visits.resolution? n).1.key = key := by
  rw [settle, Tree.mem_flatten, Tree.nodes_resolveStubs, ht]
  constructor
  · rintro ⟨n', hn', hkey⟩
    obtain ⟨n, hn, rfl⟩ := Multiset.mem_map.mp hn'
    obtain ⟨x, hx, hn⟩ := Multiset.mem_bind.mp hn
    exact ⟨x, hx, n, hn, hkey⟩
  · rintro ⟨x, hx, n, hn, hkey⟩
    exact ⟨_, Multiset.mem_map.mpr ⟨n, Multiset.mem_bind.mpr ⟨x, hx, hn⟩, rfl⟩, hkey⟩

/-- The key of every settled node is listed. -/
theorem Walked.listed_of_node (h : Walked c root log w) {m₀ : Manifest}
    (hroot : c.answer root = .ok m₀) (hx : x ∈ log) {n : Package × Bool} (hn : n ∈ x.nodes) :
    c.Listed root (Tree.settleNode w.visits.resolution? n).1.key := by
  cases x with
  | found p =>
    have hasked : c.Asked root p := h.asked _ hx
    obtain rfl := Multiset.mem_singleton.mp hn
    cases hanswer : c.answer p with
    | ok m =>
      rw [h.settleNode_asked hasked hanswer]
      exact .resolved hasked hanswer
    | error e =>
      have hsame := h.settleNode_same (h.regular.plain p hasked) fun m hm => by
        rw [hanswer] at hm
        cases hm
      have hne : p ≠ root := by
        rintro rfl
        rw [hroot] at hanswer
        cases hanswer
      obtain ⟨r₁, r₂, hr, h₁, h₂⟩ := (h.found_mem_iff hne hasked hanswer).mp hx
      rw [hsame]
      exact .failed hasked hanswer hr h₁ h₂
  | refused p e => exact absurd hn (Multiset.notMem_zero n)
  | kept p m | landed p m =>
    have hasked : c.Asked root p := h.asked _ hx
    have hanswer : c.answer p = .ok m := (h.faithful _ hx _ rfl).symm
    obtain rfl := Multiset.mem_singleton.mp hn
    show c.Listed root (resolvedPackage p m).key
    exact .resolved hasked hanswer
  | met p m =>
    have hasked : c.Asked root p := h.asked _ hx
    have hanswer : c.answer p = .ok m := (h.faithful _ hx _ rfl).symm
    obtain rfl := Multiset.mem_singleton.mp hn
    rw [h.settleNode_resolved hasked hanswer]
    exact .resolved hasked hanswer

/-- Every key that is listed has a node. -/
theorem Walked.node_of_listed (h : Walked c root log w) {m₀ : Manifest}
    (hroot : c.answer root = .ok m₀) {key : String} (hkey : c.Listed root key) :
    ∃ x ∈ log, ∃ n ∈ x.nodes, (Tree.settleNode w.visits.resolution? n).1.key = key := by
  cases hkey with
  | resolved hasked hanswer =>
    have hr := h.mem_expands.mpr ⟨_, _, hasked, hanswer, rfl⟩
    obtain ⟨x, hx, hr⟩ := Multiset.mem_bind.mp hr
    obtain ⟨m', hexp⟩ := Entry.mem_expands.mp hr
    exact ⟨x, hx, _, Entry.mem_nodes_of_expanded hexp, rfl⟩
  | @failed p r₁ r₂ e hasked hanswer hr h₁ h₂ =>
    have hne : p ≠ root := by
      rintro rfl
      rw [hroot] at hanswer
      cases hanswer
    have hfound := (h.found_mem_iff hne hasked hanswer).mpr ⟨r₁, r₂, hr, h₁, h₂⟩
    refine ⟨_, hfound, (p, true), Multiset.mem_singleton_self _, ?_⟩
    rw [h.settleNode_same (h.regular.plain p hasked) fun m hm => by
      rw [hanswer] at hm
      cases hm]

/-- **The keys that are listed** are fixed by the catalog. -/
theorem Walked.mem_flatten (h : Walked c root log w) {m₀ : Manifest}
    (hroot : c.answer root = .ok m₀) {t : Tree} (ht : t.nodes = log.bind Entry.nodes)
    {key : String} : key ∈ (w.settle t).flatten ↔ c.Listed root key := by
  rw [mem_flatten_iff ht]
  constructor
  · rintro ⟨x, hx, n, hn, rfl⟩
    exact h.listed_of_node hroot hx hn
  · intro hkey
    exact h.node_of_listed hroot hkey

end Walk

end PackageGate
