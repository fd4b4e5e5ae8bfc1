import PackageGate.Proofs.Tree.Indexed

/-!
# Settling the stubs of a tree

Giving the stubs of a tree the versions behind their keys changes these versions and nothing else:
every node stays in its place, under its name, with its children in the same order.

- `Tree.Aligned`: two trees have nodes in the same places, and a relation holds between the nodes
  in each place.
- `Tree.Settled`: what becomes of a node; `Tree.aligned_resolveStubs`: so it is in every place.
- `Tree.Final`: no stub gets a version behind which there is another one;
  `Tree.resolveStubs_resolveStubs`: settling the stubs again then changes nothing.
- `Tree.settles_stubs_only`: all of it, and that children stay under the names of their packages.
-/

namespace PackageGate

namespace Tree

variable {t : Tree} {version : String → Option String}

/-! ## Node by node -/

mutual

/-- Two trees have the same shape, with the same names in the same order, and `R` holds between
the nodes in each place. -/
inductive Aligned (R : Package × Bool → Package × Bool → Prop) : Tree → Tree → Prop
  | node {p p' : Package} {s s' : Bool} {cs cs' : Forest} : R (p, s) (p', s') →
    AlignedAll R cs cs' → Aligned R (node p s cs) (node p' s' cs')

/-- Two forests have trees of the same shape under the same names in the same order, and `R` holds
between the nodes in each place. -/
inductive AlignedAll (R : Package × Bool → Package × Bool → Prop) : Forest → Forest → Prop
  | nil : AlignedAll R .nil .nil
  | cons {name : String} {t t' : Tree} {r r' : Forest} : Aligned R t t' → AlignedAll R r r' →
    AlignedAll R (.cons name t r) (.cons name t' r')

end

/-- What becomes of the node `x` when stubs are given the versions that `version` knows for their
keys. -/
structure Settled (version : String → Option String) (x y : Package × Bool) : Prop where
  name_eq : y.1.name = x.1.name
  isStub_eq : y.2 = x.2
  expanded : x.2 = false → y.1 = x.1
  version_eq : x.2 = true → y.1.version = (version x.1.key).getD x.1.version

theorem settled_settleNode (version : String → Option String) (x : Package × Bool) :
    Settled version x (settleNode version x) where
  name_eq := name_settleNode version x
  isStub_eq := by
    obtain ⟨p, s⟩ := x
    cases s <;> rfl
  expanded h := by
    obtain ⟨p, s⟩ := x
    obtain rfl : s = false := h
    rfl
  version_eq h := by
    obtain ⟨p, s⟩ := x
    obtain rfl : s = true := h
    rw [settleNode]
    cases version p.key <;> rfl

mutual

/-- Stubs are settled in their places, and all other nodes stay as they are. -/
theorem aligned_resolveStubs (version : String → Option String) :
    ∀ t : Tree, Aligned (Settled version) t (t.resolveStubs version)
  | node p s cs => by
    rw [resolveStubs_node]
    exact .node (settled_settleNode version (p, s)) (alignedAll_resolveStubs version cs)

theorem alignedAll_resolveStubs (version : String → Option String) :
    ∀ f : Forest, AlignedAll (Settled version) f (resolveStubsAll version f)
  | .nil => by
    rw [resolveStubsAll]
    exact .nil
  | .cons name t r => by
    rw [resolveStubsAll]
    exact .cons (aligned_resolveStubs version t) (alignedAll_resolveStubs version r)

end

/-- Settling leaves the number of nodes as it is. -/
theorem nodeCount_resolveStubs (version : String → Option String) (t : Tree) :
    (t.resolveStubs version).nodeCount = t.nodeCount := by
  rw [nodeCount_eq, nodes_resolveStubs, Multiset.card_map, nodeCount_eq]

/-! ## Settling again -/

/-- No version that a stub of the tree gets leads to another one. -/
def Final (version : String → Option String) (t : Tree) : Prop :=
  ∀ p, (p, true) ∈ t.nodes → ∀ v, version p.key = some v → version (p.withVersion v).key = none

mutual

/-- A tree stays as it is if every node does. -/
theorem resolveStubs_eq_self :
    ∀ {t : Tree}, (∀ x ∈ t.nodes, settleNode version x = x) → t.resolveStubs version = t
  | node p s cs, h => by
    have hnode := h (p, s) (Multiset.mem_cons_self _ _)
    have hchildren : resolveStubsAll version cs = cs :=
      resolveStubsAll_eq_self fun x hx => h x (Multiset.mem_cons_of_mem hx)
    rw [resolveStubs_node, hnode, hchildren]

/-- A forest of settled nodes stays as it is. -/
theorem resolveStubsAll_eq_self :
    ∀ {f : Forest}, (∀ x ∈ nodesAll f, settleNode version x = x) → resolveStubsAll version f = f
  | .nil, _ => by
    rw [resolveStubsAll]
  | .cons name t r, h => by
    have htree : t.resolveStubs version = t :=
      resolveStubs_eq_self fun x hx => h x (Multiset.mem_add.mpr (.inl hx))
    have hrest : resolveStubsAll version r = r :=
      resolveStubsAll_eq_self fun x hx => h x (Multiset.mem_add.mpr (.inr hx))
    rw [resolveStubsAll, htree, hrest]

end

/-- A stub that was settled stays as it is, unless its new key has a version as well. -/
theorem settleNode_settleNode {p : Package}
    (h : ∀ v, version p.key = some v → version (p.withVersion v).key = none) :
    settleNode version (settleNode version (p, true)) = settleNode version (p, true) := by
  cases hv : version p.key with
  | none =>
    have hsettled : settleNode version (p, true) = (p, true) := by
      rw [settleNode, hv]
      rfl
    rw [hsettled, hsettled]
  | some v =>
    have hsettled : settleNode version (p, true) = (p.withVersion v, true) := by
      rw [settleNode, hv]
      rfl
    rw [hsettled, settleNode, h v hv]
    rfl

/-- Stubs whose versions are final are settled once and for all. -/
theorem resolveStubs_resolveStubs (h : t.Final version) :
    (t.resolveStubs version).resolveStubs version = t.resolveStubs version := by
  refine resolveStubs_eq_self fun x hx => ?_
  rw [nodes_resolveStubs] at hx
  obtain ⟨⟨p, s⟩, hy, rfl⟩ := Multiset.mem_map.mp hx
  cases s with
  | false => rfl
  | true => exact settleNode_settleNode (h p hy)

/-! ## Settled trees -/

/-- What settling the stubs of `t` makes of the tree. -/
structure Settles (version : String → Option String) (t t' : Tree) : Prop where
  aligned : Aligned (Settled version) t t'
  nodeCount_eq : t'.nodeCount = t.nodeCount
  again : t.Final version → t'.resolveStubs version = t'

/-- **Only stubs are settled, and only in their versions.** However a tree was built, settling its
stubs leaves all nodes in their places, with their names, and changes no more than the versions of
stubs. In the tree and afterwards every child stands under the name of its package, whatever is
attached or settled then, and what is attached takes the place of the child of that name. -/
theorem settles_stubs_only (version : String → Option String) {t : Tree} (h : t.Built) :
    Settles version t (t.resolveStubs version) ∧ t.Indexed ∧
    ∀ u : Tree, u.Indexed → (u.resolveStubs version).Indexed ∧
      ∀ child : Tree, child.Indexed → (u.attach child).Indexed ∧
        ∀ d, d ∈ (u.attach child).children.trees ↔
          d = child ∨ (d ∈ u.children.trees ∧ d.package.name ≠ child.package.name) := by
  refine ⟨?_, h.indexed, fun u hu => ⟨indexed_resolveStubs version hu, fun child hchild => ?_⟩⟩
  · exact ⟨aligned_resolveStubs version t, nodeCount_resolveStubs version t,
      resolveStubs_resolveStubs⟩
  · exact ⟨indexed_attach hu hchild, fun _ => mem_trees_attach hu hchild⟩

/-- A stub for the latest release of a package that is expanded elsewhere. -/
def tagged : Tree :=
  ((leaf ⟨"app", "1"⟩).attach ((leaf ⟨"mid", "1"⟩).attach (stub ⟨"dep", "latest"⟩))).attach
    (leaf ⟨"dep", "2.3.4"⟩)

/-- The latest release of that package. -/
def release (key : String) : Option String := if key = "dep@latest" then some "2.3.4" else none

theorem final_tagged : tagged.Final release := by
  have hnodes : tagged.nodes = {(⟨"app", "1"⟩, false), (⟨"dep", "2.3.4"⟩, false),
      (⟨"mid", "1"⟩, false), (⟨"dep", "latest"⟩, true)} := by decide +kernel
  intro p hp v hv
  obtain rfl : p = ⟨"dep", "latest"⟩ := by simpa [hnodes] using hp
  obtain rfl : "2.3.4" = v := Option.some.inj hv
  decide +kernel

/-- The stub gets its version and keeps it, and a child that is attached afterwards still takes the
place of the one with its name. -/
theorem settles_stubs_only_tagged : tagged.Built ∧ tagged.Final release ∧
    Settles release tagged (tagged.resolveStubs release) ∧
    (tagged.resolveStubs release).preorder = ["app@1", "dep@2.3.4", "mid@1", "dep@2.3.4"] ∧
    (tagged.resolveStubs release).resolveStubs release = tagged.resolveStubs release ∧
    ∀ d, d ∈ ((tagged.resolveStubs release).attach (leaf ⟨"mid", "2"⟩)).children.trees ↔
      d = leaf ⟨"mid", "2"⟩ ∨
        (d ∈ (tagged.resolveStubs release).children.trees ∧ d.package.name ≠ "mid") := by
  have hbuilt : tagged.Built :=
    .attach (.attach (.leaf _) (.attach (.leaf _) (.stub _))) (.leaf _)
  obtain ⟨hsettles, hindexed, hkept⟩ := settles_stubs_only release hbuilt
  obtain ⟨hsettled, -⟩ := hkept tagged hindexed
  obtain ⟨-, hattach⟩ := hkept (tagged.resolveStubs release) hsettled
  exact ⟨hbuilt, final_tagged, hsettles, by decide +kernel, hsettles.again final_tagged,
    (hattach (leaf ⟨"mid", "2"⟩) (indexed_leaf _)).2⟩

end Tree

end PackageGate
