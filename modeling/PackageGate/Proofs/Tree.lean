import Mathlib.Data.Multiset.Bind
import Mathlib.Tactic.Abel
import PackageGate.DependencyTree

/-!
# The nodes of a tree

What a tree is read for (the number of its nodes, their keys, the resolution of its
stubs) depends on the bag of its nodes only: their packages, each with whether it stands
there as a stub.

- `Tree.nodes`: the bag.
- `Tree.nodes_attach`: a child under a new name adds its nodes.
- `Tree.expanded`: the packages of the nodes that are no stubs.
- `Tree.nodes_resolveStubs`, `Tree.nodeCount_eq`, `Tree.mem_flatten`: what is read off.
- `Tree.flattenFrom_eq`, `Tree.flatten_eq`: the flattened keys are those that a walk through the
  tree meets, without repetitions; `Tree.head?_flatten` and `Tree.nodup_flatten` follow.
- `Tree.Bare`: no stub has children.
-/

namespace PackageGate

namespace Tree

mutual

/-- The packages of all nodes, each with whether it is a stub. -/
def nodes : Tree → Multiset (Package × Bool)
  | node p s cs => (p, s) ::ₘ nodesAll cs

/-- The packages of all nodes of a forest. -/
def nodesAll : Forest → Multiset (Package × Bool)
  | .nil => 0
  | .cons _ t r => nodes t + nodesAll r

end

end Tree

namespace Forest

/-- The names of the children. -/
def names (f : Forest) : List String := f.toList.map Prod.fst

theorem names_cons (name : String) (t : Tree) (r : Forest) :
    names (cons name t r) = name :: r.names := rfl

/-- A child under a new name is added, and no other is lost. -/
theorem nodes_insert {name : String} (t : Tree) :
    ∀ {f : Forest}, name ∉ f.names →
      Tree.nodesAll (f.insert name t) = t.nodes + Tree.nodesAll f
  | nil, _ => by
    simp only [insert, Tree.nodesAll]
  | cons other old rest, h => by
    rw [names_cons] at h
    have hne : name ≠ other := fun heq => h (heq ▸ List.mem_cons_self)
    have hrest : name ∉ rest.names := fun hmem => h (List.mem_cons_of_mem _ hmem)
    rw [insert]
    split
    · rw [Tree.nodesAll]
    · rw [Tree.nodesAll, Tree.nodesAll, nodes_insert t hrest]
      abel

/-- A child that is inserted adds no node but its own, whatever it replaces. -/
theorem nodes_insert_le (name : String) (t : Tree) :
    ∀ f : Forest, Tree.nodesAll (f.insert name t) ≤ t.nodes + Tree.nodesAll f
  | nil => by
    simp only [insert, Tree.nodesAll, le_refl]
  | cons other old rest => by
    rw [insert]
    split
    · rw [Tree.nodesAll]
    · split
      · rw [Tree.nodesAll, Tree.nodesAll]
        exact add_le_add_right (Multiset.le_add_left _ _) _
      · rw [Tree.nodesAll, Tree.nodesAll, add_left_comm]
        exact add_le_add_right (nodes_insert_le name t rest) _

/-- A new name is added to the names. -/
theorem names_insert {name : String} (t : Tree) :
    ∀ {f : Forest}, name ∉ f.names → (f.insert name t).names.Perm (name :: f.names)
  | nil, _ => .refl _
  | cons other old rest, h => by
    rw [names_cons] at h
    have hne : name ≠ other := fun heq => h (heq ▸ List.mem_cons_self)
    have hrest : name ∉ rest.names := fun hmem => h (List.mem_cons_of_mem _ hmem)
    rw [insert]
    split
    · exact .refl _
    · rw [names_cons, names_cons]
      exact ((names_insert t hrest).cons other).trans (.swap _ _ _)

end Forest

namespace Tree

theorem nodes_leaf (p : Package) : (leaf p).nodes = {(p, false)} := by
  rw [leaf, nodes, nodesAll]
  rfl

theorem nodes_stub (p : Package) : (stub p).nodes = {(p, true)} := by
  rw [stub, nodes, nodesAll]
  rfl

theorem package_attach (t child : Tree) : (t.attach child).package = t.package := by
  cases t
  rfl

/-- Attaching a child under a new name adds its nodes. -/
theorem nodes_attach {t child : Tree} (h : child.package.name ∉ t.children.names) :
    (t.attach child).nodes = t.nodes + child.nodes := by
  cases t with
  | node p s cs =>
    have h : child.package.name ∉ cs.names := h
    rw [attach, nodes, nodes, Forest.nodes_insert child h, Multiset.cons_add,
      add_comm child.nodes]

/-- Attaching a child adds no node but its own. -/
theorem nodes_attach_le (t child : Tree) : (t.attach child).nodes ≤ t.nodes + child.nodes := by
  cases t with
  | node p s cs =>
    rw [attach, nodes, nodes, Multiset.cons_add, add_comm]
    exact Multiset.cons_le_cons _ (Forest.nodes_insert_le _ child cs)

/-- A stub with the version behind its key; every other node stays as it is. -/
def settleNode (version : String → Option String) : Package × Bool → Package × Bool
  | (p, true) => (((version p.key).map p.withVersion).getD p, true)
  | (p, false) => (p, false)

theorem resolveStubs_node (version : String → Option String) (p : Package) (s : Bool)
    (cs : Forest) : (node p s cs).resolveStubs version =
      node (settleNode version (p, s)).1 (settleNode version (p, s)).2
        (resolveStubsAll version cs) := by
  rw [resolveStubs]
  cases s <;> rfl

mutual

/-- Settling a tree settles each of its nodes. -/
theorem nodes_resolveStubs (version : String → Option String) :
    ∀ t : Tree, (t.resolveStubs version).nodes = t.nodes.map (settleNode version)
  | node p s cs => by
    rw [resolveStubs_node, nodes, nodes, Multiset.map_cons, nodesAll_resolveStubs version cs]

theorem nodesAll_resolveStubs (version : String → Option String) :
    ∀ f : Forest, nodesAll (resolveStubsAll version f) = (nodesAll f).map (settleNode version)
  | .nil => by
    rw [resolveStubsAll, nodesAll, Multiset.map_zero]
  | .cons name t r => by
    rw [resolveStubsAll, nodesAll, nodesAll, Multiset.map_add, nodes_resolveStubs version t,
      nodesAll_resolveStubs version r]

end

/-- The packages of the nodes that are no stubs. -/
def expanded (t : Tree) : Multiset Package :=
  t.nodes.filterMap fun x => if x.2 then none else some x.1

/-- The expanded packages are the nodes that are no stubs. -/
theorem mem_expanded {t : Tree} {p : Package} : p ∈ t.expanded ↔ (p, false) ∈ t.nodes := by
  rw [expanded, Multiset.mem_filterMap]
  constructor
  · rintro ⟨⟨q, s⟩, hmem, hq⟩
    cases s with
    | true => cases hq
    | false =>
      obtain rfl := Option.some.inj hq
      exact hmem
  · intro hmem
    exact ⟨(p, false), hmem, rfl⟩

/-- Giving stubs their versions leaves what is expanded. -/
theorem expanded_resolveStubs (version : String → Option String) (t : Tree) :
    (t.resolveStubs version).expanded = t.expanded := by
  rw [expanded, nodes_resolveStubs, Multiset.filterMap_map, expanded]
  refine congrArg (Multiset.filterMap · t.nodes) (funext fun x => ?_)
  obtain ⟨p, s⟩ := x
  cases s <;> rfl

mutual

/-- The number of nodes is the size of the bag. -/
theorem nodeCount_eq : ∀ t : Tree, t.nodeCount = t.nodes.card
  | node p s cs => by
    rw [nodeCount, nodes, Multiset.card_cons, nodeCountAll_eq_card cs, add_comm]

theorem nodeCountAll_eq_card : ∀ f : Forest, nodeCountAll f = (nodesAll f).card
  | .nil => rfl
  | .cons name t r => by
    rw [nodeCountAll, nodesAll, Multiset.card_add, nodeCount_eq t, nodeCountAll_eq_card r]

end

/-! ## Flattened keys -/

mutual

/-- A walk through the tree meets every node once. -/
theorem coe_preorder : ∀ t : Tree, (t.preorder : Multiset String) = t.nodes.map (·.1.key)
  | node p s cs => by
    rw [preorder, nodes, Multiset.map_cons, ← Multiset.cons_coe, coe_preorderAll cs]

/-- In pre-order stand the keys of all nodes. -/
theorem coe_preorderAll : ∀ f : Forest,
    (preorderAll f : Multiset String) = (nodesAll f).map (·.1.key)
  | .nil => rfl
  | .cons name t r => by
    rw [preorderAll, nodesAll, Multiset.map_add, ← Multiset.coe_add, coe_preorder t,
      coe_preorderAll r]

end

/-- A key stands in pre-order if some node has it. -/
theorem mem_preorder {t : Tree} {key : String} :
    key ∈ t.preorder ↔ ∃ x ∈ t.nodes, x.1.key = key := by
  rw [← Multiset.mem_coe, coe_preorder, Multiset.mem_map]

theorem length_preorder (t : Tree) : t.preorder.length = t.nodeCount := by
  rw [← Multiset.coe_card, coe_preorder, Multiset.card_map, nodeCount_eq]

theorem preorderAll_eq : ∀ f : Forest, preorderAll f = f.trees.flatMap preorder
  | .nil => rfl
  | .cons name t r => by
    rw [preorderAll, preorderAll_eq r]
    rfl

/-- A stack stands for a walk through its trees, one after another: each key is listed where the
walk meets it first, unless it is listed already. -/
theorem flattenFrom_eq (keys : List String) (stack : List Tree) :
    flattenFrom keys stack =
      keys ++ ((stack.flatMap preorder).removeAll keys).eraseDups := by
  induction keys, stack using flattenFrom.induct with
  | case1 keys =>
    rw [flattenFrom, List.flatMap_nil, List.removeAll, List.filter_nil, List.eraseDups_nil,
      List.append_nil]
  | case2 keys p s cs stack ih =>
    simp only [dite_eq_ite] at ih
    rw [flattenFrom, ih, List.flatMap_append, ← preorderAll_eq, List.flatMap_cons, preorder,
      List.cons_append]
    generalize preorderAll cs ++ stack.flatMap preorder = rest
    by_cases hmem : keys.contains p.key
    · have hrest : (p.key :: rest).removeAll keys = rest.removeAll keys :=
        List.filter_cons_of_neg (by simpa using hmem)
      rw [if_pos hmem, hrest]
    · have hrest : (p.key :: rest).removeAll keys = p.key :: rest.removeAll keys :=
        List.filter_cons_of_pos (by simpa using hmem)
      have hlater : rest.removeAll (keys ++ [p.key]) =
          (rest.removeAll keys).filter fun key => !key == p.key := by
        simp [List.removeAll, List.filter_filter, Bool.and_comm, beq_eq_decide]
      rw [if_neg hmem, hrest, List.eraseDups_cons, hlater, List.append_assoc,
        List.singleton_append]

/-- The flattened keys are those of the walk through the tree, without repetitions. -/
theorem flatten_eq (t : Tree) : t.flatten = t.preorder.eraseDups := by
  rw [flatten, flattenFrom_eq]
  simp [List.removeAll]

/-- The flattened keys are those of the nodes. -/
theorem mem_flatten {t : Tree} {key : String} :
    key ∈ t.flatten ↔ ∃ x ∈ t.nodes, x.1.key = key := by
  rw [flatten_eq, List.mem_eraseDups, mem_preorder]

/-- The flattened keys begin with that of the tree's own node. -/
theorem head?_flatten (t : Tree) : t.flatten.head? = some t.package.key := by
  cases t with
  | node p s cs =>
    rw [flatten_eq, preorder, List.eraseDups_cons]
    rfl

/-- Flattening adds no key twice. -/
theorem nodup_flattenFrom {keys : List String} (stack : List Tree) (h : keys.Nodup) :
    (flattenFrom keys stack).Nodup := by
  induction keys, stack using flattenFrom.induct with
  | case1 keys =>
    rw [flattenFrom]
    exact h
  | case2 keys p s cs stack ih =>
    simp only [dite_eq_ite] at ih
    rw [flattenFrom]
    refine ih ?_
    split
    · exact h
    · rename_i hnew
      have hnew : p.key ∉ keys := fun hmem => hnew (List.contains_iff_mem.mpr hmem)
      exact List.nodup_append.mpr ⟨h, List.nodup_singleton _, fun a ha b hb hab =>
        hnew (List.mem_singleton.mp hb ▸ hab ▸ ha)⟩

/-- No key is flattened twice. -/
theorem nodup_flatten (t : Tree) : t.flatten.Nodup := nodup_flattenFrom [t] List.nodup_nil

/-- There are no more flattened keys than nodes. -/
theorem length_flatten_le (t : Tree) : t.flatten.length ≤ t.nodeCount := by
  have hsubset : t.flatten ⊆ t.preorder := by
    intro key hkey
    rw [flatten_eq] at hkey
    exact List.mem_eraseDups.mp hkey
  rw [← length_preorder]
  exact ((nodup_flatten t).subperm hsubset).length_le

/-! ## Stubs -/

mutual

/-- No stub of the tree has children. -/
def Bare : Tree → Prop
  | node _ s cs => (s = true → cs = .nil) ∧ BareAll cs

/-- No stub of the forest has children. -/
def BareAll : Forest → Prop
  | .nil => True
  | .cons _ t r => Bare t ∧ BareAll r

end

theorem bare_leaf (p : Package) : (leaf p).Bare := by
  rw [leaf, Bare, BareAll]
  exact ⟨nofun, trivial⟩

theorem bare_stub (p : Package) : (stub p).Bare := by
  rw [stub, Bare, BareAll]
  exact ⟨fun _ => rfl, trivial⟩

/-- Inserting a bare tree leaves the forest bare. -/
theorem bareAll_insert {name : String} {t : Tree} (ht : t.Bare) :
    ∀ {f : Forest}, BareAll f → BareAll (f.insert name t)
  | .nil, _ => by
    rw [Forest.insert, BareAll, BareAll]
    exact ⟨ht, trivial⟩
  | .cons other old rest, h => by
    obtain ⟨hold, hrest⟩ : old.Bare ∧ BareAll rest := by rwa [BareAll] at h
    rw [Forest.insert]
    split
    · rw [BareAll]
      exact ⟨ht, h⟩
    · split <;> rw [BareAll]
      · exact ⟨ht, hrest⟩
      · exact ⟨hold, bareAll_insert ht hrest⟩

/-- A child is attached to a node that is no stub. -/
theorem bare_attach {t child : Tree} (hstub : t.isStub = false) (ht : t.Bare)
    (hchild : child.Bare) : (t.attach child).Bare ∧ (t.attach child).isStub = false := by
  cases t with
  | node p s cs =>
    obtain rfl : s = false := hstub
    rw [Bare] at ht
    rw [attach, Bare]
    exact ⟨⟨nofun, bareAll_insert hchild ht.2⟩, rfl⟩

mutual

/-- Giving stubs their versions gives them no children. -/
theorem bare_resolveStubs (version : String → Option String) :
    ∀ {t : Tree}, t.Bare → (t.resolveStubs version).Bare
  | node p s cs, h => by
    rw [Bare] at h
    rw [resolveStubs, Bare]
    refine ⟨fun hs => ?_, bareAll_resolveStubs version h.2⟩
    rw [h.1 hs, resolveStubsAll]

theorem bareAll_resolveStubs (version : String → Option String) :
    ∀ {f : Forest}, BareAll f → BareAll (resolveStubsAll version f)
  | .nil, _ => by
    rw [resolveStubsAll, BareAll]
    trivial
  | .cons name t r, h => by
    rw [BareAll] at h
    rw [resolveStubsAll, BareAll]
    exact ⟨bare_resolveStubs version h.1, bareAll_resolveStubs version h.2⟩

end

theorem isStub_resolveStubs (version : String → Option String) (t : Tree) :
    (t.resolveStubs version).isStub = t.isStub := by
  cases t
  rfl

end Tree

end PackageGate
