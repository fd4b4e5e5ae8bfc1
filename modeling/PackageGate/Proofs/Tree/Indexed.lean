import PackageGate.Proofs.Bytes
import PackageGate.Proofs.Tree

/-!
# Children under the names of their packages

A tree is put together by attaching trees to nodes, and its stubs may be given their versions at
any time. In every tree that comes about so, the children of a node stand under the names of their
packages, in the order of the bytes of these names. A child that is attached therefore takes the
place of the child of the same package, and of no other.

- `Tree.Built`: the trees that come about.
- `Tree.Indexed`: the children of every node stand under the names of their packages, in order;
  `Tree.indexed_attach` and `Tree.indexed_resolveStubs` keep this.
- `Tree.mem_trees_attach`: which children a node has after one was attached.
-/

namespace PackageGate

namespace Forest

/-! ## Names in order -/

/-- The names of the children are in strictly rising order of their bytes. -/
def Sorted (f : Forest) : Prop := f.names.Pairwise Text.Precedes

variable {name : String} {t : Tree} {f r : Forest}

theorem sorted_nil : Sorted nil := List.Pairwise.nil

theorem sorted_cons : (cons name t r).Sorted ↔ (∀ n ∈ r.names, name < n) ∧ r.Sorted := by
  rw [Sorted, names_cons, List.pairwise_cons]
  simp only [Text.precedes_iff_lt, Sorted]

theorem fst_mem_names {x : String × Tree} (h : x ∈ f.toList) : x.1 ∈ f.names :=
  List.mem_map_of_mem h

/-- After an insertion there is the new name besides the old ones. -/
theorem mem_names_insert {n : String} : n ∈ (f.insert name t).names ↔ n = name ∨ n ∈ f.names := by
  fun_induction insert name t f with
  | case1 => rw [names_cons, List.mem_cons]
  | case2 other old rest hlt => rw [names_cons, List.mem_cons]
  | case3 old rest => rw [names_cons, names_cons, List.mem_cons, or_self_left]
  | case4 other old rest hnlt hne ih =>
    rw [names_cons, names_cons, List.mem_cons, List.mem_cons, ih, or_left_comm]

/-- Inserting keeps the names in order. -/
theorem sorted_insert (h : f.Sorted) : (f.insert name t).Sorted := by
  fun_induction insert name t f with
  | case1 => exact sorted_cons.mpr ⟨nofun, h⟩
  | case2 other old rest hlt =>
    obtain ⟨hother, -⟩ := sorted_cons.mp h
    refine sorted_cons.mpr ⟨fun n hn => ?_, h⟩
    rcases List.mem_cons.mp hn with rfl | hn
    · exact hlt
    · exact lt_trans hlt (hother n hn)
  | case3 old rest => exact sorted_cons.mpr (sorted_cons.mp h)
  | case4 other old rest hnlt hne ih =>
    obtain ⟨hother, hrest⟩ := sorted_cons.mp h
    refine sorted_cons.mpr ⟨fun n hn => ?_, ih hrest⟩
    rcases mem_names_insert.mp hn with rfl | hn
    · exact lt_of_le_of_ne (not_lt.mp hnlt) (Ne.symm hne)
    · exact hother n hn

/-- A child that is inserted takes the place of the child of its name, and all others stay. -/
theorem mem_toList_insert {x : String × Tree} (h : f.Sorted) :
    x ∈ (f.insert name t).toList ↔ x = (name, t) ∨ (x ∈ f.toList ∧ x.1 ≠ name) := by
  fun_induction insert name t f with
  | case1 => simp [toList]
  | case2 other old rest hlt =>
    obtain ⟨hother, -⟩ := sorted_cons.mp h
    have hothers : x ∈ (cons other old rest).toList → x.1 ≠ name := by
      intro hx
      rcases List.mem_cons.mp hx with rfl | hx
      · exact ne_of_gt hlt
      · exact ne_of_gt (lt_trans hlt (hother _ (fst_mem_names hx)))
    rw [toList, List.mem_cons, and_iff_left_of_imp hothers]
  | case3 old rest =>
    obtain ⟨hlater, -⟩ := sorted_cons.mp h
    have hothers : x ∈ rest.toList → x.1 ≠ name := fun hx =>
      ne_of_gt (hlater _ (fst_mem_names hx))
    rw [toList, toList, List.mem_cons, List.mem_cons]
    refine or_congr_right ⟨fun hx => ⟨.inr hx, hothers hx⟩, ?_⟩
    rintro ⟨rfl | hx, hne⟩
    · exact absurd rfl hne
    · exact hx
  | case4 other old rest hnlt hne ih =>
    obtain ⟨-, hrest⟩ := sorted_cons.mp h
    rw [toList, toList, List.mem_cons, List.mem_cons, ih hrest]
    constructor
    · rintro (rfl | rfl | ⟨hx, hxne⟩)
      · exact .inr ⟨.inl rfl, Ne.symm hne⟩
      · exact .inl rfl
      · exact .inr ⟨.inr hx, hxne⟩
    · rintro (rfl | ⟨rfl | hx, hxne⟩)
      · exact .inr (.inl rfl)
      · exact .inl rfl
      · exact .inr (.inr ⟨hx, hxne⟩)

end Forest

namespace Tree

/-! ## Indexed trees -/

mutual

/-- The children of every node stand under the names of their packages, in strictly rising order
of the names' bytes. -/
def Indexed : Tree → Prop
  | node _ _ cs => cs.Sorted ∧ IndexedAll cs

/-- Every tree of the forest is indexed and stands under the name of its package. -/
def IndexedAll : Forest → Prop
  | .nil => True
  | .cons name t r => (t.package.name = name ∧ Indexed t) ∧ IndexedAll r

end

variable {t child d : Tree} {version : String → Option String}

/-- In an indexed forest each tree stands under its own name. -/
theorem indexedAll_iff {f : Forest} :
    IndexedAll f ↔ ∀ x ∈ f.toList, x.2.package.name = x.1 ∧ x.2.Indexed := by
  fun_induction Forest.toList f with
  | case1 => exact ⟨fun _ => nofun, fun _ => trivial⟩
  | case2 name t r ih => rw [IndexedAll, ih, List.forall_mem_cons]

theorem indexed_leaf (p : Package) : (leaf p).Indexed := ⟨Forest.sorted_nil, trivial⟩

theorem indexed_stub (p : Package) : (stub p).Indexed := ⟨Forest.sorted_nil, trivial⟩

/-- Attaching a child keeps a tree indexed. -/
theorem indexed_attach (ht : t.Indexed) (hchild : child.Indexed) : (t.attach child).Indexed := by
  cases t with
  | node p s cs =>
    obtain ⟨hsorted, hall⟩ : cs.Sorted ∧ IndexedAll cs := ht
    refine ⟨Forest.sorted_insert hsorted, indexedAll_iff.mpr fun x hx => ?_⟩
    rcases (Forest.mem_toList_insert hsorted).mp hx with rfl | ⟨hx, -⟩
    · exact ⟨rfl, hchild⟩
    · exact indexedAll_iff.mp hall x hx

theorem name_settleNode (version : String → Option String) (x : Package × Bool) :
    (settleNode version x).1.name = x.1.name := by
  obtain ⟨p, s⟩ := x
  cases s with
  | false => rfl
  | true =>
    rw [settleNode]
    cases version p.key <;> rfl

theorem name_resolveStubs (version : String → Option String) (t : Tree) :
    (t.resolveStubs version).package.name = t.package.name := by
  cases t with
  | node p s cs =>
    rw [resolveStubs_node]
    exact name_settleNode version (p, s)

theorem names_resolveStubsAll (version : String → Option String) (f : Forest) :
    (resolveStubsAll version f).names = f.names := by
  induction f using Forest.toList.induct with
  | case1 => rw [resolveStubsAll]
  | case2 name t r ih => rw [resolveStubsAll, Forest.names_cons, Forest.names_cons, ih]

mutual

/-- Giving stubs their versions keeps a tree indexed. -/
theorem indexed_resolveStubs (version : String → Option String) :
    ∀ {t : Tree}, t.Indexed → (t.resolveStubs version).Indexed
  | node p s cs, h => by
    obtain ⟨hsorted, hall⟩ : cs.Sorted ∧ IndexedAll cs := h
    rw [resolveStubs, Indexed, Forest.Sorted, names_resolveStubsAll]
    exact ⟨hsorted, indexedAll_resolveStubs version hall⟩

theorem indexedAll_resolveStubs (version : String → Option String) :
    ∀ {f : Forest}, IndexedAll f → IndexedAll (resolveStubsAll version f)
  | .nil, h => by
    rwa [resolveStubsAll]
  | .cons name t r, h => by
    obtain ⟨⟨hname, ht⟩, hr⟩ : (t.package.name = name ∧ t.Indexed) ∧ IndexedAll r := h
    rw [resolveStubsAll, IndexedAll, name_resolveStubs]
    exact ⟨⟨hname, indexed_resolveStubs version ht⟩, indexedAll_resolveStubs version hr⟩

end

/-- A child stands under its name. -/
theorem Indexed.mem_trees_iff (h : t.Indexed) :
    d ∈ t.children.trees ↔ (d.package.name, d) ∈ t.children.toList := by
  cases t with
  | node p s cs =>
    constructor
    · intro hd
      obtain ⟨⟨name, u⟩, hu, rfl⟩ := List.mem_map.mp hd
      obtain ⟨hname, -⟩ := indexedAll_iff.mp h.2 _ hu
      obtain rfl : u.package.name = name := hname
      exact hu
    · exact fun hd => List.mem_map_of_mem hd

/-- The child that was attached is there, and so are all former ones of other packages; a former
child of the same package is gone. -/
theorem mem_trees_attach (h : t.Indexed) (hchild : child.Indexed) :
    d ∈ (t.attach child).children.trees ↔
      d = child ∨ (d ∈ t.children.trees ∧ d.package.name ≠ child.package.name) := by
  rw [(indexed_attach h hchild).mem_trees_iff, h.mem_trees_iff]
  cases t with
  | node p s cs =>
    obtain ⟨hsorted, -⟩ : cs.Sorted ∧ IndexedAll cs := h
    refine (Forest.mem_toList_insert hsorted).trans (or_congr_left ⟨?_, ?_⟩)
    · exact fun heq => (Prod.mk.inj heq).2
    · rintro rfl
      rfl

/-! ## Built trees -/

/-- The trees that come about: nodes without children, trees to which a tree was attached, and
trees whose stubs were given their versions. -/
inductive Built : Tree → Prop
  | leaf (p : Package) : Built (leaf p)
  | stub (p : Package) : Built (stub p)
  | attach {t child : Tree} : Built t → Built child → Built (t.attach child)
  | resolveStubs (version : String → Option String) {t : Tree} : Built t →
    Built (t.resolveStubs version)

/-- Every tree that is built is indexed. -/
theorem Built.indexed (h : t.Built) : t.Indexed := by
  induction h with
  | leaf p => exact indexed_leaf p
  | stub p => exact indexed_stub p
  | attach _ _ ht hchild => exact indexed_attach ht hchild
  | resolveStubs version _ ht => exact indexed_resolveStubs version ht

end Tree

end PackageGate
