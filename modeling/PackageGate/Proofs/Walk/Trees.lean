import PackageGate.Proofs.Tree
import PackageGate.Proofs.Walk.Accounts

/-!
# The trees of a walk

The nodes of all trees that the tasks of a walk hold are what the history tells of: a
node for every package that was expanded, and a stub for every one that was left to its
owner. None gets lost when a task hands its tree over, since the children of a node have
different names.

- `Walk.Task.nodes`, `Walk.Entry.nodes`: both sides of this equation.
- `Walk.Siblings`: below a task that waits, every name stands once.
- `Walk.Grown`, `Walk.Grown.move`: the invariant, and that every move keeps it.
-/

namespace PackageGate

namespace Walk

/-- The tree that a task holds, once its request has been answered. -/
def Task.tree? (u : Task) : Option Tree :=
  match u.phase with
  | .joining node => some node
  | .done (.ok t) => some t
  | _ => none

/-- The nodes of the tree that a task holds. -/
def Task.nodes (u : Task) : Multiset (Package × Bool) :=
  match u.tree? with
  | some t => t.nodes
  | none => 0

/-- The node that an entry puts into the tree; a failed request leaves none. -/
def Entry.nodes : Entry → Multiset (Package × Bool)
  | found p => {(p, true)}
  | refused _ _ => 0
  | kept p m | landed p m => {(resolvedPackage p m, false)}
  | met p m => {(resolvedPackage p m, true)}

/-- The dependencies of the package that is expanded have different names. -/
def Entry.Distinct (x : Entry) : Prop :=
  ∀ r m, x.expanded? = some (r, m) → ((edgePackages m).map (·.name)).Nodup

/-- The name of a task that was started by the task `i`. -/
def Task.nameUnder (i : Nat) (u : Task) : Multiset String :=
  if u.parent = some i then {u.package.name} else 0

/-- The children that have come in at a task that waits, and those that it still waits for,
have different names. -/
def Siblings (bag : Multiset Task) : Prop :=
  ∀ u ∈ bag, ∀ node, u.phase = .joining node →
    ((node.children.names : Multiset String) + bag.bind (Task.nameUnder u.id)).Nodup

/-- The trees that are held hold what the history tells of. -/
structure Grown (log : Multiset Entry) (w : Walk) : Prop where
  named : ∀ u ∈ w.bag, ∀ t, u.tree? = some t → t.package.name = u.package.name
  siblings : Siblings w.bag
  nodes : w.bag.bind Task.nodes = log.bind Entry.nodes

variable {root : Package} {log : Multiset Entry} {w w' : Walk} {l : Label} {x : Option Entry}
  {u v : Task} {rest : Multiset Task}

theorem Grown.ofRoot (root : Package) : Grown 0 (ofRoot root) where
  named u hu t ht := by
    obtain rfl := List.mem_singleton.mp hu
    cases ht
  siblings u hu node hnode := by
    obtain rfl := List.mem_singleton.mp hu
    cases hnode
  nodes := rfl

/-! ## Names of siblings -/

/-- The tasks for the dependencies of a package bear their names. -/
theorem nameUnder_children (parent first : Nat) (ps : List Package) :
    (children parent first ps).bind (Task.nameUnder parent) =
      ((ps.map (·.name) : List String) : Multiset String) := by
  have hunder : (children parent first ps).bind (Task.nameUnder parent) =
      (children parent first ps).bind fun u => {u.package.name} := by
    refine Multiset.bind_congr fun u hu => ?_
    obtain ⟨-, -, hparent, -⟩ := mem_children hu
    exact if_pos hparent
  rw [hunder, Multiset.bind_singleton]
  rw [children, Multiset.map_coe, List.map_map]
  have hfst : (ps.zipIdx first).map Prod.fst = ps := List.zipIdx_map_fst first ps
  conv_rhs => rw [← hfst, List.map_map]
  rfl

theorem nameUnder_children_of_ne {i parent : Nat} (hne : i ≠ parent) (first : Nat)
    (ps : List Package) : (children parent first ps).bind (Task.nameUnder i) = 0 := by
  rw [← Multiset.bind_zero (children parent first ps)]
  refine Multiset.bind_congr fun u hu => ?_
  obtain ⟨-, -, hparent, -⟩ := mem_children hu
  refine if_neg fun heq => hne ?_
  rw [hparent] at heq
  exact (Option.some.inj heq).symm

theorem nameUnder_of_ne {i : Nat} (h : u.parent ≠ some i) : u.nameUnder i = 0 := if_neg h

/-- Whom a task was started by does not change with its phase. -/
theorem nameUnder_phase (u : Task) (phase : Phase) (i : Nat) :
    Task.nameUnder i { u with phase } = u.nameUnder i := rfl

theorem Siblings.turn {phase : Phase} (h : Siblings (u ::ₘ rest))
    (hphase : ∀ node, phase ≠ .joining node) : Siblings ({ u with phase } ::ₘ rest) := by
  intro y hy node hnode
  rcases Multiset.mem_cons.mp hy with rfl | hy
  · exact absurd hnode (hphase node)
  · have hold := h y (Multiset.mem_cons_of_mem hy) node hnode
    rw [Multiset.cons_bind] at hold ⊢
    exact hold

/-- Siblings keep different names when a task gets children. -/
theorem Siblings.expand {first : Nat} {p : Package} {ps : List Package}
    (h : Siblings (u ::ₘ rest)) (hchildless : ∀ y ∈ u ::ₘ rest, y.parent ≠ some u.id)
    (hids : ∀ y ∈ rest, y.id ≠ u.id) (hnames : (ps.map (·.name)).Nodup) :
    Siblings ({ u with phase := .joining (.leaf p) } ::ₘ (rest + children u.id first ps)) := by
  intro y hy node hnode
  rw [Multiset.cons_bind, nameUnder_phase, Multiset.add_bind]
  rcases Multiset.mem_cons.mp hy with rfl | hy
  · -- The new node has no children yet, and only the new tasks are below it.
    have hrest : rest.bind (Task.nameUnder u.id) = 0 := by
      rw [← Multiset.bind_zero rest]
      refine Multiset.bind_congr fun z hz => ?_
      exact nameUnder_of_ne (hchildless z (Multiset.mem_cons_of_mem hz))
    cases hnode
    show ((([] : List String) : Multiset String) + (u.nameUnder u.id +
      (rest.bind (Task.nameUnder u.id) +
        (children u.id first ps).bind (Task.nameUnder u.id)))).Nodup
    rw [nameUnder_of_ne (hchildless u (Multiset.mem_cons_self u rest)), hrest, nameUnder_children,
      zero_add, zero_add]
    exact Multiset.coe_nodup.mpr hnames
  · rcases Multiset.mem_add.mp hy with hy | hy
    · rw [nameUnder_children_of_ne (hids y hy), add_zero]
      have hold := h y (Multiset.mem_cons_of_mem hy) node hnode
      rw [Multiset.cons_bind] at hold
      exact hold
    · obtain ⟨-, -, -, -, hphase, -⟩ := mem_children hy
      rw [hphase] at hnode
      cases hnode

/-- The name that a task waits for has not come in yet. -/
theorem Siblings.name_notMem {node : Tree} (h : Siblings (u ::ₘ v ::ₘ rest))
    (hparent : u.parent = some v.id) (hjoining : v.phase = .joining node) :
    u.package.name ∉ node.children.names := by
  intro hmem
  have hnodup := h v (Multiset.mem_cons_of_mem (Multiset.mem_cons_self v rest)) node hjoining
  rw [Multiset.cons_bind, Task.nameUnder, if_pos hparent] at hnodup
  exact Multiset.disjoint_left.mp (Multiset.nodup_add.mp hnodup).2.2 (Multiset.mem_coe.mpr hmem)
    (Multiset.mem_add.mpr (.inl (Multiset.mem_singleton_self _)))

/-- A result that comes in brings the name that was waited for. -/
theorem Siblings.join {result : Except Failure Tree} {node : Tree}
    (h : Siblings (u ::ₘ v ::ₘ rest)) (hparent : u.parent = some v.id)
    (hjoining : v.phase = .joining node)
    (hnamed : ∀ t, result = .ok t → t.package.name = u.package.name)
    (hids : ∀ y ∈ rest, y.id ≠ v.id) :
    Siblings ({ v with phase := .joining (node.accept result) } ::ₘ rest) := by
  intro y hy tree htree
  rw [Multiset.cons_bind, nameUnder_phase]
  rcases Multiset.mem_cons.mp hy with rfl | hy
  · have hold := h v (Multiset.mem_cons_of_mem (Multiset.mem_cons_self v rest)) node hjoining
    rw [Multiset.cons_bind, Multiset.cons_bind, Task.nameUnder, if_pos hparent,
      Multiset.singleton_add] at hold
    cases htree
    show (((node.accept result).children.names : Multiset String) +
      (v.nameUnder v.id + rest.bind (Task.nameUnder v.id))).Nodup
    cases result with
    | error e =>
      -- A failed child brings nothing, and its name is not awaited any more.
      have hless := Multiset.nodup_of_le (Multiset.le_cons_self _ u.package.name)
        (Multiset.add_cons _ _ _ ▸ hold)
      exact hless
    | ok t =>
      -- The name of the child moves from the awaited ones to those that have come in.
      have hname := hnamed t rfl
      rw [Multiset.add_cons, ← Multiset.cons_add, ← hname] at hold
      have hnew : t.package.name ∉ node.children.names := by
        rw [hname]
        exact h.name_notMem hparent hjoining
      have hperm : ((node.attach t).children.names : Multiset String) =
          t.package.name ::ₘ (node.children.names : Multiset String) := by
        cases node with
        | node p s cs => exact Multiset.coe_eq_coe.mpr (Forest.names_insert t hnew)
      show (((node.attach t).children.names : Multiset String) + _).Nodup
      rw [hperm]
      exact hold
  · -- Below every other task nothing changes: `u` was not started by it.
    have hold := h y (Multiset.mem_cons_of_mem (Multiset.mem_cons_of_mem hy)) tree htree
    have hne : u.parent ≠ some y.id := by
      intro heq
      rw [hparent] at heq
      exact hids y hy (Option.some.inj heq).symm
    rw [Multiset.cons_bind, Multiset.cons_bind, nameUnder_of_ne hne, zero_add] at hold
    exact hold

/-! ## Moves -/

/-- A task that is done holds a tree of its own package, or none. -/
theorem Grown.name_of_done (h : Grown log w) {result : Except Failure Tree} (hu : u ∈ w.bag)
    (hdone : u.phase = .done result) : ∀ t, result = .ok t → t.package.name = u.package.name := by
  intro t ht
  refine h.named u hu t ?_
  simp only [Task.tree?, hdone, ht]

/-- The tree that a move gives to a task is one of the task's own package. -/
theorem Grown.named_move (h : Grown log w) (hmove : Move w w' l x) :
    ∀ y ∈ w'.bag, ∀ t, y.tree? = some t → t.package.name = y.package.name := by
  have hnamed := h.named
  cases hmove with
  | claim hbag _ _ hbag' _ _ | send hbag _ hbag' _ _ | refuse hbag _ hbag' _ _ =>
    rw [hbag, Multiset.forall_mem_cons] at hnamed
    rw [hbag', Multiset.forall_mem_cons]
    exact ⟨nofun, hnamed.2⟩
  | find hbag _ _ hbag' _ _ =>
    rw [hbag, Multiset.forall_mem_cons] at hnamed
    rw [hbag', Multiset.forall_mem_cons]
    refine ⟨fun t ht => ?_, hnamed.2⟩
    cases ht
    rfl
  | meet hbag _ _ _ hbag' _ _ =>
    rw [hbag, Multiset.forall_mem_cons] at hnamed
    rw [hbag', Multiset.forall_mem_cons]
    refine ⟨fun t ht => ?_, hnamed.2⟩
    cases ht
    exact resolvedPackage_name _ _
  | keep hbag _ _ hbag' _ _ | land hbag _ _ _ hbag' _ _ =>
    rw [hbag, Multiset.forall_mem_cons] at hnamed
    rw [hbag', Multiset.forall_mem_cons]
    refine ⟨fun t ht => ?_, fun y hy t ht => ?_⟩
    · cases ht
      exact resolvedPackage_name _ _
    · rcases Multiset.mem_add.mp hy with hy | hy
      · exact hnamed.2 y hy t ht
      · -- A task that has just been started holds no tree.
        obtain ⟨-, -, -, -, hphase, -⟩ := mem_children hy
        simp only [Task.tree?, hphase, reduceCtorEq] at ht
  | @join u v rest result node hbag hdone hparent hjoining hbag' _ _ =>
    rw [hbag, Multiset.forall_mem_cons, Multiset.forall_mem_cons] at hnamed
    obtain ⟨-, hv, hrest⟩ := hnamed
    rw [hbag', Multiset.forall_mem_cons]
    refine ⟨fun t ht => ?_, hrest⟩
    cases ht
    have hnode : node.package.name = v.package.name := by
      refine hv node ?_
      simp only [Task.tree?, hjoining]
    cases result with
    | error e => exact hnode
    | ok child =>
      show (node.attach child).package.name = v.package.name
      rw [Tree.package_attach]
      exact hnode
  | @finish u rest node hbag hphase _ hbag' _ _ =>
    rw [hbag, Multiset.forall_mem_cons] at hnamed
    rw [hbag', Multiset.forall_mem_cons]
    refine ⟨fun t ht => ?_, hnamed.2⟩
    cases ht
    refine hnamed.1 node ?_
    simp only [Task.tree?, hphase]

/-- A move keeps the names of siblings different. -/
theorem Grown.siblings_move (h : Grown log w) (ha : Accounts root log w)
    (hmove : Move w w' l x) (hx : ∀ y, x = some y → y.Distinct) : Siblings w'.bag := by
  have hsiblings := h.siblings
  cases hmove with
  | claim hbag _ _ hbag' _ _ | find hbag _ _ hbag' _ _ | send hbag _ hbag' _ _
  | refuse hbag _ hbag' _ _ | meet hbag _ _ _ hbag' _ _ | finish hbag _ _ hbag' _ _ =>
    rw [hbag] at hsiblings
    rw [hbag']
    exact hsiblings.turn nofun
  | @keep u _ _ hbag hphase _ hbag' _ _ | @land u _ _ hbag hphase _ _ hbag' _ _ =>
    have hu : u ∈ w.bag := mem_of_bag_eq hbag
    have hchildless : ∀ y ∈ w.bag, y.parent ≠ some u.id := by
      refine ha.parented.childless ha.numbered hu fun node hnode => ?_
      rw [hphase] at hnode
      cases hnode
    have hids := ha.numbered.ids_ne hbag
    rw [hbag] at hsiblings hchildless
    rw [hbag']
    exact hsiblings.expand hchildless hids (hx _ rfl _ _ rfl)
  | @join u v rest result node hbag hdone hparent hjoining hbag' _ _ =>
    have hids : ∀ y ∈ rest, y.id ≠ v.id := by
      intro y hy
      exact ha.numbered.ids_ne (hbag.trans (Multiset.cons_swap u v rest)) y
        (Multiset.mem_cons_of_mem hy)
    have hnamed := h.name_of_done (mem_of_bag_eq hbag) hdone
    rw [hbag] at hsiblings
    rw [hbag']
    exact hsiblings.join hparent hjoining hnamed hids

theorem nodes_children (parent first : Nat) (ps : List Package) :
    (children parent first ps).bind Task.nodes = 0 :=
  bind_children (fun u hphase => by simp only [Task.nodes, Task.tree?, hphase]) parent first ps

/-- A child whose name is awaited adds its nodes; a failed one adds none. -/
theorem Siblings.nodes_accept {result : Except Failure Tree} {node : Tree}
    (h : Siblings (u ::ₘ v ::ₘ rest)) (hdone : u.phase = .done result)
    (hparent : u.parent = some v.id) (hjoining : v.phase = .joining node)
    (hnamed : ∀ t, result = .ok t → t.package.name = u.package.name) :
    (node.accept result).nodes = u.nodes + v.nodes := by
  have hv : v.nodes = node.nodes := by
    simp only [Task.nodes, Task.tree?, hjoining]
  rw [hv]
  cases result with
  | error e =>
    have hu : u.nodes = 0 := by
      simp only [Task.nodes, Task.tree?, hdone]
    rw [hu, zero_add]
    rfl
  | ok t =>
    have hu : u.nodes = t.nodes := by
      simp only [Task.nodes, Task.tree?, hdone]
    have hnew : t.package.name ∉ node.children.names := by
      rw [hnamed t rfl]
      exact h.name_notMem hparent hjoining
    rw [hu, add_comm]
    exact Tree.nodes_attach hnew

/-- A move makes every node that the history tells of. -/
theorem Grown.nodes_move (h : Grown log w) (hmove : Move w w' l x) :
    w'.bag.bind Task.nodes = (extend log x).bind Entry.nodes := by
  have hn := h.nodes
  cases hmove with
  | claim hbag hphase _ hbag' _ _ | send hbag hphase hbag' _ _ | finish hbag hphase _ hbag' _ _ =>
    rw [hbag, Multiset.cons_bind] at hn
    rw [hbag', Multiset.cons_bind, extend, ← hn]
    simp only [Task.nodes, Task.tree?, hphase]
  | find hbag hphase _ hbag' _ _ | refuse hbag hphase hbag' _ _ | meet hbag hphase _ _ hbag' _ _ =>
    rw [hbag, Multiset.cons_bind] at hn
    rw [hbag', Multiset.cons_bind, extend, Multiset.cons_bind, ← hn]
    simp only [Task.nodes, Task.tree?, hphase, Entry.nodes, zero_add, Tree.nodes_stub]
  | keep hbag hphase _ hbag' _ _ | land hbag hphase _ _ hbag' _ _ =>
    rw [hbag, Multiset.cons_bind] at hn
    rw [hbag', Multiset.cons_bind, Multiset.add_bind, nodes_children, extend, Multiset.cons_bind,
      ← hn]
    simp only [Task.nodes, Task.tree?, hphase, Entry.nodes, zero_add, add_zero, Tree.nodes_leaf]
  | @join u v rest result node hbag hdone hparent hjoining hbag' _ _ =>
    have hsiblings := h.siblings
    have hnamed := h.name_of_done (mem_of_bag_eq hbag) hdone
    rw [hbag] at hsiblings
    rw [hbag, Multiset.cons_bind, Multiset.cons_bind, ← add_assoc,
      ← hsiblings.nodes_accept hdone hparent hjoining hnamed] at hn
    rw [hbag', Multiset.cons_bind]
    exact hn

/-- Every move keeps the trees in step with the history. -/
theorem Grown.move (h : Grown log w) (ha : Accounts root log w) (hmove : Move w w' l x)
    (hx : ∀ y, x = some y → y.Distinct) : Grown (extend log x) w' where
  named := h.named_move hmove
  siblings := h.siblings_move ha hmove hx
  nodes := h.nodes_move hmove

/-- The tree that a walk comes to holds the nodes that its history tells of. -/
theorem Grown.nodes_result (h : Grown log w) (ha : Accounts root log w) {t : Tree}
    (hr : w.result? = some (.ok t)) : t.nodes = log.bind Entry.nodes := by
  obtain ⟨u, hbag, hphase⟩ := ha.alone hr
  rw [← h.nodes, hbag, Multiset.singleton_bind]
  simp only [Task.nodes, Task.tree?, hphase]

end Walk

end PackageGate
