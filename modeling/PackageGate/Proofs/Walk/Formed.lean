import PackageGate.Proofs.Walk.Told

/-!
# The form of a walk's trees

Whatever a registry answers, its dependencies of one name among it, the trees that the tasks
hold are made of what the history tells of. So no key is expanded at two nodes. A child is
attached to an expanded node only, so no stub has children.

- `Walk.Formed`, `Walk.Formed.move`: the invariant, and that every move keeps it.
- `Walk.Formed.nodup_expanded`: no key is expanded at two nodes of the tree of a walk.
-/

namespace PackageGate

namespace Walk

/-- In the tree that a task holds no stub has children, and what waits for children is
expanded. -/
def Task.Bare (u : Task) : Prop :=
  match u.phase with
  | .joining node => node.isStub = false ∧ node.Bare
  | .done (.ok t) => t.Bare
  | _ => True

/-- The trees that are held hold nothing that the history does not tell of, and their stubs have
no children. -/
structure Formed (log : Multiset Entry) (w : Walk) : Prop where
  nodes : w.bag.bind Task.nodes ≤ log.bind Entry.nodes
  bare : ∀ u ∈ w.bag, u.Bare

variable {root : Package} {log : Multiset Entry} {w w' : Walk} {l : Label} {x : Option Entry}
  {u v : Task} {rest : Multiset Task}

theorem Formed.ofRoot (root : Package) : Formed 0 (ofRoot root) where
  nodes := le_rfl
  bare u hu := by
    obtain rfl := List.mem_singleton.mp hu
    trivial

/-- A result that comes in adds at most its nodes. -/
theorem nodes_accept_le {result : Except Failure Tree} {node : Tree}
    (hdone : u.phase = .done result) (hjoining : v.phase = .joining node) :
    (node.accept result).nodes ≤ u.nodes + v.nodes := by
  have hv : v.nodes = node.nodes := by
    simp only [Task.nodes, Task.tree?, hjoining]
  rw [hv]
  cases result with
  | error e => exact Multiset.le_add_left _ _
  | ok t =>
    have hu : u.nodes = t.nodes := by
      simp only [Task.nodes, Task.tree?, hdone]
    rw [hu, add_comm]
    exact Tree.nodes_attach_le node t

/-- A move makes no node that the history does not tell of. -/
theorem Formed.nodes_move (h : Formed log w) (hmove : Move w w' l x) :
    w'.bag.bind Task.nodes ≤ (extend log x).bind Entry.nodes := by
  have hn := h.nodes
  cases hmove with
  | claim hbag hphase _ hbag' _ _ | send hbag hphase hbag' _ _ | finish hbag hphase _ hbag' _ _ =>
    rw [hbag, Multiset.cons_bind] at hn
    rw [hbag', Multiset.cons_bind]
    simp only [Task.nodes, Task.tree?, hphase, extend] at hn ⊢
    exact hn
  | refuse hbag hphase hbag' _ _ =>
    rw [hbag, Multiset.cons_bind] at hn
    rw [hbag', Multiset.cons_bind]
    simp only [Task.nodes, Task.tree?, hphase, extend, Multiset.cons_bind, Entry.nodes,
      zero_add] at hn ⊢
    exact hn
  | find hbag hphase _ hbag' _ _ | meet hbag hphase _ _ hbag' _ _ =>
    rw [hbag, Multiset.cons_bind] at hn
    rw [hbag', Multiset.cons_bind]
    simp only [Task.nodes, Task.tree?, hphase, extend, Multiset.cons_bind, Entry.nodes, zero_add,
      Tree.nodes_stub] at hn ⊢
    exact add_le_add_right hn _
  | keep hbag hphase _ hbag' _ _ | land hbag hphase _ _ hbag' _ _ =>
    rw [hbag, Multiset.cons_bind] at hn
    rw [hbag', Multiset.cons_bind, Multiset.add_bind, nodes_children]
    simp only [Task.nodes, Task.tree?, hphase, extend, Multiset.cons_bind, Entry.nodes, zero_add,
      add_zero, Tree.nodes_leaf] at hn ⊢
    exact add_le_add_right hn _
  | @join u v rest result node hbag hdone hparent hjoining hbag' _ _ =>
    -- Names may clash here, and then the child replaces another one.
    rw [hbag, Multiset.cons_bind, Multiset.cons_bind, ← add_assoc] at hn
    rw [hbag', Multiset.cons_bind]
    exact (add_le_add_left (nodes_accept_le hdone hjoining) _).trans hn

theorem bare_of_children {parent first : Nat} {ps : List Package}
    (h : u ∈ children parent first ps) : u.Bare := by
  obtain ⟨-, -, -, -, hphase, -⟩ := mem_children h
  simp only [Task.Bare, hphase]

/-- A result that comes in at an expanded node leaves it so. -/
theorem bare_accept {result : Except Failure Tree} {node : Tree} (hu : u.Bare)
    (hdone : u.phase = .done result) (hnode : node.isStub = false ∧ node.Bare) :
    (node.accept result).isStub = false ∧ (node.accept result).Bare := by
  cases result with
  | error e => exact hnode
  | ok t =>
    have ht : t.Bare := by
      simpa only [Task.Bare, hdone] using hu
    exact (Tree.bare_attach hnode.1 hnode.2 ht).symm

/-- A move gives no stub a child. -/
theorem Formed.bare_move (h : Formed log w) (hmove : Move w w' l x) : ∀ u ∈ w'.bag, u.Bare := by
  have hbare := h.bare
  cases hmove with
  | claim hbag _ _ hbag' _ _ | send hbag _ hbag' _ _ | refuse hbag _ hbag' _ _ =>
    rw [hbag, Multiset.forall_mem_cons] at hbare
    rw [hbag', Multiset.forall_mem_cons]
    exact ⟨trivial, hbare.2⟩
  | @find u _ hbag _ _ hbag' _ _ =>
    rw [hbag, Multiset.forall_mem_cons] at hbare
    rw [hbag', Multiset.forall_mem_cons]
    exact ⟨Tree.bare_stub u.package, hbare.2⟩
  | @meet u _ m hbag _ _ _ hbag' _ _ =>
    rw [hbag, Multiset.forall_mem_cons] at hbare
    rw [hbag', Multiset.forall_mem_cons]
    exact ⟨Tree.bare_stub (resolvedPackage u.package m), hbare.2⟩
  | @keep u _ m hbag _ _ hbag' _ _ | @land u _ m hbag _ _ _ hbag' _ _ =>
    rw [hbag, Multiset.forall_mem_cons] at hbare
    rw [hbag', Multiset.forall_mem_cons]
    refine ⟨⟨rfl, Tree.bare_leaf (resolvedPackage u.package m)⟩, fun y hy => ?_⟩
    rcases Multiset.mem_add.mp hy with hy | hy
    · exact hbare.2 y hy
    · exact bare_of_children hy
  | @join u v rest result node hbag hdone _ hjoining hbag' _ _ =>
    rw [hbag, Multiset.forall_mem_cons, Multiset.forall_mem_cons] at hbare
    obtain ⟨hu, hv, hrest⟩ := hbare
    rw [hbag', Multiset.forall_mem_cons]
    have hnode : node.isStub = false ∧ node.Bare := by
      simpa only [Task.Bare, hjoining] using hv
    exact ⟨bare_accept hu hdone hnode, hrest⟩
  | @finish u rest node hbag hphase _ hbag' _ _ =>
    rw [hbag, Multiset.forall_mem_cons] at hbare
    rw [hbag', Multiset.forall_mem_cons]
    have hnode : node.isStub = false ∧ node.Bare := by
      simpa only [Task.Bare, hphase] using hbare.1
    exact ⟨hnode.2, hbare.2⟩

/-- Every move keeps the form. -/
theorem Formed.move (h : Formed log w) (hmove : Move w w' l x) : Formed (extend log x) w' where
  nodes := h.nodes_move hmove
  bare := h.bare_move hmove

/-- Taking a task away keeps the form. -/
theorem Formed.drop (h : Formed log w) (t : Nat) : Formed log (w.drop t) where
  nodes := (bind_drop_le Task.nodes (fun _ => rfl) w t).trans h.nodes
  bare u hu := by
    obtain ⟨v, hv, -, rfl⟩ := mem_drop hu
    have hbare := h.bare v hv
    split <;> exact hbare

/-! ## The tree of a walk -/

/-- An entry expands the packages of its nodes that are no stubs. -/
theorem expands_eq_filterMap (y : Entry) :
    y.nodes.filterMap (fun n => if n.2 then none else some n.1) = y.expands := by
  cases y <;> rfl

variable {t : Tree}

/-- The tree that a walk comes to expands what its history tells of at most. -/
theorem Formed.expanded_le (h : Formed log w) (ha : Accounts root log w)
    (hr : w.result? = some (.ok t)) : t.expanded ≤ log.bind Entry.expands := by
  obtain ⟨u, hbag, hphase⟩ := ha.alone hr
  have hnodes : t.nodes ≤ log.bind Entry.nodes := by
    have hn := h.nodes
    rw [hbag, Multiset.singleton_bind] at hn
    simpa only [Task.nodes, Task.tree?, hphase] using hn
  calc
    t.expanded ≤ (log.bind Entry.nodes).filterMap _ := Multiset.filterMap_le_filterMap _ hnodes
    _ = log.bind Entry.expands := by
      rw [Multiset.filterMap_bind]
      exact Multiset.bind_congr fun y _ => expands_eq_filterMap y

/-- No key is expanded at two nodes. -/
theorem Formed.nodup_expanded (h : Formed log w) (ha : Accounts root log w)
    (hr : w.result? = some (.ok t)) : ((w.settle t).expanded.map Package.key).Nodup := by
  rw [settle, Tree.expanded_resolveStubs]
  exact Multiset.nodup_of_le (Multiset.map_le_map (h.expanded_le ha hr))
    (nodup_keys_expands ha.nodup_claims ha.rightly)

/-- No stub of the settled tree has children. -/
theorem Formed.bare_result (h : Formed log w) (ha : Accounts root log w)
    (hr : w.result? = some (.ok t)) : (w.settle t).Bare := by
  obtain ⟨u, hbag, hphase⟩ := ha.alone hr
  have hu := h.bare u (hbag ▸ Multiset.mem_singleton_self u)
  refine Tree.bare_resolveStubs _ ?_
  simpa only [Task.Bare, hphase] using hu

end Walk

end PackageGate
