import PackageGate.Proofs.Walk.Closure
import PackageGate.Proofs.Walk.Progress

/-!
# The root of a walk's tree

The node that a walk comes to is the root's: its package is the one that the root's request
was answered with. Where the walk fails, the root's request has.

- `Walk.Headed`: how far the root task has come, and what its node says.
- `Walk.Headed.move`: every move keeps it.
- `Walk.Headed.result`: the node or the failure that the walk comes to.
- `Walk.Underway.walked`: a walk that has its result has told everything.
-/

namespace PackageGate

namespace Walk

/-- `node` is the node of the root, expanded with one of the answers that `told` allows. -/
def HeadNode (told : Except Failure Manifest → Prop) (root : Package) (node : Tree) : Prop :=
  ∃ m, told (.ok m) ∧ node.package = resolvedPackage root m ∧ node.isStub = false

/-- What the root task comes to: its node, or a failure because its request has failed. -/
def HeadResult (told : Except Failure Manifest → Prop) (root : Package) :
    Except Failure Tree → Prop
  | .ok node => HeadNode told root node
  | .error _ => ∃ e, told (.error e)

/-- How far the root task has come. Until the root is answered it is the only task, and its key
the only one that is claimed. -/
inductive Headed (told : Except Failure Manifest → Prop) (root : Package) (w : Walk) : Prop
  | fresh {u : Task} : w.bag = {u} → u.id = rootId → u.package = root → u.phase = .spawned →
    w.visits.keys = [] → Headed told root w
  | asking {u : Task} : w.bag = {u} → u.id = rootId → u.package = root →
    u.phase = .queued ∨ u.phase = .calling → w.visits.keys = [root.key] → Headed told root w
  | joining {u : Task} {node : Tree} : u ∈ w.bag → u.id = rootId → u.phase = .joining node →
    HeadNode told root node → Headed told root w
  | done {u : Task} {result : Except Failure Tree} : u ∈ w.bag → u.id = rootId →
    u.phase = .done result → HeadResult told root result → Headed told root w

variable {told : Except Failure Manifest → Prop} {root : Package} {w w' : Walk} {l : Label}
  {note : Option Entry} {u v : Task} {node : Tree} {rest : Multiset Task} {log : Multiset Entry}

theorem Headed.ofRoot (told : Except Failure Manifest → Prop) (root : Package) :
    Headed told root (ofRoot root) :=
  .fresh (u := ⟨rootId, none, root, .spawned, false⟩) rfl rfl rfl rfl rfl

theorem HeadNode.accept (h : HeadNode told root node) (result : Except Failure Tree) :
    HeadNode told root (node.accept result) := by
  obtain ⟨m, hanswer, hpackage, hstub⟩ := h
  refine ⟨m, hanswer, ?_, ?_⟩
  · cases result with
    | error => exact hpackage
    | ok child => exact (Tree.package_attach node child).trans hpackage
  · cases result with
    | error => exact hstub
    | ok child =>
      cases node
      exact hstub

/-! ## Moves -/

/-- The only task there is takes every step. -/
theorem eq_of_alone (halone : w.bag = {u}) (hbag : w.bag = v ::ₘ rest) : v = u ∧ rest = 0 := by
  rw [halone] at hbag
  obtain ⟨rfl, rfl⟩ := (Multiset.singleton_eq_cons_iff rest).mp hbag
  exact ⟨rfl, rfl⟩

/-- The root task begins to ask. -/
theorem Headed.begun (hmove : Move w w' l note) (halone : w.bag = {u}) (hid : u.id = rootId)
    (hpackage : u.package = root) (hspawned : u.phase = .spawned) (hkeys : w.visits.keys = []) :
    Headed told root w' := by
  cases hmove with
  | claim hbag _ _ hbag' hvisits =>
    obtain ⟨rfl, rfl⟩ := eq_of_alone halone hbag
    refine .asking hbag' hid hpackage (.inl rfl) ?_
    rw [hvisits, hkeys, hpackage]
  | find hbag _ hfound =>
    -- No key is claimed yet.
    rw [Visits.contains, hkeys] at hfound
    cases hfound
  | send hbag hphase | refuse hbag hphase | keep hbag hphase | land hbag hphase | meet hbag hphase
  | finish hbag hphase | join hbag hphase =>
    obtain ⟨rfl, -⟩ := eq_of_alone halone hbag
    rw [hspawned] at hphase
    cases hphase

/-- The root task sends its request or receives the answer. -/
theorem Headed.answered (hmove : Move w w' l note) (halone : w.bag = {u}) (hid : u.id = rootId)
    (hpackage : u.package = root) (hasking : u.phase = .queued ∨ u.phase = .calling)
    (hkeys : w.visits.keys = [root.key])
    (hnote : ∀ x, note = some x → x.asked = root → ∀ r, x.answer? = some r → told r) :
    Headed told root w' := by
  cases hmove with
  | send hbag _ hbag' hvisits =>
    obtain ⟨rfl, rfl⟩ := eq_of_alone halone hbag
    refine .asking hbag' hid hpackage (.inr rfl) ?_
    rw [hvisits, hkeys]
  | @refuse _ _ e e' hbag _ hbag' =>
    obtain ⟨rfl, rfl⟩ := eq_of_alone halone hbag
    subst hpackage
    exact .done (mem_of_bag_eq hbag') hid rfl ⟨e, hnote _ rfl rfl _ rfl⟩
  | @keep _ _ m hbag _ _ hbag' | @land _ _ m hbag _ _ _ hbag' =>
    obtain ⟨rfl, rfl⟩ := eq_of_alone halone hbag
    subst hpackage
    exact .joining (mem_of_bag_eq hbag') hid rfl ⟨m, hnote _ rfl rfl _ rfl, rfl, rfl⟩
  | meet hbag _ hkey hfound =>
    -- Only the root's own key is claimed.
    obtain ⟨rfl, -⟩ := eq_of_alone halone hbag
    rw [Visits.contains, hkeys, List.contains_iff_mem, List.mem_singleton, ← hpackage] at hfound
    exact absurd hfound hkey
  | claim hbag hphase | find hbag hphase | finish hbag hphase | join hbag hphase =>
    obtain ⟨rfl, -⟩ := eq_of_alone halone hbag
    rcases hasking with h | h <;> rw [h] at hphase <;> cases hphase

/-- A task in front of another one in the bag is this one or stays behind. -/
theorem eq_or_mem (hu : u ∈ w.bag) (hbag : w.bag = v ::ₘ rest) : u = v ∨ u ∈ rest := by
  rw [hbag] at hu
  exact Multiset.mem_cons.mp hu

/-- The root task waits for its children until all of them have come in. -/
theorem Headed.waits (hmove : Move w w' l note) (hu : u ∈ w.bag) (hid : u.id = rootId)
    (hjoining : u.phase = .joining node) (hnode : HeadNode told root node) :
    Headed told root w' := by
  cases hmove with
  | claim hbag hphase _ hbag' | find hbag hphase _ hbag' | send hbag hphase hbag'
  | refuse hbag hphase hbag' | meet hbag hphase _ _ hbag' =>
    rcases eq_or_mem hu hbag with rfl | hu
    · rw [hjoining] at hphase
      cases hphase
    · exact .joining (hbag' ▸ Multiset.mem_cons_of_mem hu) hid hjoining hnode
  | keep hbag hphase _ hbag' | land hbag hphase _ _ hbag' =>
    rcases eq_or_mem hu hbag with rfl | hu
    · rw [hjoining] at hphase
      cases hphase
    · exact .joining (hbag' ▸ Multiset.mem_cons_of_mem (Multiset.mem_add.mpr (.inl hu))) hid
        hjoining hnode
  | @join _ v _ result node' hbag hdone _ hwaiting hbag' =>
    rcases eq_or_mem hu hbag with rfl | hu
    · rw [hjoining] at hdone
      cases hdone
    · rcases Multiset.mem_cons.mp hu with rfl | hu
      · obtain rfl : node = node' := Phase.joining.inj (hjoining.symm.trans hwaiting)
        exact .joining (mem_of_bag_eq hbag') hid rfl (hnode.accept result)
      · exact .joining (hbag' ▸ Multiset.mem_cons_of_mem hu) hid hjoining hnode
  | @finish _ _ node' hbag hwaiting _ hbag' =>
    rcases eq_or_mem hu hbag with rfl | hu
    · obtain rfl : node = node' := Phase.joining.inj (hjoining.symm.trans hwaiting)
      exact .done (mem_of_bag_eq hbag') hid rfl hnode
    · exact .joining (hbag' ▸ Multiset.mem_cons_of_mem hu) hid hjoining hnode

/-- The root task has no parent that could take its result. -/
theorem Headed.rests (hmove : Move w w' l note) (hparented : w.Parented) (hu : u ∈ w.bag)
    (hid : u.id = rootId) {result : Except Failure Tree} (hdone : u.phase = .done result)
    (hresult : HeadResult told root result) : Headed told root w' := by
  cases hmove with
  | claim hbag hphase _ hbag' | find hbag hphase _ hbag' | send hbag hphase hbag'
  | refuse hbag hphase hbag' | meet hbag hphase _ _ hbag' | finish hbag hphase _ hbag' =>
    rcases eq_or_mem hu hbag with rfl | hu
    · rw [hdone] at hphase
      cases hphase
    · exact .done (hbag' ▸ Multiset.mem_cons_of_mem hu) hid hdone hresult
  | keep hbag hphase _ hbag' | land hbag hphase _ _ hbag' =>
    rcases eq_or_mem hu hbag with rfl | hu
    · rw [hdone] at hphase
      cases hphase
    · exact .done (hbag' ▸ Multiset.mem_cons_of_mem (Multiset.mem_add.mpr (.inl hu))) hid hdone
        hresult
  | join hbag _ hparent hwaiting hbag' =>
    rcases eq_or_mem hu hbag with rfl | hu'
    · rcases hparented u hu with ⟨-, hnone⟩ | ⟨_, -, -, hlt, -⟩
      · rw [hnone] at hparent
        cases hparent
      · rw [hid] at hlt
        exact absurd hlt (Nat.not_lt_zero _)
    · rcases Multiset.mem_cons.mp hu' with rfl | hu'
      · rw [hdone] at hwaiting
        cases hwaiting
      · exact .done (hbag' ▸ Multiset.mem_cons_of_mem hu') hid hdone hresult

/-- Every move leads the root task on, if its answer is allowed. -/
theorem Headed.move (h : Headed told root w) (hparented : w.Parented) (hmove : Move w w' l note)
    (hnote : ∀ x, note = some x → x.asked = root → ∀ r, x.answer? = some r → told r) :
    Headed told root w' := by
  cases h with
  | fresh halone hid hpackage hspawned hkeys =>
    exact .begun hmove halone hid hpackage hspawned hkeys
  | asking halone hid hpackage hasking hkeys =>
    exact .answered hmove halone hid hpackage hasking hkeys hnote
  | joining hu hid hjoining hnode => exact .waits hmove hu hid hjoining hnode
  | done hu hid hdone hresult => exact .rests hmove hparented hu hid hdone hresult

/-- The result of a walk is the root's node, or says that the root's request has failed. -/
theorem Headed.result (h : Headed told root w) (haccounts : Accounts root log w)
    {result : Except Failure Tree} (hr : w.result? = some result) :
    HeadResult told root result := by
  obtain ⟨v, hbag, hphase⟩ := haccounts.alone hr
  have hdone : ∀ {u : Task}, u ∈ w.bag → u.phase = .done result := by
    intro u hu
    rw [hbag, Multiset.mem_singleton] at hu
    rw [hu, hphase]
  cases h with
  | fresh halone _ _ hspawned =>
    have hu := hdone (halone ▸ Multiset.mem_singleton_self _)
    rw [hspawned] at hu
    cases hu
  | asking halone _ _ hasking =>
    have hu := hdone (halone ▸ Multiset.mem_singleton_self _)
    rcases hasking with h | h <;> rw [h] at hu <;> cases hu
  | joining hu _ hjoining =>
    rw [hdone hu] at hjoining
    cases hjoining
  | done hu _ hdone' hresult =>
    obtain rfl := Phase.done.inj ((hdone hu).symm.trans hdone')
    exact hresult

/-- Settling the stubs leaves the package of a root's node as it is. -/
theorem HeadNode.package_settle (h : HeadNode told root node) :
    ∃ m, told (.ok m) ∧ (w.settle node).package = resolvedPackage root m := by
  obtain ⟨m, htold, hpackage, hstub⟩ := h
  refine ⟨m, htold, ?_⟩
  rw [← hpackage]
  cases node with
  | node package isStub children =>
    obtain rfl : isStub = false := hstub
    rfl

/-- A walk that has come to its result has told everything that is to be told. -/
theorem Underway.walked {c : Catalog} (h : Underway c root log w) (hc : c.Regular root)
    {result : Except Failure Tree} (hr : w.result? = some result) : Walked c root log w where
  toTold := h.told
  settled := h.accounts.settled hr
  regular := hc

end Walk

end PackageGate
