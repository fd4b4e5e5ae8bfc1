import Mathlib.Data.Finset.Lattice.Lemmas
import PackageGate.Proofs.Tree.Indexed

/-!
# Flattening a tree is walking through it

The keys of a tree are listed in a loop that takes one node after another from a stack, and puts
its children there instead. A key that was met before is passed over, but not what is below it.

- `Flattening`, `Flattening.round`, `Flattening.rounds`: the loop, round by round.
- `Flattening.rounds_stackSize`: it ends after as many rounds as there are nodes on the stack.
- `Tree.Flattens`, `Tree.flattens_exactly`: what the flattened keys of a tree are.
-/

namespace PackageGate

namespace Tree

theorem nodeCount_pos (t : Tree) : 0 < t.nodeCount := by
  cases t
  rw [nodeCount]
  omega

theorem stackSize_reverse (stack : List Tree) : stackSize stack.reverse = stackSize stack := by
  induction stack with
  | nil => rfl
  | cons t stack ih =>
    rw [List.reverse_cons, stackSize_append, ih]
    simp only [stackSize]
    omega

end Tree

/-! ## The loop, round by round -/

/-- Where the flattening of a tree is: the keys that were met, the same keys in the order in which
they are listed, and the nodes that are still to be visited, the next one last. -/
structure Flattening where
  seen : Finset String
  keys : List String
  stack : List Tree

namespace Flattening

open PackageGate.Tree

/-- The tree's own node is to be visited, and no key was met yet. -/
def start (t : Tree) : Flattening := ⟨∅, [], [t]⟩

/-- One round, if a node is left: its key is listed unless it was met before, and its children are
to be visited next, in any case. -/
def round (s : Flattening) : Option Flattening :=
  s.stack.getLast?.map fun t => {
    seen := insert t.package.key s.seen
    keys := if t.package.key ∈ s.seen then s.keys else s.keys ++ [t.package.key]
    stack := s.stack.dropLast ++ t.children.trees.reverse }

/-- The loop after `n` rounds, unless it ended before. -/
def rounds : Nat → Flattening → Option Flattening
  | 0, s => some s
  | n + 1, s => s.round.bind (rounds n)

/-- The rounds end with the stack. -/
theorem round_eq_none_iff {s : Flattening} : s.round = none ↔ s.stack = [] := by
  rw [round, Option.map_eq_none_iff, List.getLast?_eq_none_iff]

/-- A round takes the tree on top, notes its key if it is new, and puts its children on the stack.
-/
theorem round_concat (keys : List String) (below : List Tree) (t : Tree) :
    round ⟨keys.toFinset, keys, below ++ [t]⟩ =
      let keys' := if keys.contains t.package.key then keys else keys ++ [t.package.key]
      some ⟨keys'.toFinset, keys', below ++ t.children.trees.reverse⟩ := by
  simp only [round, List.getLast?_concat, List.dropLast_concat, Option.map_some,
    List.mem_toFinset, List.contains_iff_mem]
  split
  · rename_i hmem
    rw [Finset.insert_eq_of_mem (List.mem_toFinset.mpr hmem)]
  · rw [List.toFinset_append, List.toFinset_cons, List.toFinset_nil, insert_empty_eq,
      Finset.union_comm, ← Finset.insert_eq]

/-- The loop ends after as many rounds as there are nodes on the stack. What it has listed then is
what the flattening function lists. -/
theorem rounds_stackSize (keys : List String) (stack : List Tree) :
    rounds (stackSize stack) ⟨keys.toFinset, keys, stack⟩ =
      let keys' := flattenFrom keys stack.reverse
      some ⟨keys'.toFinset, keys', []⟩ := by
  generalize hn : stackSize stack = n
  induction n generalizing keys stack with
  | zero =>
    cases stack with
    | nil =>
      rw [List.reverse_nil, flattenFrom]
      rfl
    | cons t stack =>
      have hpos := nodeCount_pos t
      rw [stackSize] at hn
      omega
  | succ n ih =>
    rcases List.eq_nil_or_concat stack with rfl | ⟨below, ⟨p, s, cs⟩, rfl⟩
    · cases hn
    · -- The children take the place of their parent, which makes one node less.
      have hleft : stackSize (below ++ cs.trees.reverse) = n := by
        rw [List.concat_eq_append, stackSize_append, stackSize, stackSize, nodeCount,
          nodeCountAll_eq] at hn
        rw [stackSize_append, stackSize_reverse]
        omega
      rw [List.concat_eq_append, rounds, round_concat, Option.bind_some]
      refine (ih _ _ hleft).trans ?_
      rw [List.reverse_append, List.reverse_reverse, List.reverse_append, List.reverse_singleton,
        List.singleton_append, flattenFrom]
      rfl

end Flattening

namespace Tree

/-! ## Flattened trees -/

/-- What the flattened keys of a tree are. -/
structure Flattens (t : Tree) (keys : List String) : Prop where
  /-- The loop ends after as many rounds as there are nodes, and has listed the keys then. -/
  ends : ∃ s, (Flattening.start t).rounds t.nodeCount = some s ∧ s.round = none ∧ s.keys = keys
  /-- The walk takes the children of a node in the order of their names' bytes. -/
  indexed : t.Indexed
  eq_eraseDups : keys = t.preorder.eraseDups
  head?_eq : keys.head? = some t.package.key
  nodup : keys.Nodup
  mem_iff : ∀ key, key ∈ keys ↔ ∃ x ∈ t.nodes, x.1.key = key
  length_le : keys.length ≤ t.nodeCount

/-- **Flattening is walking through the tree.** However a tree was built, the loop that flattens it
ends, and lists the keys of all nodes where a walk meets them first, a node before its children and
these in the order of their names. -/
theorem flattens_exactly {t : Tree} (h : t.Built) : t.Flattens t.flatten where
  ends := by
    have hsize : stackSize [t] = t.nodeCount := Nat.add_zero _
    have hend := Flattening.rounds_stackSize [] [t]
    rw [hsize] at hend
    exact ⟨_, hend, Flattening.round_eq_none_iff.mpr rfl, rfl⟩
  indexed := h.indexed
  eq_eraseDups := flatten_eq t
  head?_eq := head?_flatten t
  nodup := nodup_flatten t
  mem_iff _ := mem_flatten
  length_le := length_flatten_le t

/-- A package that two others depend on, with another dependency in each place. -/
def forked : Tree :=
  (leaf ⟨"app", "1"⟩).attach ((leaf ⟨"b", "1"⟩).attach ((leaf ⟨"shared", "1"⟩).attach
    (stub ⟨"late", "*"⟩))) |>.attach
  ((leaf ⟨"a", "1"⟩).attach ((leaf ⟨"shared", "1"⟩).attach (leaf ⟨"early", "1"⟩)))

/-- What is below the second of two nodes with one key is listed as well. -/
theorem flattens_exactly_forked : forked.Built ∧ forked.Flattens forked.flatten ∧
    forked.flatten = ["app@1", "a@1", "shared@1", "early@1", "b@1", "late@*"] ∧
    forked.nodeCount = 7 := by
  have hbuilt : forked.Built :=
    .attach (.attach (.leaf _) (.attach (.leaf _) (.attach (.leaf _) (.stub _))))
      (.attach (.leaf _) (.attach (.leaf _) (.leaf _)))
  have hflattens := flattens_exactly hbuilt
  exact ⟨hbuilt, hflattens, hflattens.eq_eraseDups.trans (by decide +kernel), by decide +kernel⟩

end Tree

end PackageGate
