import PackageGate.Package

/-!
# Dependency trees

A node of a dependency tree is a package with its dependencies. A package that
is already expanded elsewhere in the tree stands there as a stub, a node without
children.

- `Tree`, `Forest`: a node, and children in rising order of their names.
- `Tree.attach`: adds a child under its package's name; a child of that name
  is replaced.
- `Tree.resolveStubs`: gives stubs the version behind their key.
- `Tree.preorder`: the keys of all nodes, a node before its children.
- `Tree.flatten`: the same keys, each at its first place only, computed with an
  explicit stack.
-/

namespace PackageGate

mutual

/-- A node of a dependency tree. -/
inductive Tree
  | node (package : Package) (isStub : Bool) (children : Forest)

/-- The children of a node, each under a name. -/
inductive Forest
  | nil
  | cons (name : String) (tree : Tree) (rest : Forest)

end

namespace Forest

/-- The children as a list. -/
def toList : Forest → List (String × Tree)
  | nil => []
  | cons name tree rest => (name, tree) :: toList rest

/-- The trees of a forest in order. -/
def trees (f : Forest) : List Tree := f.toList.map Prod.snd

/-- Puts a tree in its place; a tree of the same name is replaced. -/
def insert (name : String) (tree : Tree) : Forest → Forest
  | nil => cons name tree nil
  | cons other old rest =>
    if name < other then cons name tree (cons other old rest)
    else if name = other then cons name tree rest
    else cons other old (insert name tree rest)

end Forest

namespace Tree

/-- The package of a node. -/
def package : Tree → Package
  | node p _ _ => p

/-- Whether a node stands for a package expanded elsewhere. -/
def isStub : Tree → Bool
  | node _ s _ => s

/-- The children of a node. -/
def children : Tree → Forest
  | node _ _ cs => cs

/-- An expanded package without dependencies yet. -/
def leaf (p : Package) : Tree := node p false .nil

/-- A package expanded elsewhere. -/
def stub (p : Package) : Tree := node p true .nil

/-- Adds a child under the name of its package. -/
def attach : Tree → Tree → Tree
  | node p s cs, child => node p s (cs.insert child.package.name child)

mutual

/-- The number of nodes, stubs included. -/
def nodeCount : Tree → Nat
  | node _ _ cs => 1 + nodeCountAll cs

/-- The number of nodes of a forest. -/
def nodeCountAll : Forest → Nat
  | .nil => 0
  | .cons _ t r => nodeCount t + nodeCountAll r

end

mutual

/-- Gives each stub the version that `version` knows for its key. -/
def resolveStubs (version : String → Option String) : Tree → Tree
  | node p s cs =>
    let p := if s then ((version p.key).map p.withVersion).getD p else p
    node p s (resolveStubsAll version cs)

/-- Gives each stub of a forest the version that `version` knows for its key. -/
def resolveStubsAll (version : String → Option String) : Forest → Forest
  | .nil => .nil
  | .cons name t r => .cons name (resolveStubs version t) (resolveStubsAll version r)

end

mutual

/-- The keys of all nodes, a node before its children. -/
def preorder : Tree → List String
  | node p _ cs => p.key :: preorderAll cs

/-- The keys of all nodes of a forest. -/
def preorderAll : Forest → List String
  | .nil => []
  | .cons _ t r => preorder t ++ preorderAll r

end

/-- The number of nodes on a stack. -/
def stackSize : List Tree → Nat
  | [] => 0
  | t :: stack => t.nodeCount + stackSize stack

theorem stackSize_append (ts stack : List Tree) :
    stackSize (ts ++ stack) = stackSize ts + stackSize stack := by
  induction ts with
  | nil => simp [stackSize]
  | cons t ts ih =>
    simp only [List.cons_append, stackSize, ih]
    omega

theorem nodeCountAll_eq (cs : Forest) : nodeCountAll cs = stackSize cs.trees := by
  induction cs using Forest.rec (motive_1 := fun _ => True) with
  | node => trivial
  | nil => rfl
  | cons name t r _ ih =>
    simp only [nodeCountAll, Forest.trees, Forest.toList, List.map_cons, stackSize] at ih ⊢
    omega

/-- Takes node after node from the stack and puts its children in front of the others;
`keys` are the keys met so far. -/
def flattenFrom (keys : List String) : List Tree → List String
  | [] => keys
  | node p _ cs :: stack =>
    flattenFrom (if keys.contains p.key then keys else keys ++ [p.key]) (cs.trees ++ stack)
termination_by stack => stackSize stack
decreasing_by
  simp only [stackSize_append, stackSize, nodeCount, nodeCountAll_eq]
  omega

/-- The keys of all nodes in the order of their first visit, without repetition. -/
def flatten (t : Tree) : List String := flattenFrom [] [t]

mutual

/-- The edges of a tree: the key of a node and the key of a child. -/
def edges : Tree → List (String × String)
  | node p _ cs => edgesBelow p.key cs

/-- The edges from a node with the key `parent` into a forest, and those inside it. -/
def edgesBelow (parent : String) : Forest → List (String × String)
  | .nil => []
  | .cons _ t r => (parent, t.package.key) :: (edges t ++ edgesBelow parent r)

end

mutual

/-- The number of stubs. -/
def stubCount : Tree → Nat
  | node _ s cs => (if s then 1 else 0) + stubCountAll cs

/-- The number of stubs of a forest. -/
def stubCountAll : Forest → Nat
  | .nil => 0
  | .cons _ t r => stubCount t + stubCountAll r

end

end Tree

end PackageGate
