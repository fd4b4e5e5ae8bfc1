import PackageGate.Yaml.Token

/-!
# Nodes of YAML

- `Node`: a scalar or a collection, with its tag, or a reference to an anchored node.
- `Document`: a node with the anchored nodes in it, by number.
-/

namespace PackageGate.Yaml

/-- The full text of one of the tags that YAML itself defines. -/
def coreTag (name : String) : Tag := .ofText ("tag:yaml.org,2002:" ++ name)

/-- A node of a document. -/
inductive Node
  | scalar (tag : Option Tag) (style : Style) (text : String)
  | sequence (tag : Option Tag) (items : List Node)
  | mapping (tag : Option Tag) (entries : List (Node × Node))
  /-- The anchored node with the number `n`. -/
  | reference (n : Nat)
deriving Inhabited

/-- A node that is left out. -/
def Node.absent (tag : Option Tag) : Node := .scalar tag .plain ""

/-- A document. References may point to any anchored node of it, also around
themselves. -/
structure Document where
  root : Node
  anchored : List (Nat × Node)
deriving Inhabited

end PackageGate.Yaml
