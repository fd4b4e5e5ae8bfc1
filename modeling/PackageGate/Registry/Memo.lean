import PackageGate.Failure
import PackageGate.Registry.Manifest

/-!
# Remembered answers

A memo keeps what a registry has answered, so that later roots need not ask
again. Only answers are kept, never failures.

- `Memo.latest?`, `Memo.manifest?`: the answer kept for a question.
- `Memo.keepLatest`, `Memo.keepManifest`: keeps a successful answer.
- `Memo.askLatest`, `Memo.askManifest`: asks the registry only when nothing is
  remembered.
-/

namespace PackageGate

/-- The answers of a registry so far. -/
structure Memo where
  latest : List (String × Option String)
  manifests : List (Package × Manifest)
deriving Inhabited

namespace Memo

/-- Nothing remembered. -/
def empty : Memo := ⟨[], []⟩

/-- The remembered newest version of `name`. -/
def latest? (m : Memo) (name : String) : Option (Option String) :=
  m.latest.lookup name

/-- The remembered manifest of a package. -/
def manifest? (m : Memo) (p : Package) : Option Manifest :=
  m.manifests.lookup p

/-- How many manifests are remembered. -/
def manifestCount (m : Memo) : Nat := m.manifests.length

/-- Keeps a successful answer about the newest version of `name`. -/
def keepLatest (m : Memo) (name : String) : Except Failure (Option String) → Memo
  | .ok version => { m with latest := (name, version) :: m.latest.filter (·.1 ≠ name) }
  | .error _ => m

/-- Keeps a successful answer about the manifest of a package. -/
def keepManifest (m : Memo) (p : Package) : Except Failure Manifest → Memo
  | .ok manifest => { m with manifests := (p, manifest) :: m.manifests.filter (·.1 ≠ p) }
  | .error _ => m

variable {ω : Type}

/-- The newest version of `name`: from the memo, or else from the registry, asked by `ask`. -/
def askLatest (m : Memo) (name : String) (ask : ω → Except Failure (Option String) × ω)
    (world : ω) : Except Failure (Option String) × Memo × ω :=
  match m.latest? name with
  | some version => (.ok version, m, world)
  | none =>
    let (reply, world) := ask world
    (reply, m.keepLatest name reply, world)

/-- The manifest of a package: from the memo, or else from the registry, asked by `ask`. -/
def askManifest (m : Memo) (p : Package) (ask : ω → Except Failure Manifest × ω)
    (world : ω) : Except Failure Manifest × Memo × ω :=
  match m.manifest? p with
  | some manifest => (.ok manifest, m, world)
  | none =>
    let (reply, world) := ask world
    (reply, m.keepManifest p reply, world)

end Memo

end PackageGate
