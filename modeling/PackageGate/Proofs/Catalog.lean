import PackageGate.Proofs.Keys
import PackageGate.Proofs.Walk.Moves

/-!
# Catalogs

A registry that always answers alike is a catalog: one answer for every package. What can
be found from a root is then fixed before any walk begins.

- `Catalog`, `Catalog.Stable`: catalogs, and those that answer for a tag and for the
  version behind it alike.
- `Catalog.Asked`: the packages that are asked for, from a root on.
- `Catalog.Listed`: the keys that are listed for a root.
- `Catalog.edgesOf`: the dependencies of an expanded package.
-/

namespace PackageGate

/-- One answer for every package. -/
structure Catalog where
  answer : Package → Except Failure Manifest
  /-- A manifest has one range per dependency. -/
  distinct : ∀ p m, answer p = .ok m → (m.dependencies.map Prod.fst).Nodup

namespace Catalog

open Walk

/-- Where a package is answered with a version, this version has the same dependencies. -/
def Stable (c : Catalog) : Prop :=
  ∀ p m, c.answer p = .ok m → m.version ≠ "" →
    ∃ m', c.answer (p.withVersion m.version) = .ok m' ∧ m'.dependencies = m.dependencies ∧
      (m'.version = m.version ∨ m'.version = "")

/-- The packages that are asked for: the root, and what the answers depend on. -/
inductive Asked (c : Catalog) (root : Package) : Package → Prop
  | root : Asked c root root
  | edge {p q : Package} {m : Manifest} : Asked c root p → c.answer p = .ok m →
    q ∈ edgePackages m → Asked c root q

/-- The expanded package `r` declares a dependency on `q`. -/
def Declares (c : Catalog) (root r q : Package) : Prop :=
  ∃ p m, c.Asked root p ∧ c.answer p = .ok m ∧ r = resolvedPackage p m ∧ q ∈ edgePackages m

/-- The keys that are listed for a root: what every successful request resolves to, and each
failing request that two expanded packages declare. -/
inductive Listed (c : Catalog) (root : Package) : String → Prop
  | resolved {p : Package} {m : Manifest} : c.Asked root p → c.answer p = .ok m →
    Listed c root (resolvedPackage p m).key
  | failed {p r₁ r₂ : Package} {e : Failure} : c.Asked root p → c.answer p = .error e →
    r₁ ≠ r₂ → c.Declares root r₁ p → c.Declares root r₂ p → Listed c root p.key

/-- The dependencies of a package in the version that it is asked for. -/
def edgesOf (c : Catalog) (r : Package) : List Package :=
  match c.answer r with
  | .ok m => edgePackages m
  | .error _ => []

/-- The catalog is stable, and what is asked for from the root has plain names. -/
structure Regular (c : Catalog) (root : Package) : Prop where
  stable : c.Stable
  plain : ∀ p, c.Asked root p → Package.Plain p.name

variable {c : Catalog} {root p q r : Package} {m : Manifest}

/-! ## Edges -/

/-- A package that an edge leads to was made from the edge's name and range. -/
theorem make_of_edgePackage? {name range : String} (h : edgePackage? name range = some q) :
    Package.make name (Specifier.ofEdge range) = .ok q := by
  unfold edgePackage? at h
  cases hmake : Package.make name (Specifier.ofEdge range) with
  | error e =>
    rw [hmake] at h
    cases h
  | ok p =>
    rw [hmake] at h
    cases h
    rfl

/-- The names of the dependencies that are asked for are declared, in the same order. -/
theorem names_edgePackages (m : Manifest) :
    ((edgePackages m).map (·.name)).Sublist (m.dependencies.map Prod.fst) := by
  unfold edgePackages
  induction m.dependencies with
  | nil => exact .slnil
  | cons d deps ih =>
    obtain ⟨name, range⟩ := d
    rw [List.map_cons]
    cases hedge : edgePackage? name range with
    | none =>
      simp only [List.filterMap_cons, hedge]
      exact ih.cons name
    | some q =>
      have hname : q.name = name := (Package.nonblank_of_make (make_of_edgePackage? hedge)).1
      simp only [List.filterMap_cons, hedge, List.map_cons, hname]
      exact ih.cons_cons name

/-- A manifest asks for each name once. -/
theorem nodup_names (c : Catalog) (h : c.answer p = .ok m) :
    ((edgePackages m).map (·.name)).Nodup :=
  (c.distinct p m h).sublist (names_edgePackages m)

/-- A manifest leads to no package twice. -/
theorem nodup_edgePackages (c : Catalog) (h : c.answer p = .ok m) : (edgePackages m).Nodup :=
  (c.nodup_names h).of_map _

/-! ## Names -/

/-- A dependency is never declared under a blank name. -/
theorem regular_of_nonblank (hc : c.Stable) (hroot : Text.isBlankText root.name = false)
    (hseparator : ∀ p, c.Asked root p → '@' ∉ p.name.toList.tail) : c.Regular root := by
  refine ⟨hc, fun p h => ⟨Package.toList_ne_nil_of_nonblank ?_, hseparator p h⟩⟩
  cases h with
  | root => exact hroot
  | edge _ _ hq =>
    obtain ⟨⟨name, range⟩, -, hedge⟩ := List.mem_filterMap.mp hq
    exact (Package.nonblank_of_make (make_of_edgePackage? hedge)).2.2

theorem Regular.plain_resolved (hc : c.Regular root) (h : c.Asked root p) (m : Manifest) :
    Package.Plain (resolvedPackage p m).name := by
  rw [resolvedPackage_name]
  exact hc.plain p h

/-- A version that is resolved to is the one of the package, under its own name. -/
theorem withVersion_resolved (p : Package) (m : Manifest) :
    p.withVersion (resolvedPackage p m).version = resolvedPackage p m := by
  unfold resolvedPackage
  split <;> rfl

/-! ## Stability -/

/-- A package that was resolved to is answered for itself, with the same dependencies. -/
theorem Stable.again (hc : c.Stable) (h : c.answer p = .ok m) :
    ∃ m', c.answer (resolvedPackage p m) = .ok m' ∧ edgePackages m' = edgePackages m ∧
      resolvedPackage (resolvedPackage p m) m' = resolvedPackage p m := by
  by_cases hempty : m.version = ""
  · -- Without a version the answer is about the package asked for.
    have hsame : resolvedPackage p m = p := by
      unfold resolvedPackage
      rw [hempty]
      rfl
    rw [hsame]
    exact ⟨m, h, rfl, hsame⟩
  · have hversion : resolvedPackage p m = p.withVersion m.version := by
      unfold resolvedPackage
      rw [if_neg (by simpa using hempty)]
    obtain ⟨m', hanswer, hdeps, hm'⟩ := hc p m h hempty
    rw [hversion]
    refine ⟨m', hanswer, ?_, ?_⟩
    · unfold edgePackages
      rw [hdeps]
    · unfold resolvedPackage
      rcases hm' with hm' | hm'
      · rw [hm', if_neg (by simpa using hempty)]
        rfl
      · rw [hm']
        rfl

/-- The dependencies in an answer are those of the package that it resolves to. -/
theorem Stable.edgesOf_resolved (hc : c.Stable) (h : c.answer p = .ok m) :
    c.edgesOf (resolvedPackage p m) = edgePackages m := by
  obtain ⟨m', hanswer, hedges, -⟩ := hc.again h
  rw [edgesOf, hanswer]
  exact hedges

theorem nodup_edgesOf (c : Catalog) (r : Package) : (c.edgesOf r).Nodup := by
  unfold edgesOf
  split
  · rename_i m hanswer
    exact c.nodup_edgePackages hanswer
  · exact List.nodup_nil

end Catalog

end PackageGate
