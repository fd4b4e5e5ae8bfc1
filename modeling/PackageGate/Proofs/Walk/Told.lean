import Mathlib.Data.Set.Finite.Basic
import PackageGate.Proofs.Catalog
import PackageGate.Proofs.Walk.Trees

/-!
# Walks of a catalog

When the answers of a walk are those of a catalog, its tasks visit only what is asked for
from the root, and the packages that it expands are different ones. So it starts no more
tasks than the packages found from the root declare dependencies.

- `Walk.Told`, `Walk.Told.move`: the answers are those of a catalog, now and after a move.
- `Walk.Entry.expands`, `Walk.Entry.failures`: the packages that are expanded or fail.
- `Catalog.expansions`, `Catalog.failures`: those that there are for a root.
- `Walk.Told.card_edges_le`: the bound on the tasks.
-/

namespace PackageGate

namespace Walk

/-- The packages that an entry expands: one or none. -/
def Entry.expands (x : Entry) : Multiset Package :=
  match x.expanded? with
  | some (r, _) => {r}
  | none => 0

/-- The packages whose request has failed: one or none. -/
def Entry.failures : Entry → Multiset Package
  | refused p _ => {p}
  | _ => 0

/-- The history tells the answers of a catalog, and all packages are asked for from the
root. -/
structure Told (c : Catalog) (root : Package) (log : Multiset Entry) (w : Walk) : Prop where
  faithful : ∀ x ∈ log, x.Faithful c.answer
  asked : ∀ x ∈ log, c.Asked root x.asked
  tasks : ∀ u ∈ w.bag, c.Asked root u.package

variable {c : Catalog} {root p r : Package} {m : Manifest} {log : Multiset Entry} {w w' : Walk}
  {l : Label} {x : Entry} {note : Option Entry}

/-! ## Entries of a catalog -/

theorem Entry.expands_of_expanded (h : x.expanded? = some (r, m)) : x.expands = {r} := by
  rw [expands, h]

/-- An entry expands the package it tells of. -/
theorem Entry.mem_expands : r ∈ x.expands ↔ ∃ m, x.expanded? = some (r, m) := by
  cases h : x.expanded? with
  | none =>
    rw [expands, h]
    constructor
    · intro hmem
      exact absurd hmem (Multiset.notMem_zero r)
    · rintro ⟨m, hm⟩
      cases hm
  | some found =>
    obtain ⟨r', m'⟩ := found
    rw [expands_of_expanded h, Multiset.mem_singleton]
    constructor
    · rintro rfl
      exact ⟨m', rfl⟩
    · rintro ⟨m, hm⟩
      cases hm
      rfl

/-- The package that an entry expands was asked for, or is the version behind it. -/
theorem Entry.Faithful.expanded (hx : x.Faithful c.answer) (h : x.expanded? = some (r, m)) :
    c.answer x.asked = .ok m ∧ r = resolvedPackage x.asked m := by
  cases x with
  | found | refused | met => cases h
  | kept p m' | landed p m' =>
    cases h
    exact ⟨(hx _ rfl).symm, rfl⟩

/-- A faithful entry has the edges that the catalog gives to what it expands. -/
theorem Entry.Faithful.edges_eq (hc : c.Stable) (hx : x.Faithful c.answer) :
    x.edges = x.expands.bind fun r => (c.edgesOf r : Multiset Package) := by
  cases h : x.expanded? with
  | none =>
    rw [Entry.edges, Entry.expands, h]
    rfl
  | some found =>
    obtain ⟨r, m⟩ := found
    obtain ⟨hanswer, rfl⟩ := hx.expanded h
    rw [Entry.edges, expands_of_expanded h, Multiset.singleton_bind, hc.edgesOf_resolved hanswer, h]

/-- A catalog has distinct names below each package. -/
theorem Entry.Faithful.distinct (hx : x.Faithful c.answer) : x.Distinct := by
  intro r m h
  obtain ⟨hanswer, -⟩ := hx.expanded h
  exact c.nodup_names hanswer

/-! ## What is expanded is expanded once -/

theorem bind_le_bind {α : Type} {f g : Entry → Multiset α} (h : ∀ x ∈ log, f x ≤ g x) :
    log.bind f ≤ log.bind g := by
  induction log using Multiset.induction with
  | empty => exact le_refl _
  | cons x log ih =>
    rw [Multiset.cons_bind, Multiset.cons_bind]
    have hx := h x (Multiset.mem_cons_self x log)
    have hlog := ih fun y hy => h y (Multiset.mem_cons_of_mem hy)
    exact add_le_add hx hlog

theorem Accounts.nodup_claims (h : Accounts root log w) : (log.bind Entry.claims).Nodup := by
  have hnodup := Multiset.coe_nodup.mpr h.distinct
  rw [h.claims] at hnodup
  exact (Multiset.nodup_add.mp hnodup).2.1

/-- The key of an expanded package is claimed by the entry that expands it. -/
theorem keys_expands_le (hr : ∀ x ∈ log, x.Rightly) :
    (log.bind Entry.expands).map Package.key ≤ log.bind Entry.claims := by
  rw [Multiset.map_bind]
  refine bind_le_bind fun x hx => ?_
  have hrightly := hr x hx
  cases x with
  | found | refused | met => exact Multiset.zero_le _
  | kept p m =>
    show ({(resolvedPackage p m).key} : Multiset String) ≤ {p.key}
    have hkey : (resolvedPackage p m).key = p.key := hrightly
    rw [hkey]
  | landed p m => exact Multiset.le_cons_self _ _

/-- What is expanded has different keys. -/
theorem nodup_keys_expands (hclaims : (log.bind Entry.claims).Nodup)
    (hr : ∀ x ∈ log, x.Rightly) : ((log.bind Entry.expands).map Package.key).Nodup :=
  Multiset.nodup_of_le (keys_expands_le hr) hclaims

/-- No package is expanded twice. -/
theorem nodup_expands (hclaims : (log.bind Entry.claims).Nodup) (hr : ∀ x ∈ log, x.Rightly) :
    (log.bind Entry.expands).Nodup :=
  (nodup_keys_expands hclaims hr).of_map _

theorem nodup_failures (hclaims : (log.bind Entry.claims).Nodup) :
    (log.bind Entry.failures).Nodup := by
  have hle : (log.bind Entry.failures).map Package.key ≤ log.bind Entry.claims := by
    rw [Multiset.map_bind]
    refine bind_le_bind fun x _ => ?_
    cases x with
    | found | kept | landed | met => exact Multiset.zero_le _
    | refused p e => exact le_refl _
  exact (Multiset.nodup_of_le hle hclaims).of_map _

end Walk

namespace Catalog

variable {c : Catalog} {root p r : Package}

open Walk

/-- The package that a request is answered with, if it does not fail. -/
def found? (c : Catalog) (p : Package) : Option Package :=
  match c.answer p with
  | .ok m => some (resolvedPackage p m)
  | .error _ => none

/-- The packages that are found from a root. -/
noncomputable def expansions (hfinite : {p | c.Asked root p}.Finite) : Multiset Package :=
  (hfinite.toFinset.val.filterMap c.found?).dedup

/-- The packages that are asked for in vain. -/
noncomputable def failures (hfinite : {p | c.Asked root p}.Finite) : Multiset Package :=
  hfinite.toFinset.val.filter fun p => c.found? p = none

variable {hfinite : {p | c.Asked root p}.Finite}

theorem found?_eq_some :
    c.found? p = some r ↔ ∃ m, c.answer p = .ok m ∧ r = resolvedPackage p m := by
  unfold found?
  cases c.answer p with
  | error e =>
    constructor
    · intro h
      cases h
    · rintro ⟨m, hm, -⟩
      cases hm
  | ok m =>
    constructor
    · intro h
      cases h
      exact ⟨m, rfl, rfl⟩
    · rintro ⟨m', hm', rfl⟩
      cases hm'
      rfl

theorem found?_eq_none : c.found? p = none ↔ ∃ e, c.answer p = .error e := by
  unfold found?
  cases c.answer p with
  | error e => exact ⟨fun _ => ⟨e, rfl⟩, fun _ => rfl⟩
  | ok m =>
    constructor
    · intro h
      cases h
    · rintro ⟨e, he⟩
      cases he

/-- The expansions are what the requests are answered with. -/
theorem mem_expansions : r ∈ expansions hfinite ↔
    ∃ p m, c.Asked root p ∧ c.answer p = .ok m ∧ r = resolvedPackage p m := by
  unfold expansions
  rw [Multiset.mem_dedup, Multiset.mem_filterMap]
  constructor
  · rintro ⟨p, hp, hfound⟩
    obtain ⟨m, hanswer, hr⟩ := found?_eq_some.mp hfound
    exact ⟨p, m, hfinite.mem_toFinset.mp hp, hanswer, hr⟩
  · rintro ⟨p, m, hp, hanswer, hr⟩
    exact ⟨p, hfinite.mem_toFinset.mpr hp, found?_eq_some.mpr ⟨m, hanswer, hr⟩⟩

theorem mem_failures : p ∈ failures hfinite ↔ c.Asked root p ∧ ∃ e, c.answer p = .error e := by
  unfold failures
  rw [Multiset.mem_filter, found?_eq_none]
  exact and_congr_left fun _ => hfinite.mem_toFinset

theorem nodup_expansions : (expansions hfinite).Nodup := Multiset.nodup_dedup _

theorem nodup_failures : (failures hfinite).Nodup := hfinite.toFinset.nodup.filter _

/-- The number of dependencies that the packages found from a root declare. -/
noncomputable def breadth (hfinite : {p | c.Asked root p}.Finite) : Nat :=
  ((expansions hfinite).bind fun r => (c.edgesOf r : Multiset Package)).card

end Catalog

namespace Walk

variable {c : Catalog} {root : Package} {log : Multiset Entry} {w w' : Walk} {l : Label}
  {note : Option Entry}

/-! ## Along a walk -/

theorem Told.ofRoot (c : Catalog) (root : Package) : Told c root 0 (ofRoot root) where
  faithful := nofun
  asked := nofun
  tasks u hu := by
    obtain rfl := List.mem_singleton.mp hu
    exact .root

/-- What a move changes in the packages of the tasks: it starts tasks for what an answer
depends on. -/
theorem Move.packages (hmove : Move w w' l note) : ∀ y ∈ w'.bag,
    (∃ u ∈ w.bag, y.package = u.package) ∨
      ∃ u ∈ w.bag, ∃ x m, note = some x ∧ x.asked = u.package ∧ x.answer? = some (.ok m) ∧
        y.package ∈ edgePackages m := by
  intro y hy
  cases hmove with
  | @claim u _ hbag _ _ hbag' _ _ | @find u _ hbag _ _ hbag' _ _ | @send u _ hbag _ hbag' _ _
  | @refuse u _ _ _ hbag _ hbag' _ _ | @meet u _ _ hbag _ _ _ hbag' _ _
  | @finish u _ _ hbag _ _ hbag' _ _ =>
    rw [hbag'] at hy
    rw [hbag]
    rcases Multiset.mem_cons.mp hy with rfl | hy
    · exact .inl ⟨u, Multiset.mem_cons_self _ _, rfl⟩
    · exact .inl ⟨y, Multiset.mem_cons_of_mem hy, rfl⟩
  | @keep u _ m hbag _ _ hbag' _ _ | @land u _ m hbag _ _ _ hbag' _ _ =>
    rw [hbag'] at hy
    rw [hbag]
    rcases Multiset.mem_cons.mp hy with rfl | hy
    · exact .inl ⟨u, Multiset.mem_cons_self _ _, rfl⟩
    · rcases Multiset.mem_add.mp hy with hy | hy
      · exact .inl ⟨y, Multiset.mem_cons_of_mem hy, rfl⟩
      · obtain ⟨-, -, -, hpackage, -⟩ := mem_children hy
        exact .inr ⟨u, Multiset.mem_cons_self _ _, _, m, rfl, rfl, rfl, hpackage⟩
  | @join u v _ _ _ hbag _ _ _ hbag' _ _ =>
    rw [hbag'] at hy
    rw [hbag]
    rcases Multiset.mem_cons.mp hy with rfl | hy
    · exact .inl ⟨v, Multiset.mem_cons_of_mem (Multiset.mem_cons_self _ _), rfl⟩
    · exact .inl ⟨y, Multiset.mem_cons_of_mem (Multiset.mem_cons_of_mem hy), rfl⟩

/-- The entry that a move adds is about the package of a task. -/
theorem Move.asked_note (hmove : Move w w' l note) {x : Entry} (hx : note = some x) :
    ∃ u ∈ w.bag, x.asked = u.package := by
  cases hmove with
  | claim | send | join | finish => cases hx
  | @find u _ hbag | @refuse u _ _ _ hbag | @keep u _ _ hbag | @land u _ _ hbag
  | @meet u _ _ hbag =>
    cases hx
    refine ⟨u, ?_, rfl⟩
    rw [hbag]
    exact Multiset.mem_cons_self _ _

/-- A move that tells an answer of the catalog keeps to what is asked for. -/
theorem Told.move (h : Told c root log w) (hmove : Move w w' l note)
    (hnote : ∀ x, note = some x → x.Faithful c.answer) : Told c root (extend log note) w' := by
  refine ⟨?_, ?_, ?_⟩
  · -- Only the new entry tells an answer that was not told before.
    cases hx : note with
    | none => exact h.faithful
    | some x =>
      intro y hy
      rcases Multiset.mem_cons.mp hy with rfl | hy
      · exact hnote y hx
      · exact h.faithful y hy
  · cases hx : note with
    | none => exact h.asked
    | some x =>
      intro y hy
      rcases Multiset.mem_cons.mp hy with rfl | hy
      · obtain ⟨u, hu, hasked⟩ := hmove.asked_note hx
        rw [hasked]
        exact h.tasks u hu
      · exact h.asked y hy
  · intro y hy
    rcases hmove.packages y hy with ⟨u, hu, hpackage⟩ | ⟨u, hu, x, m, hx, hasked, hans, hedge⟩
    · rw [hpackage]
      exact h.tasks u hu
    · have hanswer : c.answer u.package = .ok m := by
        rw [← hasked]
        exact (hnote x hx _ hans).symm
      exact (h.tasks u hu).edge hanswer hedge

/-! ## The bound -/

/-- The edges of the history are those of the packages it expands. -/
theorem Told.edges_eq (h : Told c root log w) (hc : c.Stable) :
    log.bind Entry.edges =
      (log.bind Entry.expands).bind fun r => (c.edgesOf r : Multiset Package) := by
  rw [Multiset.bind_assoc]
  exact Multiset.bind_congr fun x hx => (h.faithful x hx).edges_eq hc

/-- What is expanded is found from the root. -/
theorem Told.expands_subset (h : Told c root log w) (hfinite : {p | c.Asked root p}.Finite) :
    log.bind Entry.expands ⊆ Catalog.expansions hfinite := by
  intro r hr
  obtain ⟨x, hx, hr⟩ := Multiset.mem_bind.mp hr
  obtain ⟨m, hexp⟩ := Entry.mem_expands.mp hr
  obtain ⟨hanswer, hr⟩ := (h.faithful x hx).expanded hexp
  exact Catalog.mem_expansions.mpr ⟨x.asked, m, h.asked x hx, hanswer, hr⟩

/-- A walk declares no more dependencies than there are. -/
theorem Told.card_edges_le (h : Told c root log w) (ha : Accounts root log w) (hc : c.Stable)
    (hfinite : {p | c.Asked root p}.Finite) :
    (log.bind Entry.edges).card ≤ Catalog.breadth hfinite := by
  -- Without repetition, a part of a bag is not larger than the bag.
  have hle : log.bind Entry.expands ≤ Catalog.expansions hfinite :=
    (Multiset.le_iff_subset (nodup_expands ha.nodup_claims ha.rightly)).mpr
      (h.expands_subset hfinite)
  obtain ⟨rest, hrest⟩ := Multiset.le_iff_exists_add.mp hle
  rw [h.edges_eq hc, Catalog.breadth, hrest, Multiset.add_bind, Multiset.card_add]
  exact Nat.le_add_right _ _

end Walk

end PackageGate
