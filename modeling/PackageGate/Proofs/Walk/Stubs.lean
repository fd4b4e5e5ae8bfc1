import PackageGate.Proofs.Walk.Closure
import PackageGate.Proofs.Walk.Formed

/-!
# What the stubs of a walk stand for

A task that finds its key claimed leaves the package to the owner of the key, before it is known
whether the owner comes to a node. So a stub may stand for a node of the tree, or for a request
that has failed or was answered otherwise.

- `Tree.Represents`: a node that is no stub has a key.
- `Walk.Settled.represents_iff`: which keys are represented.
- `Walk.Settled.settle_stub`, `Walk.Settled.stub_mem`: a settled stub has a claimed key.
- `Walk.Settled.refused_listed_iff`: when the key of a failed request is listed.
-/

namespace PackageGate

/-- A node of the tree that is no stub has the key. -/
def Tree.Represents (t : Tree) (key : String) : Prop := ∃ p ∈ t.expanded, p.key = key

namespace Walk

/-- The names that are asked for are plain. -/
def PlainNames (log : Multiset Entry) : Prop := ∀ x ∈ log, Package.Plain x.asked.name

variable {root p : Package} {log : Multiset Entry} {visits : Visits} {w : Walk} {x : Entry}
  {key : String} {m : Manifest} {e : Failure} {t : Tree}

/-! ## Nodes of their own -/

/-- The tree expands what the history tells of. -/
theorem expanded_eq (ht : t.nodes = log.bind Entry.nodes) :
    (w.settle t).expanded = log.bind Entry.expands := by
  rw [settle, Tree.expanded_resolveStubs, Tree.expanded, ht, Multiset.filterMap_bind]
  exact Multiset.bind_congr fun y _ => expands_eq_filterMap y

/-- A key is represented exactly when it was claimed and not spurned. -/
theorem Settled.represents_iff (h : Settled root log w.visits)
    (ht : t.nodes = log.bind Entry.nodes) :
    (w.settle t).Represents key ↔ key ∈ w.visits.keys ∧ ¬Spurned log key := by
  have hexpanded : (w.settle t).Represents key ↔ ∃ m, Expanded log key m := by
    rw [Tree.Represents, expanded_eq ht]
    constructor
    · rintro ⟨r, hr, hkey⟩
      obtain ⟨x, hx, hr⟩ := Multiset.mem_bind.mp hr
      obtain ⟨m, hexp⟩ := Entry.mem_expands.mp hr
      exact ⟨m, x, hx, r, hexp, hkey⟩
    · rintro ⟨m, x, hx, r, hexp, hkey⟩
      exact ⟨r, mem_bind_expands hx hexp, hkey⟩
  rw [hexpanded]
  constructor
  · rintro ⟨m, hexp⟩
    have hkey := h.expanded_mem hexp
    exact ⟨hkey, (h.expanded_iff_of_mem hkey).mp ⟨m, hexp⟩⟩
  · rintro ⟨hkey, hnot⟩
    exact (h.expanded_iff_of_mem hkey).mpr hnot

/-! ## Stubs -/

/-- A stub is what was left to the owner of a key. -/
theorem Entry.left_of_mem_nodes (h : (p, true) ∈ x.nodes) : x.left? = some p := by
  cases x with
  | refused => exact absurd h (Multiset.notMem_zero _)
  | kept | landed =>
    obtain ⟨-, hstub⟩ := Prod.mk.inj (Multiset.mem_singleton.mp h)
    cases hstub
  | found | met =>
    obtain ⟨hp, -⟩ := Prod.mk.inj (Multiset.mem_singleton.mp h)
    rw [hp]
    rfl

theorem Entry.mem_nodes_of_left (h : x.left? = some p) : (p, true) ∈ x.nodes := by
  cases x with
  | refused | kept | landed => cases h
  | found | met =>
    cases h
    exact Multiset.mem_singleton_self _

theorem PlainNames.left (h : PlainNames log) (hx : x ∈ log) (hp : x.left? = some p) :
    Package.Plain p.name := by
  have hasked := h x hx
  cases x with
  | refused | kept | landed => cases hp
  | found =>
    cases hp
    exact hasked
  | met =>
    cases hp
    rw [resolvedPackage_name]
    exact hasked

/-- A stub keeps its version, or gets the one that a request for it was answered with. -/
theorem Settled.settle_stub (h : Settled root log visits) (hplain : PlainNames log)
    (hp : Package.Plain p.name) : Tree.settleNode visits.resolution? (p, true) = (p, true) ∨
      ∃ m, (.landed p m ∈ log ∨ .met p m ∈ log) ∧
        Tree.settleNode visits.resolution? (p, true) = (resolvedPackage p m, true) := by
  cases hv : visits.resolution? p.key with
  | none =>
    left
    rw [Tree.settleNode, hv]
    rfl
  | some version =>
    right
    obtain ⟨q, m, hother, hkey, rfl⟩ := h.resolution_told hv
    have hq : Package.Plain q.name := by
      rcases hother with hx | hx <;> exact hplain _ hx
    obtain rfl : q = p := Package.key_inj hq hp hkey
    refine ⟨m, hother, ?_⟩
    rw [Tree.settleNode, hv, Option.map_some, Option.getD_some, Catalog.withVersion_resolved]

/-- The key of a settled stub is claimed. -/
theorem Settled.stub_mem (h : Settled root log w.visits) (hplain : PlainNames log)
    (ht : t.nodes = log.bind Entry.nodes) (hp : (p, true) ∈ (w.settle t).nodes) :
    p.key ∈ w.visits.keys := by
  rw [settle, Tree.nodes_resolveStubs, ht] at hp
  obtain ⟨⟨q, s⟩, hmem, hq⟩ := Multiset.mem_map.mp hp
  cases s with
  | false => cases hq
  | true =>
    obtain ⟨x, hx, hnode⟩ := Multiset.mem_bind.mp hmem
    have hleft := Entry.left_of_mem_nodes hnode
    rcases h.settle_stub hplain (hplain.left hx hleft) with hsame | ⟨m, hother, hsettled⟩
    · rw [hsame] at hq
      cases hq
      exact h.owned x hx _ hleft
    · rw [hsettled] at hq
      cases hq
      rcases hother with hy | hy <;> exact h.resolved_mem hy rfl

/-! ## Failed requests -/

/-- A request that has failed has spurned its key. -/
theorem spurned_of_refused (hx : .refused p e ∈ log) : Spurned log p.key :=
  ⟨_, hx, rfl, rfl, nofun⟩

/-- Nothing else becomes of a key whose request has failed. -/
theorem Settled.eq_of_refused (h : Settled root log visits) (hx : .refused p e ∈ log)
    {y : Entry} (hy : y ∈ log) (hkey : p.key ∈ y.claims) : y = .refused p e :=
  h.owner_unique hy hx hkey (Multiset.mem_singleton_self _)

/-- No version is remembered for a key whose request has failed. -/
theorem Settled.resolution_refused (h : Settled root log visits) (hx : .refused p e ∈ log) :
    visits.resolution? p.key = none := by
  cases hv : visits.resolution? p.key with
  | none => rfl
  | some version =>
    obtain ⟨q, m, hother, hkey, -⟩ := h.resolution_told hv
    rcases hother with hy | hy <;> cases h.eq_of_refused hx hy (hkey ▸ Entry.asked_mem_claims rfl)

/-- The key of a failed request is listed exactly when another task left the package to the
failing one. -/
theorem Settled.refused_listed_iff (h : Settled root log w.visits) (hplain : PlainNames log)
    (ht : t.nodes = log.bind Entry.nodes) (hx : .refused p e ∈ log) :
    p.key ∈ (w.settle t).flatten ↔ ∃ y ∈ log, ∃ q, y.left? = some q ∧ q.key = p.key := by
  rw [mem_flatten_iff ht]
  constructor
  · rintro ⟨y, hy, ⟨q, s⟩, hnode, hkey⟩
    cases s with
    | false =>
      -- A node of its own would own the key.
      have hrepresented : (w.settle t).Represents p.key := by
        refine ⟨q, ?_, hkey⟩
        rw [settle, Tree.expanded_resolveStubs, Tree.mem_expanded, ht]
        exact Multiset.mem_bind.mpr ⟨y, hy, hnode⟩
      exact absurd (spurned_of_refused hx) ((h.represents_iff ht).mp hrepresented).2
    | true =>
      have hleft := Entry.left_of_mem_nodes hnode
      rcases h.settle_stub hplain (hplain.left hy hleft) with hsame | ⟨m, hother, hsettled⟩
      · rw [hsame] at hkey
        exact ⟨y, hy, q, hleft, hkey⟩
      · rw [hsettled] at hkey
        rcases hother with hz | hz
        · have hclaims : p.key ∈ (Entry.landed q m).claims :=
            hkey ▸ Entry.expanded_mem_claims (h.rightly _ hz) rfl
          cases h.eq_of_refused hx hz hclaims
        · exact ⟨_, hz, _, rfl, hkey⟩
  · rintro ⟨y, hy, q, hleft, hkey⟩
    refine ⟨y, hy, (q, true), Entry.mem_nodes_of_left hleft, ?_⟩
    rw [Tree.settleNode, hkey, h.resolution_refused hx]
    exact hkey

end Walk

end PackageGate
