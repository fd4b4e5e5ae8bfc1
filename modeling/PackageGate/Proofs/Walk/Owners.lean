import PackageGate.Proofs.Walk.Accounts

/-!
# Who owns a key

When a walk is through, every claimed key has one owner in the history: the entry that
tells what became of the request for it, or of another request that landed on it. This
owner alone decides whether the package behind the key is expanded.

- `Walk.Settled`: the accounts of a walk that is through.
- `Walk.Settled.owner_unique`: a key has one owner.
- `Walk.Spurned`: the request for a key was made and was not answered with that key.
- `Walk.Settled.expanded_iff_of_mem`: a key that is claimed is expanded exactly when it was
  not spurned.
- `Walk.Settled.visited_iff`: the keys that are visited.
- `Walk.Settled.resolution_told`: the versions behind keys.
-/

namespace PackageGate

namespace Walk

/-- The accounts of a walk of `root` that is through. -/
structure Settled (root : Package) (log : Multiset Entry) (visits : Visits) : Prop where
  claims : (visits.keys : Multiset String) = log.bind Entry.claims
  distinct : visits.keys.Nodup
  visitors : root ::ₘ log.bind Entry.edges = log.map Entry.asked
  resolutions : (visits.resolutions : Multiset (String × String)) = log.bind Entry.resolutions
  rightly : ∀ x ∈ log, x.Rightly
  owned : ∀ x ∈ log, ∀ p, x.left? = some p → p.key ∈ visits.keys

/-- The request for `key` was made, and was not answered with a package of that key. -/
def Spurned (log : Multiset Entry) (key : String) : Prop :=
  ∃ x ∈ log, x.asked.key = key ∧ x.answer?.isSome ∧ ∀ r, x.resolved? = some r → r.key ≠ key

/-- A package with the key `key` was expanded, with the manifest `m`. -/
def Expanded (log : Multiset Entry) (key : String) (m : Manifest) : Prop :=
  ∃ x ∈ log, ∃ r, x.expanded? = some (r, m) ∧ r.key = key

variable {root : Package} {log : Multiset Entry} {visits : Visits} {w : Walk} {x y : Entry}
  {key : String}

/-- A walk that is through has settled its keys. -/
theorem Accounts.settled (h : Accounts root log w) {r : Except Failure Tree}
    (hr : w.result? = some r) : Settled root log w.visits := by
  obtain ⟨u, hbag, hphase⟩ := h.alone hr
  have hclaimed : w.bag.bind Task.claimed = 0 := by
    rw [hbag, Multiset.singleton_bind]
    simp only [Task.claimed, hphase]
  have hwaiting : w.bag.bind Task.waiting = 0 := by
    rw [hbag, Multiset.singleton_bind]
    simp only [Task.waiting, hphase]
  refine ⟨?_, h.distinct, ?_, h.resolutions, h.rightly, h.owned⟩
  · rw [h.claims, hclaimed, zero_add]
  · rw [h.visitors, hwaiting, zero_add]

/-! ## Entries -/

theorem Entry.asked_mem_claims (h : x.answer?.isSome) : x.asked.key ∈ x.claims := by
  cases x with
  | found => cases h
  | refused | kept | met => exact Multiset.mem_singleton_self _
  | landed =>
    rw [Entry.claims_landed]
    exact Multiset.mem_cons_self _ _

theorem Entry.expanded_mem_claims {r : Package} {m : Manifest} (hx : x.Rightly)
    (h : x.expanded? = some (r, m)) : r.key ∈ x.claims := by
  cases x with
  | found | refused | met => cases h
  | kept p =>
    cases h
    exact Multiset.mem_singleton.mpr hx
  | landed p =>
    cases h
    rw [Entry.claims_landed]
    exact Multiset.mem_cons_of_mem (Multiset.mem_singleton_self _)

theorem Entry.resolved_of_expanded {r : Package} {m : Manifest} (h : x.expanded? = some (r, m)) :
    x.resolved? = some r := by
  cases x <;> cases h <;> rfl

/-- The owner of a key was asked for it, or was expanded under it. -/
theorem Entry.mem_claims (h : key ∈ x.claims) :
    (x.answer?.isSome ∧ x.asked.key = key) ∨ ∃ r m, x.expanded? = some (r, m) ∧ r.key = key := by
  cases x with
  | found => exact absurd h (Multiset.notMem_zero _)
  | refused p | kept p | met p => exact .inl ⟨rfl, (Multiset.mem_singleton.mp h).symm⟩
  | landed p m =>
    rw [Entry.claims_landed] at h
    rcases Multiset.mem_cons.mp h with heq | h
    · exact .inl ⟨rfl, heq.symm⟩
    · exact .inr ⟨_, m, rfl, (Multiset.mem_singleton.mp h).symm⟩

/-! ## Owners -/

/-- No key is claimed by two entries. -/
theorem Settled.nodup_claims (h : Settled root log visits) : (log.bind Entry.claims).Nodup := by
  rw [← h.claims]
  exact Multiset.coe_nodup.mpr h.distinct

/-- The keys that were visited are those that entries have claimed. -/
theorem Settled.mem_keys_iff (h : Settled root log visits) :
    key ∈ visits.keys ↔ ∃ x ∈ log, key ∈ x.claims := by
  rw [← Multiset.mem_coe, h.claims, Multiset.mem_bind]

/-- A key has one owner. -/
theorem Settled.owner_unique (h : Settled root log visits) (hx : x ∈ log) (hy : y ∈ log)
    (hkx : key ∈ x.claims) (hky : key ∈ y.claims) : x = y := by
  by_contra hne
  obtain ⟨rest, rfl⟩ := Multiset.exists_cons_of_mem hx
  have hy' : y ∈ rest := by
    rcases Multiset.mem_cons.mp hy with heq | hy
    · exact absurd heq.symm hne
    · exact hy
  have hnodup := h.nodup_claims
  rw [Multiset.cons_bind] at hnodup
  have hdisjoint := (Multiset.nodup_add.mp hnodup).2.2
  exact Multiset.disjoint_left.mp hdisjoint hkx (Multiset.mem_bind.mpr ⟨y, hy', hky⟩)

/-- Every package that is asked for is visited. -/
theorem Settled.asked_mem (h : Settled root log visits) (hx : x ∈ log) :
    x.asked.key ∈ visits.keys := by
  cases hans : x.answer? with
  | none =>
    cases x with
    | found p => exact h.owned _ hx p rfl
    | _ => cases hans
  | some reply =>
    have hsome : x.answer?.isSome := by
      rw [hans]
      rfl
    exact h.mem_keys_iff.mpr ⟨x, hx, Entry.asked_mem_claims hsome⟩

/-- Every package that a request was answered with is visited. -/
theorem Settled.resolved_mem (h : Settled root log visits) (hx : x ∈ log) {r : Package}
    (hr : x.resolved? = some r) : r.key ∈ visits.keys := by
  cases x with
  | found | refused => cases hr
  | met p m =>
    cases hr
    exact h.owned _ hx _ rfl
  | kept p m | landed p m =>
    cases hr
    exact h.mem_keys_iff.mpr ⟨_, hx, Entry.expanded_mem_claims (h.rightly _ hx) rfl⟩

/-- The packages that are asked for are the root and the dependencies of what is expanded. -/
theorem Settled.asked_iff (h : Settled root log visits) {p : Package} :
    (∃ x ∈ log, x.asked = p) ↔
      p = root ∨ ∃ key m, Expanded log key m ∧ p ∈ edgePackages m := by
  have hmem : (∃ x ∈ log, x.asked = p) ↔ p ∈ root ::ₘ log.bind Entry.edges := by
    rw [h.visitors, Multiset.mem_map]
  rw [hmem, Multiset.mem_cons, Multiset.mem_bind]
  refine or_congr_right ?_
  constructor
  · rintro ⟨x, hx, hp⟩
    unfold Entry.edges at hp
    split at hp
    · exact ⟨_, _, ⟨x, hx, _, ‹_›, rfl⟩, Multiset.mem_coe.mp hp⟩
    · exact absurd hp (Multiset.notMem_zero _)
  · rintro ⟨key, m, ⟨x, hx, r, hr, -⟩, hp⟩
    refine ⟨x, hx, ?_⟩
    rw [Entry.edges, hr]
    exact Multiset.mem_coe.mpr hp

/-- Every dependency of an expanded package is visited. -/
theorem Settled.edge_visited (h : Settled root log visits) {m : Manifest}
    (hexp : Expanded log key m) {p : Package} (hp : p ∈ edgePackages m) : p.key ∈ visits.keys := by
  obtain ⟨x, hx, rfl⟩ := h.asked_iff.mpr (.inr ⟨key, m, hexp, hp⟩)
  exact h.asked_mem hx

/-- The key of an expanded package is claimed. -/
theorem Settled.expanded_mem (h : Settled root log visits) {m : Manifest}
    (hexp : Expanded log key m) : key ∈ visits.keys := by
  obtain ⟨x, hx, r, hexp, rfl⟩ := hexp
  exact h.mem_keys_iff.mpr ⟨x, hx, Entry.expanded_mem_claims (h.rightly x hx) hexp⟩

/-- **Who expands a package**: the package behind a key that is claimed is expanded exactly when
the key was not spurned. -/
theorem Settled.expanded_iff_of_mem (h : Settled root log visits) (hkey : key ∈ visits.keys) :
    (∃ m, Expanded log key m) ↔ ¬Spurned log key := by
  constructor
  · -- Expanding the key and spurning it both own it, so one entry would do both.
    rintro ⟨m, y, hy, r, hexp, rfl⟩ ⟨z, hz, hasked, hans, hother⟩
    have hclaims : r.key ∈ y.claims := Entry.expanded_mem_claims (h.rightly y hy) hexp
    have hclaims' : r.key ∈ z.claims := hasked ▸ Entry.asked_mem_claims hans
    obtain rfl := h.owner_unique hy hz hclaims hclaims'
    exact hother r (Entry.resolved_of_expanded hexp) rfl
  · -- The key is claimed, so it has an owner; only a spurning one would not expand it.
    intro hnot
    obtain ⟨y, hy, hclaims⟩ := h.mem_keys_iff.mp hkey
    rcases Entry.mem_claims hclaims with ⟨hans, hasked⟩ | ⟨r, m, hexp, hr⟩
    · -- The owner was asked for the key itself, so it was answered with it.
      obtain ⟨r, hr, hkey⟩ : ∃ r, y.resolved? = some r ∧ r.key = key := by
        by_contra hother
        push Not at hother
        exact hnot ⟨y, hy, hasked, hans, hother⟩
      have hrightly := h.rightly y hy
      cases y with
      | found | refused => cases hr
      | kept p m =>
        cases hr
        exact ⟨m, _, hy, _, rfl, hkey⟩
      | landed p m | met p m =>
        cases hr
        exact absurd (hkey.trans hasked.symm) hrightly
    · exact ⟨m, y, hy, r, hexp, hr⟩

/-- A key that some answer resolves to is expanded exactly when it was not spurned. -/
theorem Settled.expanded_iff (h : Settled root log visits) (hx : x ∈ log) {r : Package}
    (hr : x.resolved? = some r) : (∃ m, Expanded log r.key m) ↔ ¬Spurned log r.key :=
  h.expanded_iff_of_mem (h.resolved_mem hx hr)

/-- What is visited is the root, the dependencies of what was expanded, and what requests
were answered with. -/
theorem Settled.visited_iff (h : Settled root log visits) :
    key ∈ visits.keys ↔ key = root.key ∨
      (∃ k m, Expanded log k m ∧ ∃ p ∈ edgePackages m, p.key = key) ∨
      ∃ x ∈ log, ∃ r, x.resolved? = some r ∧ r.key = key := by
  constructor
  · intro hkey
    obtain ⟨x, hx, hclaims⟩ := h.mem_keys_iff.mp hkey
    rcases Entry.mem_claims hclaims with ⟨-, hasked⟩ | ⟨r, m, hexp, hr⟩
    · rcases h.asked_iff.mp ⟨x, hx, rfl⟩ with hroot | ⟨k, m, hexp, hp⟩
      · exact .inl (hroot ▸ hasked.symm)
      · exact .inr (.inl ⟨k, m, hexp, x.asked, hp, hasked⟩)
    · exact .inr (.inr ⟨x, hx, r, Entry.resolved_of_expanded hexp, hr⟩)
  · rintro (rfl | ⟨k, m, hexp, p, hp, rfl⟩ | ⟨x, hx, r, hr, rfl⟩)
    · obtain ⟨x, hx, hasked⟩ := h.asked_iff.mpr (.inl rfl)
      exact hasked ▸ h.asked_mem hx
    · exact h.edge_visited hexp hp
    · exact h.resolved_mem hx hr

/-! ## Versions -/

/-- A version is remembered for a key by an entry that was answered with it. -/
theorem mem_resolutions {entry : String × String} (h : entry ∈ x.resolutions) :
    ∃ m, (x = .landed x.asked m ∨ x = .met x.asked m) ∧
      entry = (x.asked.key, (resolvedPackage x.asked m).version) := by
  cases x with
  | found | refused | kept => exact absurd h (Multiset.notMem_zero _)
  | landed p m => exact ⟨m, .inl rfl, Multiset.mem_singleton.mp h⟩
  | met p m => exact ⟨m, .inr rfl, Multiset.mem_singleton.mp h⟩

/-- The version that is remembered for a key is one that a request for the key was answered
with, which was another than the one asked for. -/
theorem Settled.resolution_told (h : Settled root log visits) {version : String}
    (hv : visits.resolution? key = some version) :
    ∃ p m, (.landed p m ∈ log ∨ .met p m ∈ log) ∧ p.key = key ∧
      version = (resolvedPackage p m).version := by
  have hmem : (key, version) ∈ log.bind Entry.resolutions := by
    obtain ⟨as, bs, hentries, -⟩ := List.lookup_eq_some_iff.mp hv
    rw [← h.resolutions, hentries]
    exact Multiset.mem_coe.mpr (List.mem_append_right as List.mem_cons_self)
  obtain ⟨x, hx, hentry⟩ := Multiset.mem_bind.mp hmem
  obtain ⟨m, hother, heq⟩ := mem_resolutions hentry
  obtain ⟨hkey, hversion⟩ := Prod.mk.inj heq
  refine ⟨x.asked, m, ?_, hkey.symm, hversion⟩
  rcases hother with hother | hother
  · exact .inl (hother ▸ hx)
  · exact .inr (hother ▸ hx)

end Walk

end PackageGate
