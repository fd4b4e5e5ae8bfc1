import PackageGate.Proofs.Explorer.History
import PackageGate.Proofs.Queue.Balance
import PackageGate.Proofs.Reading
import PackageGate.Proofs.Walk.Calls
import PackageGate.Proofs.Walk.Formed

/-!
# Packages and their keys

Walks, findings and the analysis queue know a package by its key alone, and names and versions
come unchecked from manifests. A key that can be read is nevertheless the key of one package
only, so whatever is visited, analyzed or recorded under it is this package.

- `Package.Built`: the packages that the program comes by.
- `Walk.Deals`: whatever a walk deals with is built, when its root is.
- `Walk.Knows`, `Queue.Knows`: nothing in a walk or a queue is mistaken for a package.
- `Package.Identity`, `Package.identity_of_built`: what the key of a built package stands for.
-/

namespace PackageGate

namespace Package

/-- The packages that the program comes by: made from a name and a version, and perhaps taken in
another version afterwards. -/
inductive Built : Package → Prop
  | make {name version : String} {p : Package} : Package.make name version = .ok p → Built p
  | withVersion {p : Package} (version : String) : Built p → Built (p.withVersion version)

variable {p q r : Package}

theorem Built.nonblank (h : Built p) : Text.isBlankText p.name = false := by
  induction h with
  | make hmake => exact (nonblank_of_make hmake).2.2
  | withVersion _ _ ih => exact ih

theorem built_of_edgePackages {m : Manifest} (h : p ∈ Walk.edgePackages m) : Built p := by
  obtain ⟨⟨name, range⟩, -, hedge⟩ := List.mem_filterMap.mp h
  cases hmake : Package.make name (Specifier.ofEdge range) with
  | error e =>
    simp only [Walk.edgePackage?, hmake, Except.toOption, reduceCtorEq] at hedge
  | ok q =>
    simp only [Walk.edgePackage?, hmake, Except.toOption, Option.some.injEq] at hedge
    exact hedge ▸ .make hmake

/-- A built package stays built under the version that the registry answers. -/
theorem Built.resolved (h : Built p) (m : Manifest) : Built (Walk.resolvedPackage p m) := by
  unfold Walk.resolvedPackage
  split
  · exact h
  · exact h.withVersion _

/-- The key of a built package is read as no other package. -/
theorem Built.eq_of_ofSpec_key (h : Built p) (hr : ofSpec p.key = .ok r) : r = p :=
  Package.eq_of_ofSpec_key h.nonblank hr

/-- Of two built packages with one key that can be read, there is only one. -/
theorem Built.eq_of_key_eq (hp : Built p) (hq : Built q) (hkey : q.key = p.key)
    (hread : ∃ r, ofSpec p.key = .ok r) : q = p := by
  obtain ⟨r, hr⟩ := hread
  have hrp : r = p := hp.eq_of_ofSpec_key hr
  have hrq : r = q := hq.eq_of_ofSpec_key (hkey ▸ hr)
  exact hrq.symm.trans hrp

end Package

namespace Walk

/-! ## What a walk deals with -/

/-- What a walk has asked for, what its history tells of and what its tasks are about. -/
structure Deals (sent : List Package) (log : Multiset Entry) (w : Walk) : Prop where
  sparing : Sparing sent w
  formed : Formed log w
  tasks : ∀ u ∈ w.bag, u.package.Built
  sent : ∀ p ∈ sent, p.Built
  asked : ∀ x ∈ log, x.asked.Built

variable {root p : Package} {sent : List Package} {log : Multiset Entry} {w w' : Walk} {l : Label}
  {x : Option Entry} {t : Tree}

theorem Deals.ofRoot (h : root.Built) : Deals [] 0 (ofRoot root) where
  sparing := .ofRoot root
  formed := .ofRoot root
  tasks u hu := by
    obtain rfl := List.mem_singleton.mp hu
    exact h
  sent := nofun
  asked := nofun

/-- A move keeps account of what it sends and notes. -/
theorem Deals.move (h : Deals sent log w) (hmove : Move w w' l x) :
    Deals (sent ++ (w.sent? l).toList) (extend log x) w' where
  sparing := h.sparing.move hmove
  formed := h.formed.move hmove
  tasks y hy := by
    rcases hmove.packages y hy with ⟨u, hu, heq⟩ | ⟨-, -, -, m, -, -, -, hedge⟩
    · rw [heq]
      exact h.tasks u hu
    · exact Package.built_of_edgePackages hedge
  sent p hp := by
    rcases List.mem_append.mp hp with hold | hnew
    · exact h.sent p hold
    · obtain ⟨u, hu, rfl⟩ := exists_of_sent? (Option.mem_toList.mp hnew)
      exact h.tasks u hu
  asked := by
    cases hx : x with
    | none => exact h.asked
    | some x =>
      intro y hy
      rcases Multiset.mem_cons.mp hy with rfl | hy
      · obtain ⟨u, hu, hasked⟩ := hmove.asked_note hx
        rw [hasked]
        exact h.tasks u hu
      · exact h.asked y hy

theorem Deals.step {log : List Entry} (h : Deals sent log w) (hstep : w.step l = some w') :
    Deals (sent ++ (w.sent? l).toList) (log ++ (w.note? l).toList : List Entry) w' := by
  rw [Explorer.coe_append_note]
  rcases move_or_cut h.sparing.nodup hstep with hmove | hcut
  · exact h.move hmove
  · rw [hcut.silent.1, hcut.silent.2, Option.toList_none, List.append_nil]
    obtain ⟨t, rfl⟩ := hcut.exists_drop
    refine ⟨h.sparing.drop t, h.formed.drop t, fun u hu => ?_, h.sent, h.asked⟩
    obtain ⟨v, hv, -, rfl⟩ := mem_drop hu
    have hbuilt := h.tasks v hv
    split <;> exact hbuilt

theorem built_of_resolved {y : Entry} {r : Package} (h : y.asked.Built)
    (hr : y.resolved? = some r) : r.Built := by
  cases y with
  | kept | landed | met =>
    cases hr
    exact h.resolved _
  | found | refused => cases hr

/-- The nodes of an entry are about the package that was asked for, or answered with. -/
theorem built_of_nodes {y : Entry} {n : Package × Bool} (h : y.asked.Built) (hn : n ∈ y.nodes) :
    n.1.Built := by
  cases y with
  | refused => cases hn
  | found p =>
    obtain rfl := Multiset.mem_singleton.mp hn
    exact h
  | kept p m | landed p m | met p m =>
    obtain rfl := Multiset.mem_singleton.mp hn
    exact Package.Built.resolved h m

/-- The nodes of the tree that a walk comes to are built. -/
theorem Deals.built_nodes (h : Deals sent log w) (ha : Accounts root log w)
    (hr : w.result? = some (.ok t)) : ∀ n ∈ (w.settle t).nodes, n.1.Built := by
  have hnodes : ∀ n ∈ t.nodes, n.1.Built := by
    obtain ⟨u, hbag, hphase⟩ := ha.alone hr
    have hle : t.nodes ≤ log.bind Entry.nodes := by
      have hn := h.formed.nodes
      rw [hbag, Multiset.singleton_bind] at hn
      simpa only [Task.nodes, Task.tree?, hphase] using hn
    intro n hn
    obtain ⟨y, hy, hny⟩ := Multiset.mem_bind.mp (Multiset.mem_of_le hle hn)
    exact built_of_nodes (h.asked y hy) hny
  intro n hn
  rw [settle, Tree.nodes_resolveStubs] at hn
  obtain ⟨⟨q, s⟩, hq, rfl⟩ := Multiset.mem_map.mp hn
  have hbuilt : q.Built := hnodes _ hq
  -- A stub may have got another version, and is built then as well.
  cases s with
  | false => exact hbuilt
  | true =>
    show (((w.visits.resolution? q.key).map q.withVersion).getD q).Built
    cases w.visits.resolution? q.key with
    | none => exact hbuilt
    | some version => exact hbuilt.withVersion version

/-- Nothing that a walk asks for, tells of or comes to is mistaken for `p`. -/
structure Knows (p : Package) (sent : List Package) (log : List Entry) (w : Walk) : Prop where
  sent : ∀ q ∈ sent, q.key = p.key → q = p
  tasks : ∀ u ∈ w.tasks, u.package.key = p.key → u.package = p
  asked : ∀ x ∈ log, x.asked.key = p.key → x.asked = p
  resolved : ∀ x ∈ log, ∀ r, x.resolved? = some r → r.key = p.key → r = p
  /-- If the key is claimed, it is claimed for `p`. -/
  claimed : ∀ r, w.result? = some r → p.key ∈ w.visits.keys →
    ∃ x ∈ log, x.asked = p ∨ x.resolved? = some p
  /-- If the key is listed, a node of the tree is `p`. -/
  listed : ∀ t, w.result? = some (.ok t) → p.key ∈ (w.settle t).flatten →
    ∃ isStub, (p, isStub) ∈ (w.settle t).nodes

/-- A walk that keeps account knows packages by their keys. -/
theorem Deals.knows {log : List Entry} (h : Deals sent log w) (ha : w.Gone ∨ Accounts root log w)
    (hp : p.Built) (hread : ∃ r, Package.ofSpec p.key = .ok r) : Knows p sent log w := by
  have honly : ∀ {q : Package}, q.Built → q.key = p.key → q = p :=
    fun hq hkey => hp.eq_of_key_eq hq hkey hread
  -- A walk that was given up comes to nothing.
  have haccounts : ∀ {r}, w.result? = some r → Accounts root log w := by
    intro r hr
    refine ha.resolve_left fun hgone => ?_
    rw [hgone.result?_eq_none] at hr
    cases hr
  constructor
  case sent => exact fun q hq hkey => honly (h.sent q hq) hkey
  case tasks => exact fun u hu hkey => honly (h.tasks u (mem_bag.mpr hu)) hkey
  case asked => exact fun x hx hkey => honly (h.asked x hx) hkey
  case resolved => exact fun x hx r hr hkey => honly (built_of_resolved (h.asked x hx) hr) hkey
  case claimed =>
    intro r hr hkey
    obtain ⟨x, hx, hclaims⟩ := ((haccounts hr).settled hr).mem_keys_iff.mp hkey
    rcases Entry.mem_claims hclaims with ⟨-, hasked⟩ | ⟨q, m, hexpanded, hq⟩
    · exact ⟨x, hx, .inl (honly (h.asked x hx) hasked)⟩
    · have hresolved : x.resolved? = some q := Entry.resolved_of_expanded hexpanded
      refine ⟨x, hx, .inr ?_⟩
      rw [hresolved, honly (built_of_resolved (h.asked x hx) hresolved) hq]
  case listed =>
    intro t hr hkey
    obtain ⟨n, hn, hnkey⟩ := Tree.mem_flatten.mp hkey
    obtain ⟨q, isStub⟩ := n
    have hq : q = p := honly (h.built_nodes (haccounts hr) hr _ hn) hnkey
    exact ⟨isStub, hq ▸ hn⟩

end Walk

namespace Explorer

variable {e e₀ : Explorer} {ls : List Label} {root p : Package}

/-- In every run, the walk that it began with deals in built packages, if its root is one. -/
theorem deals_of_steps (hroot : root.Built) (h : Steps step (e₀.begin root) ls e) :
    ∃ w, e.walks[e₀.nextWalk]? = some w ∧ Walk.Deals ((e₀.begin root).calls e₀.nextWalk ls)
      ((e₀.begin root).history e₀.nextWalk ls : List Walk.Entry) w :=
  walk_invariant (P := fun sent log w => Walk.Deals sent (log : List Walk.Entry) w) Walk.Deals.step
    (.ofRoot hroot) h

/-- A run of the explorer knows packages by their keys. -/
theorem knows_of_steps (hroot : root.Built) (hp : p.Built)
    (hread : ∃ r, Package.ofSpec p.key = .ok r) (h : Steps step (e₀.begin root) ls e) :
    ∃ w, e.walks[e₀.nextWalk]? = some w ∧ Walk.Knows p ((e₀.begin root).calls e₀.nextWalk ls)
      ((e₀.begin root).history e₀.nextWalk ls) w := by
  obtain ⟨w, hw, hdeals⟩ := deals_of_steps hroot h
  obtain ⟨w', hw', hkept⟩ := kept_of_steps h
  obtain rfl := Option.some.inj (hw.symm.trans hw')
  exact ⟨w, hw, hdeals.knows hkept hp hread⟩

end Explorer

namespace Queue

variable {q : Queue} {as : List Act} {p : Package} {known : Findings}
  {capacity workers : Nat}

/-! ## What the queue analyzes -/

/-- What a queue that knew the findings `known` analyzes and records under the key of `p` is about
`p`. -/
structure Knows (p : Package) (known : Findings) (es : List Event) (q : Queue) : Prop where
  submitted : ∀ item r, .asked (.submit item r) ∈ es → item.key = p.key → r = p
  recorded : ∀ y ∈ q.findings.snapshot, y.key = p.key → y ∈ known.snapshot ∨
    ∃ item id reply, .ended (.judged item p id reply) ∈ es ∧ item.key = p.key ∧
      findingOf item.key p reply = some y

/-- A run of the queue knows packages by their keys. -/
theorem knows_of_acts (hp : p.Built) (hknown : known.IsSorted)
    (h : Steps act (fresh capacity workers known) as q) :
    Knows p known ((fresh capacity workers known).acts as) q := by
  have hfits : ∀ {e}, e ∈ (fresh capacity workers known).acts as →
      (∃ epoch, e.Fits epoch) ∨ ∃ item, e = .put item :=
    fun he => fits_of_acts h (valid_fresh capacity workers hknown) he
  -- A worker has read the key of its item.
  have honly : ∀ {item : Item} {r}, Package.ofSpec item.key = .ok r → item.key = p.key → r = p := by
    intro item r hread hkey
    rw [hkey] at hread
    exact hp.eq_of_ofSpec_key hread
  constructor
  case submitted =>
    intro item r he hkey
    rcases hfits he with ⟨epoch, hfit⟩ | ⟨_, heq⟩
    · exact honly hfit.2 hkey
    · cases heq
  case recorded =>
    intro y hy hkey
    have hfindings : q.findings = known.recordAll
        ((((fresh capacity workers known).acts as).flatMap Event.entries).filterMap
          Entry.finding?) := (effect_of_acts h).findings
    rw [hfindings, Findings.mem_recordAll hknown] at hy
    rcases hy with hy | ⟨-, hfind⟩
    · exact .inl hy
    · obtain ⟨x, hx, hfinding⟩ := List.mem_filterMap.mp (List.mem_of_find?_eq_some hfind)
      obtain ⟨e, he, hxe⟩ := List.mem_flatMap.mp hx
      cases x with
      | judged item r id reply =>
        obtain rfl : e = .ended (.judged item r id reply) := by
          cases e <;> simp_all [Event.entries]
        have hitem : item.key = p.key := ((findingOf_key hfinding).symm).trans hkey
        rcases hfits he with ⟨epoch, hfit⟩ | ⟨_, heq⟩
        · obtain rfl : r = p := honly hfit.2 hitem
          exact .inr ⟨item, id, reply, he, hitem, hfinding⟩
        · cases heq
      | rejected | refused | late | dropped => cases hfinding

end Queue

namespace Package

variable {p : Package}

/-- What the key of `p` stands for. -/
structure Identity (p : Package) : Prop where
  /-- It is read as `p` or as nothing. -/
  read : ofSpec p.key = .ok p ∨ ∃ why, ofSpec p.key = .error why
  read_iff : ofSpec p.key = .ok p ↔ p.Readable
  /-- If it is read at all, no other package has it. -/
  unique : ∀ q : Package, q.Built → q.key = p.key → (∃ r, ofSpec p.key = .ok r) → q = p
  /-- Then no walk of a built root mistakes anything for `p`. -/
  walk : ∀ (e₀ : Explorer) (root : Package) ls e, root.Built →
    Steps Explorer.step (e₀.begin root) ls e → (∃ r, ofSpec p.key = .ok r) →
    ∃ w, e.walks[e₀.nextWalk]? = some w ∧ Walk.Knows p ((e₀.begin root).calls e₀.nextWalk ls)
      ((e₀.begin root).history e₀.nextWalk ls) w
  /-- Nor does an analysis queue, whoever uses it. -/
  queue : ∀ capacity workers (known : Findings) as q, known.IsSorted →
    Steps Queue.act (.fresh capacity workers known) as q →
    Queue.Knows p known ((Queue.fresh capacity workers known).acts as) q

/-- **A key is a safe identity.** The key of a package that was made, or taken in another version
afterwards, is read as this package or not at all; it is read exactly when the lengths keep their
limits and no separator but that of a scope stands in it beside the one it is made with. So two
packages that share a readable key are one, wherever the program knows packages by their keys. -/
theorem identity_of_built (hp : p.Built) : Identity p where
  read := by
    cases hread : ofSpec p.key with
    | error why => exact .inr ⟨why, rfl⟩
    | ok r => exact .inl (by rw [hp.eq_of_ofSpec_key hread])
  read_iff := ofSpec_key_iff hp.nonblank
  unique q hq hkey hread := hp.eq_of_key_eq hq hkey hread
  walk e₀ root ls e hroot hsteps hread := Explorer.knows_of_steps hroot hp hread hsteps
  queue capacity workers known as q hknown hsteps := Queue.knows_of_acts hp hknown hsteps

/-- A scoped package in another version than it was made with. -/
theorem identity_of_built_scoped :
    Built ((⟨"@scope/pkg", "^1"⟩ : Package).withVersion "1.0") ∧
      Identity ((⟨"@scope/pkg", "^1"⟩ : Package).withVersion "1.0") ∧
      ofSpec "@scope/pkg@1.0" = .ok ⟨"@scope/pkg", "1.0"⟩ := by
  have hmake : make "@scope/pkg" "^1" = .ok ⟨"@scope/pkg", "^1"⟩ := by
    decide +kernel
  have hbuilt := (Built.make hmake).withVersion "1.0"
  refine ⟨hbuilt, identity_of_built hbuilt, ?_⟩
  decide +kernel

/-- Two packages may share a key that cannot be read. -/
example : Package.key ⟨"a@b", "c"⟩ = Package.key ⟨"a", "b@c"⟩ ∧
    ofSpec "a@b@c" = .error (.malformed "a@b@c" .manySeparators) := by
  decide +kernel

end Package

end PackageGate
