import Mathlib.Tactic.Abel
import PackageGate.Proofs.Walk.Moves

/-!
# The accounts of a walk

Every key that a walk has claimed is claimed by a request that is under way or by an
entry of the history, and by one of them only. Every package that was ever to be
visited (the root, and each dependency of each expanded package) waits in a task or is
the subject of an entry.

- `Walk.Accounts`: these equations, with the order of the tasks in the tree of parents.
- `Walk.Accounts.move`: every move keeps them.
- `Walk.Parented.alone`: when the root task is done, no other task is left.
-/

namespace PackageGate

namespace Walk

/-- The key that a task has claimed for a request that is not answered yet. -/
def Task.claimed (u : Task) : Multiset String :=
  match u.phase with
  | .queued | .calling => {u.package.key}
  | _ => 0

/-- The package that a task still has to visit. -/
def Task.waiting (u : Task) : Multiset Package :=
  match u.phase with
  | .spawned | .queued | .calling => {u.package}
  | _ => 0

namespace Entry

/-- The package whose visit an entry is about. -/
def asked : Entry → Package
  | found p | refused p _ | kept p _ | landed p _ | met p _ => p

/-- The answer that an entry tells of, if it tells of one. -/
def answer? : Entry → Option (Except Failure Manifest)
  | found _ => none
  | refused _ e => some (.error e)
  | kept _ m | landed _ m | met _ m => some (.ok m)

/-- The package that the request of an entry was answered with, if it was answered with one. -/
def resolved? : Entry → Option Package
  | kept p m | landed p m | met p m => some (resolvedPackage p m)
  | _ => none

/-- The package that is expanded, with its manifest, if one is. -/
def expanded? : Entry → Option (Package × Manifest)
  | kept p m | landed p m => some (resolvedPackage p m, m)
  | _ => none

/-- The keys that are claimed for good. -/
def claims : Entry → Multiset String
  | found _ => 0
  | refused p _ | kept p _ | met p _ => {p.key}
  | landed p m => p.key ::ₘ {(resolvedPackage p m).key}

theorem claims_landed (p : Package) (m : Manifest) :
    (landed p m).claims = p.key ::ₘ {(resolvedPackage p m).key} := rfl

/-- The packages that are to be visited because of an entry. -/
def edges (x : Entry) : Multiset Package :=
  match x.expanded? with
  | some (_, m) => edgePackages m
  | none => 0

/-- The version that is remembered for a key. -/
def resolutions : Entry → Multiset (String × String)
  | landed p m | met p m => {(p.key, (resolvedPackage p m).version)}
  | _ => 0

/-- The answer that an entry tells of is what `answer` gives for its package. -/
def Faithful (answer : Package → Except Failure Manifest) (x : Entry) : Prop :=
  ∀ reply, x.answer? = some reply → reply = answer x.asked

/-- An entry is told rightly: an answer is kept when it is about the key asked for, and only
then. -/
def Rightly : Entry → Prop
  | kept p m => (resolvedPackage p m).key = p.key
  | landed p m | met p m => (resolvedPackage p m).key ≠ p.key
  | _ => True

/-- The package that is left to the owner of its key. -/
def left? : Entry → Option Package
  | found p => some p
  | met p m => some (resolvedPackage p m)
  | _ => none

end Entry

theorem asked_received (w : Walk) (p : Package) : ∀ reply, (w.received p reply).asked = p
  | .error _ => rfl
  | .ok m => by
    simp only [received]
    split
    · rfl
    · split <;> rfl

theorem answer?_received (w : Walk) (p : Package) :
    ∀ reply, (w.received p reply).answer? = some reply
  | .error _ => rfl
  | .ok m => by
    simp only [received]
    split
    · rfl
    · split <;> rfl

/-- An answer that comes in with the step is one of `answers`. -/
def Obeys (answers : Package → Except Failure Manifest → Prop) (w : Walk) : Label → Prop
  | .answer t reply => ∀ u, w.task? t = some u → answers u.package reply
  | _ => True

/-- A history with one more entry, if there is one. -/
def extend (log : Multiset Entry) : Option Entry → Multiset Entry
  | some x => x ::ₘ log
  | none => log

/-- An older task of the walk waits for the task `u`. -/
def Task.Waited (w : Walk) (u : Task) : Prop :=
  ∃ v ∈ w.bag, u.parent = some v.id ∧ v.id < u.id ∧ ∃ node, v.phase = .joining node

/-- Every task but the root has an older task that waits for it. -/
def Parented (w : Walk) : Prop :=
  ∀ u ∈ w.bag, (u.id = rootId ∧ u.parent = none) ∨
    ∃ v ∈ w.bag, u.parent = some v.id ∧ v.id < u.id ∧ ∃ node, v.phase = .joining node

/-- The accounts of a walk of `root` with the history `log`. -/
structure Accounts (root : Package) (log : Multiset Entry) (w : Walk) : Prop where
  numbered : w.Numbered
  parented : w.Parented
  claims : (w.visits.keys : Multiset String) = w.bag.bind Task.claimed + log.bind Entry.claims
  distinct : w.visits.keys.Nodup
  visitors : root ::ₘ log.bind Entry.edges = w.bag.bind Task.waiting + log.map Entry.asked
  resolutions : (w.visits.resolutions : Multiset (String × String)) = log.bind Entry.resolutions
  rightly : ∀ x ∈ log, x.Rightly
  /-- What is left to the owner of a key has an owner. -/
  owned : ∀ x ∈ log, ∀ p, x.left? = some p → p.key ∈ w.visits.keys

variable {root : Package} {log : Multiset Entry} {w w' : Walk} {l : Label} {x : Option Entry}
  {y : Entry} {u v : Task}

theorem Accounts.ofRoot (root : Package) : Accounts root 0 (ofRoot root) where
  numbered := by
    refine ⟨Multiset.coe_nodup.mpr (List.nodup_singleton _), fun u hu => ?_, fun u hu => ?_⟩ <;>
      obtain rfl := List.mem_singleton.mp hu
    · exact Nat.zero_lt_one
    · rfl
  parented u hu := by
    obtain rfl := List.mem_singleton.mp hu
    exact .inl ⟨rfl, rfl⟩
  claims := rfl
  distinct := List.nodup_nil
  visitors := rfl
  resolutions := rfl
  rightly := nofun
  owned := nofun

/-- What a step adds to the history tells of the answer that has come in. -/
theorem Obeys.note {answers : Package → Except Failure Manifest → Prop} (h : w.Obeys answers l)
    (hx : w.note? l = some y) : ∀ reply, y.answer? = some reply → answers y.asked reply := by
  cases l with
  | answer t reply =>
    obtain ⟨u, htask, rfl⟩ := Option.map_eq_some_iff.mp hx
    intro r hr
    rw [answer?_received] at hr
    cases hr
    rw [asked_received]
    exact h u htask
  | start t =>
    simp only [note?] at hx
    split at hx
    · split at hx
      · cases hx
        intro r hr
        cases hr
      · cases hx
    · cases hx
  | request | join | finish | cancel | discard => cases hx

/-! ## The shape of a move -/

/-- A move changes the phase of one task, expands one, or takes one out. -/
inductive Shape (w w' : Walk) : Prop
  | turn {u : Task} {rest : Multiset Task} {phase : Phase} : w.bag = u ::ₘ rest →
    w'.bag = { u with phase } ::ₘ rest → w'.spawned = w.spawned →
    ((∀ node, u.phase ≠ .joining node) ∨ ∀ x ∈ w.bag, x.parent ≠ some u.id) →
    (∀ node, phase ≠ .joining node) → Shape w w'
  | expand {u : Task} {rest : Multiset Task} {p : Package} {m : Manifest} :
    w.bag = u ::ₘ rest → u.phase = .calling →
    w'.bag = { u with phase := .joining (.leaf p) } ::ₘ
      (rest + children u.id w.spawned (edgePackages m)) →
    w'.spawned = w.spawned + (edgePackages m).length → Shape w w'
  | join {u v : Task} {rest : Multiset Task} {result : Except Failure Tree} {node : Tree} :
    w.bag = u ::ₘ v ::ₘ rest → u.phase = .done result → u.parent = some v.id →
    v.phase = .joining node → w'.bag = { v with phase := .joining (node.accept result) } ::ₘ rest →
    w'.spawned = w.spawned → Shape w w'

/-- Every move has one of these shapes. -/
theorem Move.shape (h : Move w w' l x) : Shape w w' := by
  cases h with
  | claim hbag hphase _ hbag' _ hs | find hbag hphase _ hbag' _ hs
  | send hbag hphase hbag' _ hs | refuse hbag hphase hbag' _ hs
  | meet hbag hphase _ _ hbag' _ hs =>
    refine .turn hbag hbag' hs (.inl fun node hnode => ?_) nofun
    rw [hphase] at hnode
    cases hnode
  | finish hbag _ hnone hbag' _ hs => exact .turn hbag hbag' hs (.inr hnone) nofun
  | keep hbag hphase _ hbag' _ hs | land hbag hphase _ _ hbag' _ hs =>
    exact .expand hbag hphase hbag' hs
  | join hbag hphase hparent hjoining hbag' _ hs =>
    exact .join hbag hphase hparent hjoining hbag' hs

theorem mem_children {parent first : Nat} {ps : List Package} (h : u ∈ children parent first ps) :
    first ≤ u.id ∧ u.id < first + ps.length ∧ u.parent = some parent ∧ u.package ∈ ps ∧
      u.phase = .spawned ∧ u.aborted = false := by
  obtain ⟨⟨p, i⟩, hpi, rfl⟩ := List.mem_map.mp (Multiset.mem_coe.mp h)
  have hmem := List.mem_zipIdx hpi
  obtain ⟨hle, hlt, hp⟩ := hmem
  refine ⟨hle, by omega, rfl, ?_, rfl, rfl⟩
  show p ∈ ps
  rw [hp]
  exact List.getElem_mem _

theorem nodup_children (parent first : Nat) (ps : List Package) :
    ((children parent first ps).map (·.id)).Nodup := by
  have hids : (children parent first ps).map (·.id) =
      ((List.range' first ps.length : List Nat) : Multiset Nat) := by
    rw [children, Multiset.map_coe, List.map_map, ← List.zipIdx_map_snd]
    rfl
  rw [hids]
  exact Multiset.coe_nodup.mpr List.nodup_range'

/-- A task that a move leaves behind is an old one, perhaps in another phase, or was started
under a new number. -/
theorem Shape.task_cases (h : Shape w w') {y : Task} (hy : y ∈ w'.bag) :
    (∃ u ∈ w.bag, y.id = u.id ∧ y.parent = u.parent ∧ y.aborted = u.aborted) ∨
      ∃ u ∈ w.bag, ∃ p ps, { u with phase := .joining (.leaf p) } ∈ w'.bag ∧
        y ∈ children u.id w.spawned ps ∧ w'.spawned = w.spawned + ps.length := by
  cases h with
  | @turn u rest phase hbag hbag' hs _ _ =>
    rw [hbag'] at hy
    rcases Multiset.mem_cons.mp hy with rfl | hy
    · exact .inl ⟨u, mem_of_bag_eq hbag, rfl, rfl, rfl⟩
    · rw [hbag]
      exact .inl ⟨y, Multiset.mem_cons_of_mem hy, rfl, rfl, rfl⟩
  | @expand u rest p m hbag hphase hbag' hs =>
    rw [hbag'] at hy
    rcases Multiset.mem_cons.mp hy with rfl | hy
    · exact .inl ⟨u, mem_of_bag_eq hbag, rfl, rfl, rfl⟩
    · rcases Multiset.mem_add.mp hy with hy | hy
      · rw [hbag]
        exact .inl ⟨y, Multiset.mem_cons_of_mem hy, rfl, rfl, rfl⟩
      · exact .inr ⟨u, mem_of_bag_eq hbag, p, edgePackages m, mem_of_bag_eq hbag', hy, hs⟩
  | @join u v rest _ _ hbag _ _ _ hbag' hs =>
    rw [hbag'] at hy
    rw [hbag]
    rcases Multiset.mem_cons.mp hy with rfl | hy
    · exact .inl ⟨v, Multiset.mem_cons_of_mem (Multiset.mem_cons_self v rest), rfl, rfl, rfl⟩
    · exact .inl ⟨y, Multiset.mem_cons_of_mem (Multiset.mem_cons_of_mem hy), rfl, rfl, rfl⟩

theorem Shape.spawned_le (h : Shape w w') : w.spawned ≤ w'.spawned := by
  cases h with
  | turn _ _ hs | join _ _ _ _ _ hs => exact Nat.le_of_eq hs.symm
  | expand _ _ _ hs =>
    rw [hs]
    exact Nat.le_add_right _ _

/-- No two tasks get the same number, as long as new numbers are not in use. -/
theorem Shape.nodup (hshape : Shape w w') (hnodup : (w.bag.map (·.id)).Nodup)
    (hbelow : ∀ u ∈ w.bag, u.id < w.spawned) : (w'.bag.map (·.id)).Nodup := by
  cases hshape with
  | turn hbag hbag' =>
    rw [hbag, Multiset.map_cons] at hnodup
    rw [hbag', Multiset.map_cons]
    exact hnodup
  | @expand u rest p m hbag hphase hbag' hs =>
    have hold : ∀ i ∈ w.bag.map (·.id), i < w.spawned := by
      intro i hi
      obtain ⟨z, hz, rfl⟩ := Multiset.mem_map.mp hi
      exact hbelow z hz
    rw [hbag, Multiset.map_cons] at hnodup hold
    rw [hbag', Multiset.map_cons, Multiset.map_add, ← Multiset.cons_add]
    refine Multiset.nodup_add.mpr ⟨hnodup, nodup_children _ _ _, ?_⟩
    -- Old numbers are below `w.spawned`, new ones are not.
    rw [Multiset.disjoint_left]
    intro i hi hi'
    obtain ⟨y, hy, rfl⟩ := Multiset.mem_map.mp hi'
    obtain ⟨hle, -⟩ := mem_children hy
    have hlt := hold y.id hi
    omega
  | join hbag _ _ _ hbag' =>
    rw [hbag, Multiset.map_cons, Multiset.map_cons, Multiset.nodup_cons] at hnodup
    rw [hbag', Multiset.map_cons]
    exact hnodup.2

/-- Every number in use has been given out. -/
theorem Shape.below (hshape : Shape w w') (hbelow : ∀ u ∈ w.bag, u.id < w.spawned) :
    ∀ u ∈ w'.bag, u.id < w'.spawned := by
  intro y hy
  rcases hshape.task_cases hy with ⟨u, hu, hid, -⟩ | ⟨u, -, p, ps, -, hy, hs⟩
  · rw [hid]
    exact (hbelow u hu).trans_le hshape.spawned_le
  · rw [hs]
    exact (mem_children hy).2.1

/-- Every move gives new tasks new numbers. -/
theorem Numbered.move (hw : w.Numbered) (hshape : Shape w w') : w'.Numbered := by
  refine ⟨hshape.nodup hw.nodup hw.below, hshape.below hw.below, fun y hy => ?_⟩
  rcases hshape.task_cases hy with ⟨u, hu, -, -, haborted⟩ | ⟨u, -, p, ps, -, hy, -⟩
  · rw [haborted]
    exact hw.running u hu
  · exact (mem_children hy).2.2.2.2.2

/-- Tasks with the same number are the same. -/
theorem Numbered.eq_of_id (hw : w.Numbered) (hu : u ∈ w.bag) (hv : v ∈ w.bag)
    (hid : u.id = v.id) : u = v :=
  List.inj_on_of_nodup_map (Multiset.coe_nodup.mp hw.nodup) hu hv hid

theorem Numbered.ids_ne (hw : w.Numbered) {rest : Multiset Task} (hbag : w.bag = u ::ₘ rest) :
    ∀ y ∈ rest, y.id ≠ u.id := by
  have hnodup := hw.nodup
  rw [hbag, Multiset.map_cons, Multiset.nodup_cons] at hnodup
  intro y hy heq
  exact hnodup.1 (Multiset.mem_map.mpr ⟨y, hy, heq⟩)

/-- Only a task that waits has children. -/
theorem Parented.childless (h : w.Parented) (hw : w.Numbered) (hu : u ∈ w.bag)
    (hphase : ∀ node, u.phase ≠ .joining node) : ∀ y ∈ w.bag, y.parent ≠ some u.id := by
  intro y hy hparent
  rcases h y hy with ⟨-, hnone⟩ | ⟨v, hv, hv', -, node, hnode⟩
  · rw [hnone] at hparent
    cases hparent
  · rw [hparent] at hv'
    have huv : u = v := hw.eq_of_id hu hv (Option.some.inj hv')
    exact hphase node (huv ▸ hnode)

/-- A task goes on waiting as long as it has children. -/
theorem Shape.waits (h : Shape w w') {z : Task} (hz : z ∈ w.bag) (hv : v ∈ w.bag)
    (hparent : z.parent = some v.id) {n : Tree} (hn : v.phase = .joining n) :
    ∃ v' ∈ w'.bag, v'.id = v.id ∧ ∃ n', v'.phase = .joining n' := by
  cases h with
  | @turn u rest phase hbag hbag' hs hjoin _ =>
    have hne : v ≠ u := by
      rintro rfl
      rcases hjoin with hjoin | hnone
      · exact hjoin n hn
      · exact hnone z hz hparent
    rw [hbag] at hv
    rw [hbag']
    exact ⟨v, Multiset.mem_cons_of_mem ((Multiset.mem_cons.mp hv).resolve_left hne), rfl, n, hn⟩
  | @expand u rest p m hbag hphase hbag' hs =>
    have hne : v ≠ u := by
      rintro rfl
      rw [hphase] at hn
      cases hn
    rw [hbag] at hv
    rw [hbag']
    have hrest := (Multiset.mem_cons.mp hv).resolve_left hne
    exact ⟨v, Multiset.mem_cons_of_mem (Multiset.mem_add.mpr (.inl hrest)), rfl, n, hn⟩
  | @join u v₀ rest result node hbag hdone hparent hjoining hbag' hs =>
    have hne : v ≠ u := by
      rintro rfl
      rw [hdone] at hn
      cases hn
    rw [hbag] at hv
    rcases Multiset.mem_cons.mp ((Multiset.mem_cons.mp hv).resolve_left hne) with rfl | hrest
    · exact ⟨_, mem_of_bag_eq hbag', rfl, _, rfl⟩
    · rw [hbag']
      exact ⟨v, Multiset.mem_cons_of_mem hrest, rfl, n, hn⟩

/-- An old task keeps its parent, which goes on waiting for it; a new one is waited for. -/
theorem Shape.waited_cases (h : Shape w w') (hbelow : ∀ u ∈ w.bag, u.id < w.spawned) {y : Task}
    (hy : y ∈ w'.bag) : y.Waited w' ∨ ∃ z ∈ w.bag, y.id = z.id ∧ y.parent = z.parent ∧
      y.aborted = z.aborted ∧ ¬z.Waited w := by
  rcases h.task_cases hy with ⟨z, hz, hid, hparent, haborted⟩ | ⟨u, hu, p, ps, hself, hchild, -⟩
  · by_cases hwaited : z.Waited w
    · left
      obtain ⟨v, hv, hv', hlt, n, hn⟩ := hwaited
      obtain ⟨v', hmem, hvid, hjoining⟩ := h.waits hz hv hv' hn
      refine ⟨v', hmem, ?_, ?_, hjoining⟩
      · rw [hparent, hvid]
        exact hv'
      · rw [hid, hvid]
        exact hlt
    · exact .inr ⟨z, hz, hid, hparent, haborted, hwaited⟩
  · obtain ⟨hle, -, hparent, -⟩ := mem_children hchild
    exact .inl ⟨_, hself, hparent, (hbelow u hu).trans_le hle, _, rfl⟩

/-- A move leaves every task but the root one that waits for it. -/
theorem Parented.move (h : w.Parented) (hw : w.Numbered) (hshape : Shape w w') :
    w'.Parented := by
  intro y hy
  rcases hshape.waited_cases hw.below hy with hwaited | ⟨z, hz, hid, hparent, -, hnot⟩
  · exact .inr hwaited
  · rw [hid, hparent]
    exact .inl ((h z hz).resolve_right hnot)

/-! ## The equations -/

/-- What no task has before its first step, the new tasks do not have. -/
theorem bind_children {α : Type} {f : Task → Multiset α} (hf : ∀ u, u.phase = .spawned → f u = 0)
    (parent first : Nat) (ps : List Package) : (children parent first ps).bind f = 0 := by
  rw [← Multiset.bind_zero (children parent first ps)]
  refine Multiset.bind_congr fun u hu => ?_
  obtain ⟨-, -, -, -, hphase, -⟩ := mem_children hu
  exact hf u hphase

theorem claimed_children (parent first : Nat) (ps : List Package) :
    (children parent first ps).bind Task.claimed = 0 :=
  bind_children (fun u hphase => by simp only [Task.claimed, hphase]) parent first ps

theorem waiting_children (parent first : Nat) (ps : List Package) :
    (children parent first ps).bind Task.waiting = ps := by
  have hmap : (children parent first ps).map (·.package) = ps := by
    rw [children, Multiset.map_coe, List.map_map]
    exact congrArg _ (List.zipIdx_map_fst first ps)
  rw [← hmap, ← Multiset.bind_singleton]
  refine Multiset.bind_congr fun u hu => ?_
  obtain ⟨-, -, -, -, hphase, -⟩ := mem_children hu
  simp only [Task.waiting, hphase]

/-- Every claimed key is claimed by a task or an entry, and no key by two of them. -/
theorem Accounts.claims_move (h : Accounts root log w) (hmove : Move w w' l x) :
    (w'.visits.keys : Multiset String) =
      w'.bag.bind Task.claimed + (extend log x).bind Entry.claims := by
  have hc := h.claims
  cases hmove with
  | claim hbag hphase _ hbag' hvisits _ =>
    rw [hbag, Multiset.cons_bind] at hc
    rw [hbag', Multiset.cons_bind, hvisits, ← Multiset.cons_coe, hc]
    simp only [Task.claimed, hphase, extend, ← Multiset.singleton_add]
    abel
  | find hbag hphase _ hbag' hvisits _ | refuse hbag hphase hbag' hvisits _ =>
    rw [hbag, Multiset.cons_bind] at hc
    rw [hbag', Multiset.cons_bind, hvisits, hc]
    simp only [Task.claimed, hphase, extend, Multiset.cons_bind, Entry.claims]
    abel
  | meet hbag hphase _ _ hbag' hvisits _ =>
    rw [hbag, Multiset.cons_bind] at hc
    rw [hbag', Multiset.cons_bind, hvisits, hc]
    simp only [Task.claimed, hphase, extend, Multiset.cons_bind, Entry.claims]
    abel
  | send hbag hphase hbag' hvisits _ =>
    rw [hbag, Multiset.cons_bind] at hc
    rw [hbag', Multiset.cons_bind, hvisits, hc]
    simp only [Task.claimed, hphase, extend]
  | keep hbag hphase _ hbag' hvisits _ =>
    rw [hbag, Multiset.cons_bind] at hc
    rw [hbag', Multiset.cons_bind, Multiset.add_bind, claimed_children, hvisits, hc]
    simp only [Task.claimed, hphase, extend, Multiset.cons_bind, Entry.claims]
    abel
  | land hbag hphase _ _ hbag' hvisits _ =>
    rw [hbag, Multiset.cons_bind] at hc
    rw [hbag', Multiset.cons_bind, Multiset.add_bind, claimed_children, hvisits,
      ← Multiset.cons_coe, hc]
    simp only [Task.claimed, hphase, extend, Multiset.cons_bind, Entry.claims]
    simp only [← Multiset.singleton_add]
    abel
  | join hbag hphase _ hjoining hbag' hvisits _ =>
    rw [hbag, Multiset.cons_bind, Multiset.cons_bind] at hc
    rw [hbag', Multiset.cons_bind, hvisits, hc]
    simp only [Task.claimed, hphase, hjoining, extend]
    abel
  | finish hbag hphase _ hbag' hvisits _ =>
    rw [hbag, Multiset.cons_bind] at hc
    rw [hbag', Multiset.cons_bind, hvisits, hc]
    simp only [Task.claimed, hphase, extend]

theorem not_mem_keys {v : Visits} {key : String} (h : v.contains key = false) : key ∉ v.keys := by
  intro hmem
  rw [Visits.contains, List.contains_iff_mem.mpr hmem] at h
  cases h

theorem mem_keys {v : Visits} {key : String} (h : v.contains key = true) : key ∈ v.keys :=
  List.contains_iff_mem.mp h

/-- No key is claimed twice. -/
theorem Move.distinct (hmove : Move w w' l x) (h : w.visits.keys.Nodup) :
    w'.visits.keys.Nodup := by
  cases hmove with
  | claim _ _ hfree _ hvisits _ | land _ _ _ hfree _ hvisits _ =>
    rw [hvisits]
    exact List.nodup_cons.mpr ⟨not_mem_keys hfree, h⟩
  | find _ _ _ _ hvisits _ | keep _ _ _ _ hvisits _ | meet _ _ _ _ _ hvisits _ =>
    rw [hvisits]
    exact h
  | send _ _ _ hvisits _ | refuse _ _ _ hvisits _ | finish _ _ _ _ hvisits _ =>
    rw [hvisits]
    exact h
  | join _ _ _ _ _ hvisits _ =>
    rw [hvisits]
    exact h

/-- No claim is given up. -/
theorem Move.keys_mono (hmove : Move w w' l x) {key : String} (h : key ∈ w.visits.keys) :
    key ∈ w'.visits.keys := by
  cases hmove with
  | claim _ _ _ _ hvisits _ | land _ _ _ _ _ hvisits _ =>
    rw [hvisits]
    exact List.mem_cons_of_mem _ h
  | find _ _ _ _ hvisits _ | keep _ _ _ _ hvisits _ | meet _ _ _ _ _ hvisits _ =>
    rw [hvisits]
    exact h
  | send _ _ _ hvisits _ | refuse _ _ _ hvisits _ | finish _ _ _ _ hvisits _ =>
    rw [hvisits]
    exact h
  | join _ _ _ _ _ hvisits _ =>
    rw [hvisits]
    exact h

/-- Every package that was ever to be visited waits in a task or is the subject of an entry. -/
theorem Accounts.visitors_move (h : Accounts root log w) (hmove : Move w w' l x) :
    root ::ₘ (extend log x).bind Entry.edges =
      w'.bag.bind Task.waiting + (extend log x).map Entry.asked := by
  have hv := h.visitors
  cases hmove with
  | claim hbag hphase _ hbag' _ _ =>
    rw [hbag, Multiset.cons_bind] at hv
    rw [hbag', Multiset.cons_bind]
    simp only [Task.waiting, hphase, extend] at hv ⊢
    exact hv
  | find hbag hphase _ hbag' _ _ | refuse hbag hphase hbag' _ _ =>
    rw [hbag, Multiset.cons_bind] at hv
    rw [hbag', Multiset.cons_bind]
    simp only [Task.waiting, hphase, extend, Multiset.cons_bind, Multiset.map_cons, Entry.edges,
      Entry.expanded?, Entry.asked] at hv ⊢
    simp only [← Multiset.singleton_add] at hv ⊢
    rw [zero_add, hv]
    abel
  | meet hbag hphase _ _ hbag' _ _ =>
    rw [hbag, Multiset.cons_bind] at hv
    rw [hbag', Multiset.cons_bind]
    simp only [Task.waiting, hphase, extend, Multiset.cons_bind, Multiset.map_cons, Entry.edges,
      Entry.expanded?, Entry.asked] at hv ⊢
    simp only [← Multiset.singleton_add] at hv ⊢
    rw [zero_add, hv]
    abel
  | send hbag hphase hbag' _ _ =>
    rw [hbag, Multiset.cons_bind] at hv
    rw [hbag', Multiset.cons_bind]
    simp only [Task.waiting, hphase, extend] at hv ⊢
    exact hv
  | keep hbag hphase _ hbag' _ _ | land hbag hphase _ _ hbag' _ _ =>
    rw [hbag, Multiset.cons_bind] at hv
    rw [hbag', Multiset.cons_bind, Multiset.add_bind, waiting_children]
    simp only [Task.waiting, hphase, extend, Multiset.cons_bind, Multiset.map_cons, Entry.edges,
      Entry.expanded?, Entry.asked] at hv ⊢
    simp only [← Multiset.singleton_add] at hv ⊢
    rw [add_left_comm, hv]
    abel
  | join hbag hphase _ hjoining hbag' _ _ =>
    rw [hbag, Multiset.cons_bind, Multiset.cons_bind] at hv
    rw [hbag', Multiset.cons_bind]
    simp only [Task.waiting, hphase, hjoining, extend, zero_add] at hv ⊢
    exact hv
  | finish hbag hphase _ hbag' _ _ =>
    rw [hbag, Multiset.cons_bind] at hv
    rw [hbag', Multiset.cons_bind]
    simp only [Task.waiting, hphase, extend] at hv ⊢
    exact hv

/-- The versions that are kept are those of the history. -/
theorem Accounts.resolutions_move (h : Accounts root log w) (hmove : Move w w' l x) :
    (w'.visits.resolutions : Multiset (String × String)) =
      (extend log x).bind Entry.resolutions := by
  have hr := h.resolutions
  cases hmove with
  | claim _ _ _ _ hvisits _ | send _ _ _ hvisits _ | join _ _ _ _ _ hvisits _ =>
    rw [hvisits]
    exact hr
  | finish _ _ _ _ hvisits _ =>
    rw [hvisits]
    exact hr
  | find _ _ _ _ hvisits _ | refuse _ _ _ hvisits _ | keep _ _ _ _ hvisits _ =>
    rw [hvisits, hr, extend, Multiset.cons_bind]
    exact (zero_add _).symm
  | land _ _ _ _ _ hvisits _ | meet _ _ _ _ _ hvisits _ =>
    rw [hvisits, extend, Multiset.cons_bind, ← hr, ← Multiset.cons_coe, ← Multiset.singleton_add]
    rfl

/-- A key that was left to another task is claimed. -/
theorem Accounts.owned_move (h : Accounts root log w) (hmove : Move w w' l x) :
    ∀ y ∈ extend log x, ∀ p, y.left? = some p → p.key ∈ w'.visits.keys := by
  have hold : ∀ y ∈ log, ∀ p, y.left? = some p → p.key ∈ w'.visits.keys :=
    fun y hy p hp => hmove.keys_mono (h.owned y hy p hp)
  cases hx : x with
  | none => exact hold
  | some z =>
    intro y hy p hp
    rcases Multiset.mem_cons.mp hy with rfl | hy
    · cases hmove with
      | find _ _ hclaimed _ hvisits _ =>
        cases hx
        obtain rfl := Option.some.inj hp
        rw [hvisits]
        exact mem_keys hclaimed
      | meet _ _ _ hclaimed _ hvisits _ =>
        cases hx
        obtain rfl := Option.some.inj hp
        rw [hvisits]
        exact mem_keys hclaimed
      | refuse | keep | land =>
        cases hx
        cases hp
      | claim | send | join | finish => cases hx
    · exact hold y hy p hp

theorem Accounts.rightly_move (h : Accounts root log w) (hmove : Move w w' l x) :
    ∀ y ∈ extend log x, y.Rightly := by
  cases hmove with
  | claim | send | join | finish => exact h.rightly
  | find | refuse =>
    intro y hy
    rcases Multiset.mem_cons.mp hy with rfl | hy
    · trivial
    · exact h.rightly y hy
  | keep _ _ hkey | land _ _ hkey | meet _ _ hkey =>
    intro y hy
    rcases Multiset.mem_cons.mp hy with rfl | hy
    · exact hkey
    · exact h.rightly y hy

/-- Every move keeps the accounts. -/
theorem Accounts.move (h : Accounts root log w) (hmove : Move w w' l x) :
    Accounts root (extend log x) w' where
  numbered := h.numbered.move hmove.shape
  parented := h.parented.move h.numbered hmove.shape
  claims := h.claims_move hmove
  distinct := hmove.distinct h.distinct
  visitors := h.visitors_move hmove
  resolutions := h.resolutions_move hmove
  rightly := h.rightly_move hmove
  owned := h.owned_move hmove

/-! ## The end -/

/-- When the root task is done, no other task is left. -/
theorem Parented.alone (h : w.Parented) (hw : w.Numbered) {r : Except Failure Tree}
    (hr : w.result? = some r) : ∃ u, w.bag = {u} ∧ u.phase = .done r := by
  unfold result? at hr
  split at hr
  · rename_i u hrun
    obtain ⟨-, hu, hid⟩ := running?_eq_some hrun
    split at hr
    · rename_i result hphase
      cases hr
      -- The oldest other task would wait for the root task, which is done.
      have hnone : ∀ n, ∀ y ∈ w.bag, y.id = n → n ≠ rootId → False := by
        intro n
        induction n using Nat.strong_induction_on with
        | _ n ih =>
          intro y hy hyn hne
          rcases h y hy with ⟨hroot, -⟩ | ⟨v, hv, hparent, hlt, node, hnode⟩
          · exact hne (hyn ▸ hroot)
          · by_cases hv0 : v.id = rootId
            · have huv : u = v := hw.eq_of_id (mem_bag.mpr hu) hv (hid.trans hv0.symm)
              rw [← huv, hphase] at hnode
              cases hnode
            · exact ih v.id (hyn ▸ hlt) v hv rfl hv0
      obtain ⟨rest, hbag⟩ := Multiset.exists_cons_of_mem (mem_bag.mpr hu)
      have hrest : rest = 0 := by
        refine Multiset.eq_zero_of_forall_notMem fun y hy => ?_
        have hymem : y ∈ w.bag := by
          rw [hbag]
          exact Multiset.mem_cons_of_mem hy
        have hne : y.id ≠ rootId := hid ▸ hw.ids_ne hbag y hy
        exact hnone y.id y hymem rfl hne
      refine ⟨u, ?_, hphase⟩
      rw [hbag, hrest]
      rfl
    · cases hr
  · cases hr

/-- When the root is through, it is the only task. -/
theorem Accounts.alone (h : Accounts root log w) {r : Except Failure Tree}
    (hr : w.result? = some r) : ∃ u, w.bag = {u} ∧ u.phase = .done r :=
  h.parented.alone h.numbered hr

end Walk

end PackageGate
