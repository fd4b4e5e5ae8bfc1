import Mathlib.Data.Multiset.Bind
import PackageGate.Walk
import PackageGate.Proofs.Steps

/-!
# Moves of a walk

The tasks of a walk are seen as a bag: the order in which they stand does not
matter, and a step changes one task, adds children, or takes a task out. Beside the
bag runs a history: what became of every task when it began, and of every answer.

- `Walk.bag`: the tasks.
- `Walk.Entry`, `Walk.note?`: the history, entry by entry.
- `Walk.Numbered`: the tasks have different numbers and none is aborted.
- `Walk.Move`, `Walk.step_move`: the moves, and that every step is one of them.
- `Walk.Cut`, `Walk.move_or_cut`: the steps of a walk that is given up take tasks away;
  `Walk.mem_drop`, `Walk.bind_drop_le`: what is left then.
- `Walk.Gone`: a walk that was given up has no root task, and never gets one again.
-/

namespace PackageGate

/-- A node with a result that has come in; a failed one leaves nothing behind. -/
def Tree.accept (node : Tree) : Except Failure Tree → Tree
  | .ok child => node.attach child
  | .error _ => node

namespace Visits

theorem mark_of_contains {v : Visits} {key : String} (h : v.contains key = true) :
    v.mark key = (false, v) := if_pos h

theorem mark_of_free {v : Visits} {key : String} (h : v.contains key = false) :
    v.mark key = (true, { v with keys := key :: v.keys }) := by
  rw [mark, h]
  rfl

end Visits

namespace Walk

/-- The tasks of a walk, in no order. -/
def bag (w : Walk) : Multiset Task := w.tasks

/-- What the history of a walk tells. -/
inductive Entry
  /-- A task has found its key claimed. -/
  | found (asked : Package)
  /-- The request for `asked` has failed. -/
  | refused (asked : Package) (e : Failure)
  /-- The request was answered with the version asked for. -/
  | kept (asked : Package) (m : Manifest)
  /-- The request was answered with another version, whose key was free. -/
  | landed (asked : Package) (m : Manifest)
  /-- The request was answered with another version, whose key was claimed. -/
  | met (asked : Package) (m : Manifest)
deriving DecidableEq

/-- What an answer to the request for `asked` comes to. -/
def received (w : Walk) (asked : Package) : Except Failure Manifest → Entry
  | .error e => .refused asked e
  | .ok m =>
    let resolved := resolvedPackage asked m
    if resolved.key = asked.key then .kept asked m
    else if w.visits.contains resolved.key then .met asked m
    else .landed asked m

/-- What a step adds to the history. -/
def note? (w : Walk) : Label → Option Entry
  | .start t =>
    match w.task? t with
    | some u => if w.visits.contains u.package.key then some (.found u.package) else none
    | none => none
  | .answer t reply => (w.task? t).map fun u => w.received u.package reply
  | _ => none

/-- The package whose request goes out with a step. -/
def sent? (w : Walk) : Label → Option Package
  | .request t => (w.task? t).map (·.package)
  | _ => none

/-- The tasks that are started for `packages` by the task `parent`, with the numbers from
`first` on. -/
def children (parent first : Nat) (packages : List Package) : Multiset Task :=
  ((packages.zipIdx first).map fun (p, i) => ⟨i, some parent, p, .spawned, false⟩ : List Task)

/-- The tasks have different numbers, all of them used up, and none is aborted. -/
structure Numbered (w : Walk) : Prop where
  nodup : (w.bag.map (·.id)).Nodup
  below : ∀ u ∈ w.bag, u.id < w.spawned
  running : ∀ u ∈ w.bag, u.aborted = false

/-- The moves of a walk that is not given up, with what they add to the history. -/
inductive Move (w w' : Walk) : Label → Option Entry → Prop
  | claim {u : Task} {rest : Multiset Task} : w.bag = u ::ₘ rest → u.phase = .spawned →
    w.visits.contains u.package.key = false → w'.bag = { u with phase := .queued } ::ₘ rest →
    w'.visits = { w.visits with keys := u.package.key :: w.visits.keys } →
    w'.spawned = w.spawned → Move w w' (.start u.id) none
  | find {u : Task} {rest : Multiset Task} : w.bag = u ::ₘ rest → u.phase = .spawned →
    w.visits.contains u.package.key = true →
    w'.bag = { u with phase := .done (.ok (.stub u.package)) } ::ₘ rest →
    w'.visits = w.visits → w'.spawned = w.spawned →
    Move w w' (.start u.id) (some (.found u.package))
  | send {u : Task} {rest : Multiset Task} : w.bag = u ::ₘ rest → u.phase = .queued →
    w'.bag = { u with phase := .calling } ::ₘ rest → w'.visits = w.visits →
    w'.spawned = w.spawned → Move w w' (.request u.id) none
  | refuse {u : Task} {rest : Multiset Task} {e e' : Failure} : w.bag = u ::ₘ rest →
    u.phase = .calling → w'.bag = { u with phase := .done (.error e') } ::ₘ rest →
    w'.visits = w.visits → w'.spawned = w.spawned →
    Move w w' (.answer u.id (.error e)) (some (.refused u.package e))
  | keep {u : Task} {rest : Multiset Task} {m : Manifest} : w.bag = u ::ₘ rest →
    u.phase = .calling → (resolvedPackage u.package m).key = u.package.key →
    w'.bag = { u with phase := .joining (.leaf (resolvedPackage u.package m)) } ::ₘ
      (rest + children u.id w.spawned (edgePackages m)) →
    w'.visits = w.visits → w'.spawned = w.spawned + (edgePackages m).length →
    Move w w' (.answer u.id (.ok m)) (some (.kept u.package m))
  | land {u : Task} {rest : Multiset Task} {m : Manifest} : w.bag = u ::ₘ rest →
    u.phase = .calling → (resolvedPackage u.package m).key ≠ u.package.key →
    w.visits.contains (resolvedPackage u.package m).key = false →
    w'.bag = { u with phase := .joining (.leaf (resolvedPackage u.package m)) } ::ₘ
      (rest + children u.id w.spawned (edgePackages m)) →
    w'.visits = ⟨(resolvedPackage u.package m).key :: w.visits.keys,
      (u.package.key, (resolvedPackage u.package m).version) :: w.visits.resolutions⟩ →
    w'.spawned = w.spawned + (edgePackages m).length →
    Move w w' (.answer u.id (.ok m)) (some (.landed u.package m))
  | meet {u : Task} {rest : Multiset Task} {m : Manifest} : w.bag = u ::ₘ rest →
    u.phase = .calling → (resolvedPackage u.package m).key ≠ u.package.key →
    w.visits.contains (resolvedPackage u.package m).key = true →
    w'.bag = { u with phase := .done (.ok (.stub (resolvedPackage u.package m))) } ::ₘ rest →
    w'.visits = { w.visits with
      resolutions :=
        (u.package.key, (resolvedPackage u.package m).version) :: w.visits.resolutions } →
    w'.spawned = w.spawned → Move w w' (.answer u.id (.ok m)) (some (.met u.package m))
  | join {u v : Task} {rest : Multiset Task} {result : Except Failure Tree} {node : Tree} :
    w.bag = u ::ₘ v ::ₘ rest → u.phase = .done result → u.parent = some v.id →
    v.phase = .joining node → w'.bag = { v with phase := .joining (node.accept result) } ::ₘ rest →
    w'.visits = w.visits → w'.spawned = w.spawned → Move w w' (.join u.id) none
  | finish {u : Task} {rest : Multiset Task} {node : Tree} : w.bag = u ::ₘ rest →
    u.phase = .joining node → (∀ x ∈ w.bag, x.parent ≠ some u.id) →
    w'.bag = { u with phase := .done (.ok node) } ::ₘ rest → w'.visits = w.visits →
    w'.spawned = w.spawned → Move w w' (.finish u.id) none

/-- An answer may tell another version, but no other name. -/
theorem resolvedPackage_name (p : Package) (m : Manifest) :
    (resolvedPackage p m).name = p.name := by
  unfold resolvedPackage
  split <;> rfl

/-! ## Bags and lists -/

variable {w w' : Walk} {l : Label} {u v : Task}

theorem mem_bag : u ∈ w.bag ↔ u ∈ w.tasks := Multiset.mem_coe

theorem mem_of_bag_eq {rest : Multiset Task} (h : w.bag = u ::ₘ rest) : u ∈ w.bag := by
  rw [h]
  exact Multiset.mem_cons_self u rest

theorem task?_eq_some {t : Nat} (h : w.task? t = some u) : u ∈ w.tasks ∧ u.id = t :=
  ⟨List.mem_of_find?_eq_some h, by simpa using List.find?_some h⟩

theorem running?_eq_some {t : Nat} (h : w.running? t = some u) :
    w.task? t = some u ∧ u ∈ w.tasks ∧ u.id = t := by
  have htask : w.task? t = some u := (Option.filter_eq_some_iff.mp h).1
  exact ⟨htask, task?_eq_some htask⟩

theorem task?_setPhase (w : Walk) (t k : Nat) (phase : Phase) : (w.setPhase t phase).task? k =
    (w.task? k).map fun u => if u.id = t then { u with phase } else u := by
  have hid : (fun u : Task => u.id == k) ∘ (fun u => if u.id = t then { u with phase } else u) =
      fun u => u.id == k := by
    funext u
    show ((if u.id = t then { u with phase } else u).id == k) = (u.id == k)
    split <;> rfl
  rw [task?, setPhase, List.find?_map, hid]
  rfl

/-- With different numbers, a task is found by its number. -/
theorem task?_of_nodup (hnodup : (w.bag.map (·.id)).Nodup) (hu : u ∈ w.bag) :
    w.task? u.id = some u := by
  cases h : w.task? u.id with
  | none =>
    have hnone := List.find?_eq_none.mp h u (mem_bag.mp hu)
    exact absurd (beq_self_eq_true u.id) hnone
  | some v =>
    obtain ⟨hv, hid⟩ := task?_eq_some h
    rw [List.inj_on_of_nodup_map (Multiset.coe_nodup.mp hnodup) hv (mem_bag.mp hu) hid]

/-- With different numbers, a task stands in one place of the list only; to move it to
another phase, or to remove it, changes that place only. -/
theorem bag_split (hnodup : (w.bag.map (·.id)).Nodup) (hu : u ∈ w.tasks) :
    ∃ rest : Multiset Task, w.bag = u ::ₘ rest ∧
      ((w.tasks.filter (·.id ≠ u.id) : List Task) : Multiset Task) = rest ∧
      ∀ phase, (w.setPhase u.id phase).bag = { u with phase } ::ₘ rest := by
  obtain ⟨as, bs, htasks⟩ := List.append_of_mem hu
  have hne : ∀ x ∈ as ++ bs, x.id ≠ u.id := by
    have hperm : w.bag = u ::ₘ ((as ++ bs : List Task) : Multiset Task) := by
      rw [bag, htasks]
      exact Multiset.coe_eq_coe.mpr List.perm_middle
    rw [hperm, Multiset.map_cons, Multiset.nodup_cons] at hnodup
    intro x hx heq
    exact hnodup.1 (Multiset.mem_map.mpr ⟨x, Multiset.mem_coe.mpr hx, heq⟩)
  -- So neither part of the list around the task is touched.
  have has : ∀ x ∈ as, x.id ≠ u.id := fun x hx => hne x (List.mem_append_left _ hx)
  have hbs : ∀ x ∈ bs, x.id ≠ u.id := fun x hx => hne x (List.mem_append_right _ hx)
  refine ⟨((as ++ bs : List Task) : Multiset Task), ?_, ?_, ?_⟩
  · rw [bag, htasks]
    exact Multiset.coe_eq_coe.mpr List.perm_middle
  · have hfilter : w.tasks.filter (·.id ≠ u.id) = as ++ bs := by
      rw [htasks, List.filter_append, List.filter_cons_of_neg (by simp),
        List.filter_eq_self.mpr (by simpa using has), List.filter_eq_self.mpr (by simpa using hbs)]
    rw [hfilter]
  · intro phase
    have hset : ∀ xs : List Task, (∀ x ∈ xs, x.id ≠ u.id) →
        xs.map (fun x => if x.id = u.id then { x with phase } else x) = xs := by
      intro xs hxs
      refine (List.map_congr_left fun x hx => ?_).trans (List.map_id xs)
      exact if_neg (hxs x hx)
    have htasks' : (w.setPhase u.id phase).tasks = as ++ { u with phase } :: bs := by
      show w.tasks.map _ = _
      rw [htasks, List.map_append, List.map_cons, hset as has, hset bs hbs, if_pos rfl]
    rw [bag, htasks']
    exact Multiset.coe_eq_coe.mpr List.perm_middle

theorem bag_spawn (w : Walk) (parent : Nat) (packages : List Package) :
    (w.spawn parent packages).bag = w.bag + children parent w.spawned packages :=
  (Multiset.coe_add _ _).symm

/-- Expanding a package starts a task for each of its dependencies. -/
theorem bag_expand {rest : Multiset Task} {resolved : Package} {m : Manifest}
    (hset : ∀ phase, (w.setPhase u.id phase).bag = { u with phase } ::ₘ rest) :
    (w.expand u resolved m).bag = { u with phase := .joining (.leaf resolved) } ::ₘ
      (rest + children u.id w.spawned (edgePackages m)) := by
  rw [expand, bag_spawn, hset, Multiset.cons_add]
  rfl

/-- A task that starts claims its key, or leaves it to somebody else. -/
theorem start_move (hnodup : (w.bag.map (·.id)).Nodup) (hu : u ∈ w.tasks)
    (hphase : u.phase = .spawned) (htask : w.task? u.id = some u) :
    Move w (w.start u) (.start u.id) (w.note? (.start u.id)) := by
  obtain ⟨rest, hbag, -, hset⟩ := bag_split hnodup hu
  have hnote : w.note? (.start u.id) =
      if w.visits.contains u.package.key then some (.found u.package) else none := by
    simp only [note?, htask]
  rw [hnote]
  cases hfree : w.visits.contains u.package.key with
  | true =>
    rw [start, Visits.mark_of_contains hfree]
    exact .find hbag hphase hfree (hset _) rfl rfl
  | false =>
    rw [start, Visits.mark_of_free hfree]
    exact .claim hbag hphase hfree (hset _) rfl rfl

/-- What a task does with an answer for another version than was asked for. -/
def settleOn (w : Walk) (u : Task) (resolved : Package) (m : Manifest) : Walk :=
  let visits := w.visits.recordResolution u.package.key resolved.version
  let (isNew, visits) := visits.mark resolved.key
  if isNew then { w with visits }.expand u resolved m
  else { w with visits }.setPhase u.id (.done (.ok (.stub resolved)))

/-- A task that is answered is expanded, leaves its key to somebody else, or fails. -/
theorem receive_move (hnodup : (w.bag.map (·.id)).Nodup) (hu : u ∈ w.tasks)
    (hphase : u.phase = .calling) (htask : w.task? u.id = some u)
    (reply : Except Failure Manifest) :
    Move w (w.receive u reply) (.answer u.id reply) (w.note? (.answer u.id reply)) := by
  obtain ⟨rest, hbag, -, hset⟩ := bag_split hnodup hu
  have hnote : w.note? (.answer u.id reply) = some (w.received u.package reply) := by
    simp only [note?, htask, Option.map_some]
  rw [hnote]
  cases reply with
  | error e => exact .refuse hbag hphase (hset _) rfl rfl
  | ok m =>
    have hreceive : w.receive u (.ok m) =
        if (resolvedPackage u.package m).key = u.package.key then
          w.expand u (resolvedPackage u.package m) m
        else w.settleOn u (resolvedPackage u.package m) m := rfl
    by_cases hkey : (resolvedPackage u.package m).key = u.package.key
    · rw [hreceive, received, if_pos hkey, if_pos hkey]
      exact .keep hbag hphase hkey (bag_expand hset) rfl rfl
    · rw [hreceive, received, if_neg hkey, if_neg hkey]
      cases hfree : w.visits.contains (resolvedPackage u.package m).key with
      | true =>
        rw [settleOn, Visits.mark_of_contains (v := w.visits.recordResolution u.package.key
          (resolvedPackage u.package m).version) hfree]
        exact .meet hbag hphase hkey hfree (hset _) rfl rfl
      | false =>
        rw [settleOn, Visits.mark_of_free (v := w.visits.recordResolution u.package.key
          (resolvedPackage u.package m).version) hfree]
        exact .land hbag hphase hkey hfree (bag_expand (w := { w with visits := _ }) hset) rfl rfl

/-- A child that is done hands its result over to the task that waits for it. -/
theorem join_move (hnodup : (w.bag.map (·.id)).Nodup) {result : Except Failure Tree} {node : Tree}
    (hu : u ∈ w.tasks) (hphase : u.phase = .done result) (hparent : u.parent = some v.id)
    (hv : v ∈ w.tasks) (hjoining : v.phase = .joining node) :
    Move w (w.handOver u.id v.id node result) (.join u.id) none := by
  obtain ⟨rest, hbag, hfilter, -⟩ := bag_split hnodup hu
  have hne : v.id ≠ u.id := by
    intro heq
    have huv : v = u := by
      exact List.inj_on_of_nodup_map (Multiset.coe_nodup.mp hnodup) hv hu heq
    rw [huv, hphase] at hjoining
    cases hjoining
  -- Taking the child out leaves a walk in which the parent stands in one place.
  have hnodup' : (({ w with tasks := w.tasks.filter (·.id ≠ u.id) } : Walk).bag.map
      (·.id)).Nodup := by
    have hrest := hnodup
    rw [hbag, Multiset.map_cons, Multiset.nodup_cons] at hrest
    show Multiset.Nodup (Multiset.map _ ((w.tasks.filter (·.id ≠ u.id) : List Task) :
      Multiset Task))
    rw [hfilter]
    exact hrest.2
  have hv' : v ∈ w.tasks.filter (·.id ≠ u.id) := List.mem_filter.mpr ⟨hv, by simpa using hne⟩
  obtain ⟨rest', hbag', -, hset'⟩ := bag_split hnodup' hv'
  have hrest : rest = v ::ₘ rest' := by
    rw [← hfilter]
    exact hbag'
  rw [hrest] at hbag
  exact .join hbag hphase hparent hjoining (hset' _) rfl rfl

/-- Every step of a walk is one of its moves, unless a task is taken away. -/
theorem step_move_of_nodup (hnodup : (w.bag.map (·.id)).Nodup) (hcancel : l ≠ .cancel)
    (hdiscard : ∀ t, l ≠ .discard t) (h : w.step l = some w') : Move w w' l (w.note? l) := by
  cases l with
  | start t =>
    simp only [step] at h
    split at h
    · rename_i u hrun
      obtain ⟨htask, hu, rfl⟩ := running?_eq_some hrun
      split at h <;> cases h
      exact start_move hnodup hu ‹_› htask
    · cases h
  | request t =>
    simp only [step] at h
    split at h
    · rename_i u hrun
      obtain ⟨-, hu, rfl⟩ := running?_eq_some hrun
      split at h <;> cases h
      obtain ⟨rest, hbag, -, hset⟩ := bag_split hnodup hu
      exact .send hbag ‹_› (hset _) rfl rfl
    · cases h
  | answer t reply =>
    simp only [step] at h
    split at h
    · rename_i u hrun
      obtain ⟨htask, hu, rfl⟩ := running?_eq_some hrun
      split at h <;> cases h
      exact receive_move hnodup hu ‹_› htask reply
    · cases h
  | join t =>
    simp only [step] at h
    split at h
    · rename_i u hrun
      obtain ⟨-, hu, rfl⟩ := running?_eq_some hrun
      split at h
      · rename_i result p hphase hparent
        split at h
        · rename_i v hrun'
          obtain ⟨-, hv, rfl⟩ := running?_eq_some hrun'
          split at h <;> cases h
          exact join_move hnodup hu hphase hparent hv ‹_›
        · cases h
      · cases h
    · cases h
  | finish t =>
    simp only [step] at h
    split at h
    · rename_i u hrun
      obtain ⟨-, hu, rfl⟩ := running?_eq_some hrun
      split at h
      · split at h <;> cases h
        rename_i node hphase hnone
        obtain ⟨rest, hbag, -, hset⟩ := bag_split hnodup hu
        refine .finish hbag hphase (fun x hx hparent => ?_) (hset _) rfl rfl
        exact hnone (List.any_eq_true.mpr ⟨x, mem_bag.mp hx, by simpa using hparent⟩)
      · cases h
    · cases h
  | cancel => exact absurd rfl hcancel
  | discard t => exact absurd rfl (hdiscard t)

/-- A step that takes a task away. -/
inductive Cut (w w' : Walk) : Label → Prop
  | cancel {u : Task} : w.running? rootId = some u → (∀ result, u.phase ≠ .done result) →
    w' = w.drop rootId → Cut w w' .cancel
  | discard {t : Nat} {u : Task} : w.task? t = some u → u.aborted = true → w' = w.drop t →
    Cut w w' (.discard t)

/-- Nothing is told of a task that is taken away, and it asks for nothing. -/
theorem Cut.silent (h : Cut w w' l) : w.note? l = none ∧ w.sent? l = none := by
  cases h <;> exact ⟨rfl, rfl⟩

theorem Cut.exists_drop (h : Cut w w' l) : ∃ t, w' = w.drop t := by
  cases h with
  | cancel _ _ hdrop => exact ⟨rootId, hdrop⟩
  | @discard t _ _ _ hdrop => exact ⟨t, hdrop⟩

/-- Every step of a walk is one of its moves, or takes a task away. -/
theorem move_or_cut (hnodup : (w.bag.map (·.id)).Nodup) (h : w.step l = some w') :
    Move w w' l (w.note? l) ∨ Cut w w' l := by
  cases l with
  | cancel =>
    right
    simp only [step] at h
    split at h
    · rename_i u hrun
      split at h <;> cases h
      exact .cancel hrun ‹_› rfl
    · cases h
  | discard t =>
    right
    simp only [step] at h
    split at h
    · rename_i u htask
      split at h <;> cases h
      exact .discard htask ‹_› rfl
    · cases h
  | start | request | answer | join | finish =>
    exact .inl (step_move_of_nodup hnodup (by simp) (by simp) h)

/-- Every step of a walk is one of its moves, unless the walk is given up. -/
theorem step_move (hw : w.Numbered) (hl : l ≠ .cancel) (h : w.step l = some w') :
    Move w w' l (w.note? l) := by
  refine step_move_of_nodup hw.nodup hl ?_ h
  rintro t rfl
  simp only [step] at h
  split at h
  · rename_i u htask
    obtain ⟨hu, -⟩ := task?_eq_some htask
    rw [hw.running u (mem_bag.mpr hu)] at h
    cases h
  · cases h

/-! ## Taking tasks away -/

/-- Every task that is left when a task is taken away is an old one, aborted perhaps. -/
theorem mem_drop {t : Nat} (hu : u ∈ (w.drop t).bag) : ∃ v ∈ w.bag, v.id ≠ t ∧
    u = if v.parent = some t then { v with aborted := true } else v := by
  obtain ⟨v, hv, rfl⟩ := List.mem_map.mp (mem_bag.mp hu)
  have hv := List.mem_filter.mp hv
  exact ⟨v, mem_bag.mpr hv.1, of_decide_eq_true hv.2, rfl⟩

theorem mem_drop_of_ne {t : Nat} (hu : u ∈ w.bag) (hne : u.id ≠ t) :
    (if u.parent = some t then { u with aborted := true } else u) ∈ (w.drop t).bag :=
  mem_bag.mpr (List.mem_map.mpr
    ⟨u, List.mem_filter.mpr ⟨mem_bag.mp hu, decide_eq_true hne⟩, rfl⟩)

/-- What does not tell aborted tasks apart sees of a task that is taken away only that it goes. -/
theorem map_drop_eq {β : Type} (f : Task → β) (hf : ∀ u, f { u with aborted := true } = f u)
    (w : Walk) (t : Nat) : (w.drop t).bag.map f =
      ((w.tasks.filter (·.id ≠ t) : List Task) : Multiset Task).map f := by
  show Multiset.map f (((w.tasks.filter (·.id ≠ t)).map fun u =>
    if u.parent = some t then { u with aborted := true } else u : List Task) : Multiset Task) = _
  rw [← Multiset.map_coe, Multiset.map_map]
  refine Multiset.map_congr rfl fun u _ => ?_
  show f (if u.parent = some t then { u with aborted := true } else u) = f u
  split
  · exact hf u
  · rfl

/-- Taking a task away takes away what is told of it. -/
theorem map_drop_le {β : Type} (f : Task → β) (hf : ∀ u, f { u with aborted := true } = f u)
    (w : Walk) (t : Nat) : (w.drop t).bag.map f ≤ w.bag.map f := by
  rw [map_drop_eq f hf]
  exact Multiset.map_le_map (Multiset.coe_le.mpr (List.filter_sublist).subperm)

/-- With different numbers, nothing else goes. -/
theorem cons_map_drop {β : Type} (f : Task → β) (hf : ∀ u, f { u with aborted := true } = f u)
    (hnodup : (w.bag.map (·.id)).Nodup) (hu : u ∈ w.tasks) :
    f u ::ₘ (w.drop u.id).bag.map f = w.bag.map f := by
  obtain ⟨rest, hbag, hfilter, -⟩ := bag_split hnodup hu
  rw [map_drop_eq f hf, hfilter, hbag, Multiset.map_cons]

/-- What is told of all tasks together only shrinks. -/
theorem bind_drop_le {β : Type} (f : Task → Multiset β)
    (hf : ∀ u, f { u with aborted := true } = f u) (w : Walk) (t : Nat) :
    (w.drop t).bag.bind f ≤ w.bag.bind f := by
  obtain ⟨rest, hrest⟩ := Multiset.le_iff_exists_add.mp (map_drop_le f hf w t)
  show ((w.drop t).bag.map f).join ≤ (w.bag.map f).join
  rw [hrest, Multiset.join_add]
  exact Multiset.le_add_right _ _

theorem nodup_drop (hnodup : (w.bag.map (·.id)).Nodup) (t : Nat) :
    ((w.drop t).bag.map (·.id)).Nodup :=
  Multiset.nodup_of_le (map_drop_le (·.id) (fun _ => rfl) w t) hnodup

theorem below_drop (hbelow : ∀ u ∈ w.bag, u.id < w.spawned) (t : Nat) :
    ∀ u ∈ (w.drop t).bag, u.id < (w.drop t).spawned := by
  intro u hu
  obtain ⟨v, hv, -, rfl⟩ := mem_drop hu
  split <;> exact hbelow v hv

/-! ## Walks that were given up -/

/-- The walk has no root task any more. -/
structure Gone (w : Walk) : Prop where
  rootless : ∀ u ∈ w.tasks, u.id ≠ rootId
  spawned : rootId < w.spawned

/-- From `w` to `w'` no number has come back: every task is an old one or has a new number. -/
def Onward (w w' : Walk) : Prop :=
  w.spawned ≤ w'.spawned ∧
    ∀ y ∈ w'.tasks, (∃ u ∈ w.tasks, u.id = y.id) ∨ w.spawned ≤ y.id

theorem Gone.onward (h : w.Gone) (hon : Onward w w') : w'.Gone := by
  refine ⟨fun y hy hy0 => ?_, h.spawned.trans_le hon.1⟩
  rcases hon.2 y hy with ⟨u, hu, hid⟩ | hle
  · exact h.rootless u hu (hid.trans hy0)
  · rw [hy0] at hle
    exact absurd h.spawned (not_lt.mpr hle)

theorem onward_setPhase (w : Walk) (t : Nat) (phase : Phase) : Onward w (w.setPhase t phase) := by
  refine ⟨Nat.le_refl _, fun y hy => .inl ?_⟩
  obtain ⟨u, hu, rfl⟩ := List.mem_map.mp hy
  refine ⟨u, hu, ?_⟩
  split <;> rfl

theorem onward_drop (w : Walk) (t : Nat) : Onward w (w.drop t) := by
  refine ⟨Nat.le_refl _, fun y hy => .inl ?_⟩
  obtain ⟨u, hu, rfl⟩ := List.mem_map.mp hy
  refine ⟨u, (List.mem_filter.mp hu).1, ?_⟩
  split <;> rfl

theorem onward_expand (w : Walk) (u : Task) (resolved : Package) (m : Manifest) :
    Onward w (w.expand u resolved m) := by
  refine ⟨Nat.le_add_right _ _, fun y hy => ?_⟩
  rcases List.mem_append.mp hy with hy | hy
  · exact (onward_setPhase w u.id _).2 y hy
  · obtain ⟨⟨p, i⟩, hpi, rfl⟩ := List.mem_map.mp hy
    exact .inr (List.mem_zipIdx hpi).1

theorem onward_handOver (w : Walk) (t parent : Nat) (node : Tree) (result : Except Failure Tree) :
    Onward w (w.handOver t parent node result) := by
  refine ⟨Nat.le_refl _, fun y hy => .inl ?_⟩
  obtain ⟨u, hu, rfl⟩ := List.mem_map.mp hy
  refine ⟨u, (List.mem_filter.mp hu).1, ?_⟩
  split <;> rfl

/-- No number comes back with a step. -/
theorem step_onward (h : w.step l = some w') : Onward w w' := by
  cases l with
  | start t =>
    simp only [step] at h
    split at h
    · rename_i u _
      split at h <;> cases h
      unfold start
      cases hfree : w.visits.contains u.package.key with
      | true =>
        rw [Visits.mark_of_contains hfree]
        exact onward_setPhase w u.id _
      | false =>
        rw [Visits.mark_of_free hfree]
        exact onward_setPhase w u.id _
    · cases h
  | request t =>
    simp only [step] at h
    split at h
    · split at h <;> cases h
      exact onward_setPhase w t _
    · cases h
  | answer t reply =>
    simp only [step] at h
    split at h
    · rename_i u _
      split at h <;> cases h
      cases reply with
      | error e => exact onward_setPhase w u.id _
      | ok m =>
        show Onward w (if (resolvedPackage u.package m).key = u.package.key then
          w.expand u (resolvedPackage u.package m) m
          else w.settleOn u (resolvedPackage u.package m) m)
        split
        · exact onward_expand w u _ m
        · unfold settleOn
          dsimp only
          split
          · exact onward_expand w u _ m
          · exact onward_setPhase w u.id _
    · cases h
  | join t =>
    simp only [step] at h
    split at h
    · split at h
      · split at h
        · split at h <;> cases h
          exact onward_handOver w t _ _ _
        · cases h
      · cases h
    · cases h
  | finish t =>
    simp only [step] at h
    split at h
    · split at h
      · split at h <;> cases h
        exact onward_setPhase w t _
      · cases h
    · cases h
  | cancel =>
    simp only [step] at h
    split at h
    · split at h <;> cases h
      exact onward_drop w rootId
    · cases h
  | discard t =>
    simp only [step] at h
    split at h
    · split at h <;> cases h
      exact onward_drop w t
    · cases h

/-- Giving a walk up takes its root task away for good. -/
theorem gone_of_cancel (hw : w.Numbered) (h : w.step .cancel = some w') : w'.Gone := by
  simp only [step] at h
  split at h
  · rename_i u hrun
    obtain ⟨-, hu, hid⟩ := running?_eq_some hrun
    split at h <;> cases h
    refine ⟨fun y hy => ?_, ?_⟩
    · obtain ⟨v, hv, rfl⟩ := List.mem_map.mp hy
      have hne : v.id ≠ rootId := by simpa using (List.mem_filter.mp hv).2
      split <;> exact hne
    · show rootId < w.spawned
      rw [← hid]
      exact hw.below u (mem_bag.mpr hu)
  · cases h

/-- A step is a move, or the walk is given up with it. -/
theorem gone_or_move (hw : w.Numbered) (h : w.step l = some w') :
    w'.Gone ∨ Move w w' l (w.note? l) := by
  by_cases hl : l = .cancel
  · subst hl
    exact .inl (gone_of_cancel hw h)
  · exact .inr (step_move hw hl h)

theorem Gone.result?_eq_none (h : w.Gone) : w.result? = none := by
  unfold result?
  split
  · rename_i u hrun
    obtain ⟨-, hu, hid⟩ := running?_eq_some hrun
    exact absurd hid (h.rootless u hu)
  · rfl

end Walk

end PackageGate
