import Mathlib.Data.List.Perm.Basic
import PackageGate.Analysis.Queue
import PackageGate.Proofs.Findings
import PackageGate.Proofs.Steps

/-!
# Moves of the analysis queue

Every possible step of the queue is one of a dozen moves, each with a condition
and an effect. Later modules argue by cases on the move and never open the step
function.

- `Queue.Move`: the moves; `Queue.step_move`: every step is one of them.
- `Queue.held`: the items in work; `Queue.flatMap_set_perm`, `Queue.held_set_perm`: what
  a worker's change does to what is told of all workers, and to the items in work.
- `Queue.Move.accounted`: `pending` counts the waiting items and those in work.
- `Queue.Move.findings_mono`, `Queue.Move.submissions_mono`, `Queue.Move.recorded`:
  nothing found or submitted is forgotten, and a malicious verdict of the current
  epoch is recorded in the very step that brings it.
-/

namespace PackageGate

namespace Queue

/-- The item that a worker is busy with. -/
def Worker.item? : Worker → Option Item
  | .submitting item _ => some item
  | .reporting item _ _ => some item
  | _ => none

@[simp] theorem Worker.item?_waiting : Worker.waiting.item? = none := rfl

@[simp] theorem Worker.item?_receiving : Worker.receiving.item? = none := rfl

@[simp] theorem Worker.item?_exited : Worker.exited.item? = none := rfl

@[simp] theorem Worker.item?_submitting (item : Item) (p : Package) :
    (Worker.submitting item p).item? = some item := rfl

@[simp] theorem Worker.item?_reporting (item : Item) (p : Package) (id : String) :
    (Worker.reporting item p id).item? = some item := rfl

/-- The key that a caller puts into the channel next, and where it stands then. -/
def Caller.offer? : Caller → Option (String × Caller)
  | .enqueueing key => some (key, .returned .finished)
  | .feeding [key] => some (key, .draining)
  | .feeding (key :: keys) => some (key, .feeding keys)
  | _ => none

/-- The items in work. -/
def held (q : Queue) : List Item := q.workers.filterMap Worker.item?

/-- The moves of the queue. -/
inductive Move (q : Queue) : Label → Queue → Prop
  | call {c : Call} : q.caller = .idle ∨ (∃ e, q.caller = .returned e) → q.isOpen = true →
    Move q (.call c) (q.beginCall c)
  | offer {key : String} {next : Caller} : q.isFull = false → q.caller.offer? = some (key, next) →
    Move q .offer { q.push key with caller := next }
  | settle : q.caller = .draining → q.pending = 0 →
    Move q .settle { q with caller := .returned .finished }
  | abandon {key : String} : q.caller = .enqueueing key →
    Move q .timeout { q with caller := .returned .abandoned }
  | cancel : (∃ keys, q.caller = .feeding keys) ∨ q.caller = .draining → Move q .timeout q.cancel
  | closed : q.caller = .closing → (∀ s ∈ q.workers, s = .exited) →
    Move q .closed { q with caller := .returned .finished }
  | listen {w : Nat} : q.workers[w]? = some .waiting →
    Move q (.listen w) (q.setWorker w .receiving)
  | discard {w : Nat} {item : Item} {rest : List Item} : q.workers[w]? = some .receiving →
    q.channel = item :: rest → item.epoch ≠ q.epoch →
    Move q (.take w) ({ q with channel := rest }.release w)
  | reject {w : Nat} {item : Item} {rest : List Item} {why : Package.SpecError} :
    q.workers[w]? = some .receiving → q.channel = item :: rest → item.epoch = q.epoch →
    Package.ofSpec item.key = .error why → Move q (.take w) ({ q with channel := rest }.complete w)
  | submit {w : Nat} {item : Item} {rest : List Item} {p : Package} :
    q.workers[w]? = some .receiving → q.channel = item :: rest → item.epoch = q.epoch →
    Package.ofSpec item.key = .ok p →
    Move q (.take w)
      { { q with channel := rest }.setWorker w (.submitting item p) with
        submissions := q.submissions ++ [p] }
  | leave {w : Nat} : q.workers[w]? = some .receiving → q.channel = [] → q.isOpen = false →
    Move q (.leave w) (q.setWorker w .exited)
  | submitted {w : Nat} {item : Item} {p : Package} {id : String} :
    q.workers[w]? = some (.submitting item p) →
    Move q (.submitted w (.ok id))
      { q.setWorker w (.reporting item p id) with reports := q.reports ++ [id] }
  | unsubmitted {w : Nat} {item : Item} {p : Package} {e : Failure} :
    q.workers[w]? = some (.submitting item p) → Move q (.submitted w (.error e)) (q.complete w)
  | reported {w : Nat} {item : Item} {p : Package} {id : String}
    {reply : Except Failure (Option Report)} : q.workers[w]? = some (.reporting item p id) →
    Move q (.reported w reply) ((q.judge item p reply).complete w)
  | abort {w : Nat} {s : Worker} {item : Item} : q.workers[w]? = some s → s.item? = some item →
    item.epoch ≠ q.epoch → Move q (.abort w) (q.release w)

/-- Every step of the queue is one of its moves. -/
theorem step_move {q q' : Queue} {l : Label} (h : q.step l = some q') : Move q l q' := by
  cases l with
  | call c =>
    simp only [step] at h
    split at h
    · rename_i hc
      split at h <;> cases h
      exact .call (.inl hc) ‹_›
    · rename_i e hc
      split at h <;> cases h
      exact .call (.inr ⟨e, hc⟩) ‹_›
    · cases h
  | offer =>
    simp only [step] at h
    split at h
    · cases h
    · rename_i hfull
      have hfull : q.isFull = false := by simpa using hfull
      split at h <;> cases h <;> exact .offer hfull (by simp_all [Caller.offer?])
  | settle =>
    simp only [step] at h
    split at h
    · split at h <;> cases h
      exact .settle ‹_› ‹_›
    · cases h
  | timeout =>
    simp only [step] at h
    split at h
    · cases h
      exact .abandon ‹_›
    · cases h
      exact .cancel (.inl ⟨_, ‹_›⟩)
    · split at h <;> cases h
      exact .cancel (.inr ‹_›)
    · cases h
  | closed =>
    simp only [step] at h
    split at h
    · split at h <;> cases h
      rename_i hexit
      exact .closed ‹_› fun s hs => of_decide_eq_true (List.all_eq_true.mp hexit s hs)
    · cases h
  | listen w =>
    simp only [step] at h
    split at h <;> cases h
    rename_i hw
    exact .listen (by simp at hw; exact hw.1)
  | take w =>
    simp only [step] at h
    split at h
    · rename_i hw
      split at h
      · rename_i item rest hch
        cases h
        unfold handle
        split
        · exact .discard hw hch ‹_›
        · rename_i he
          have he : item.epoch = q.epoch := by simpa using he
          split
          · exact .reject hw hch he ‹_›
          · exact .submit hw hch he ‹_›
      · cases h
    · cases h
  | leave w =>
    simp only [step] at h
    split at h <;> cases h
    rename_i hw
    simp at hw
    exact .leave hw.1.1 hw.1.2 hw.2
  | submitted w reply =>
    simp only [step] at h
    split at h
    · cases reply <;> cases h
      · exact .unsubmitted ‹_›
      · exact .submitted ‹_›
    · cases h
  | reported w reply =>
    simp only [step] at h
    split at h <;> cases h
    exact .reported ‹_›
  | abort w =>
    simp only [step] at h
    split at h
    · split at h <;> cases h
      exact .abort ‹_› rfl ‹_›
    · split at h <;> cases h
      exact .abort ‹_› rfl ‹_›
    · cases h

/-- A verdict changes nothing but the findings. -/
theorem judge_eq (q : Queue) (item : Item) (p : Package) (reply : Except Failure (Option Report)) :
    q.judge item p reply = q ∨
      ∃ summary, q.judge item p reply =
        { q with findings := (q.findings.record item.key summary).2 } := by
  unfold judge
  split
  · split
    · split
      · exact .inr ⟨_, rfl⟩
      · exact .inl rfl
    · exact .inl rfl
  · exact .inl rfl

/-! ## Accounting -/

/-- A worker that goes from `s` to `s'` takes away what `f` tells of `s` and brings in what it
tells of `s'`. -/
theorem flatMap_set_perm {α : Type} (f : Worker → List α) {q : Queue} {w : Nat} {s : Worker}
    (h : q.workers[w]? = some s) (s' : Worker) :
    (f s ++ (q.setWorker w s').workers.flatMap f).Perm (f s' ++ q.workers.flatMap f) := by
  obtain ⟨hw, rfl⟩ := List.getElem?_eq_some_iff.mp h
  have hset := (List.set_perm_cons_eraseIdx hw s').flatMap_right f
  have hget := (List.getElem_cons_eraseIdx_perm hw).flatMap_right f
  rw [List.flatMap_cons] at hset hget
  calc
    _ = f q.workers[w] ++ (q.workers.set w s').flatMap f := rfl
    _ |>.Perm (f q.workers[w] ++ (f s' ++ (q.workers.eraseIdx w).flatMap f)) := hset.append_left _
    _ |>.Perm (f s' ++ (f q.workers[w] ++ (q.workers.eraseIdx w).flatMap f)) := by
      rw [← List.append_assoc, ← List.append_assoc]
      exact List.perm_append_comm.append_right _
    _ |>.Perm (f s' ++ q.workers.flatMap f) := hget.append_left _

theorem held_eq_flatMap (q : Queue) : q.held = q.workers.flatMap fun s => s.item?.toList :=
  List.filterMap_eq_flatMap_toList _ _

/-- A worker that goes from `s` to `s'` lets go of the item of `s` and takes that of `s'`. -/
theorem held_set_perm {q : Queue} {w : Nat} {s : Worker} (h : q.workers[w]? = some s)
    (s' : Worker) :
    (s.item?.toList ++ (q.setWorker w s').held).Perm (s'.item?.toList ++ q.held) := by
  rw [held_eq_flatMap, held_eq_flatMap]
  exact flatMap_set_perm (fun s => s.item?.toList) h s'

/-- `pending` counts the items that are waiting and those in work. -/
def Accounted (q : Queue) : Prop := q.pending = q.channel.length + q.held.length

theorem accounted_ofSizes (capacity workers : Nat) : (ofSizes capacity workers).Accounted := by
  have hheld : (ofSizes capacity workers).held = [] := by
    refine List.filterMap_eq_nil_iff.mpr fun s hs => ?_
    rw [List.eq_of_mem_replicate hs, Worker.item?_waiting]
  rw [Accounted, hheld]
  rfl

/-- A worker that changes without letting go of an item or taking one leaves the count as it is. -/
theorem held_length_of_same {q : Queue} {w : Nat} {s s' : Worker} (h : q.workers[w]? = some s)
    (hsame : s.item?.toList.length = s'.item?.toList.length) :
    (q.setWorker w s').held.length = q.held.length := by
  have hperm := (held_set_perm h s').length_eq
  simp only [List.length_append] at hperm
  omega

/-- A worker that lets go of its item makes one item less. -/
theorem held_length_of_release {q : Queue} {w : Nat} {s : Worker} {item : Item}
    (h : q.workers[w]? = some s) (hitem : s.item? = some item) :
    (q.setWorker w .waiting).held.length + 1 = q.held.length := by
  have hperm := (held_set_perm h .waiting).length_eq
  rw [hitem] at hperm
  simp at hperm
  omega

/-- With no item in work, a worker that takes none changes nothing. -/
theorem held_setWorker_eq_nil {q : Queue} {w : Nat} {s s' : Worker} (hnil : q.held = [])
    (h : q.workers[w]? = some s) (hs' : s'.item? = none) : (q.setWorker w s').held = [] := by
  have hperm := held_set_perm h s'
  rw [hs', hnil] at hperm
  exact (List.append_eq_nil_iff.mp (List.perm_nil.mp hperm)).2

/-- The item of a busy worker is in work. -/
theorem mem_held {q : Queue} {w : Nat} {s : Worker} {item : Item} (h : q.workers[w]? = some s)
    (hitem : s.item? = some item) : item ∈ q.held :=
  List.mem_filterMap.mpr ⟨s, List.mem_of_getElem? h, hitem⟩

/-- Every move keeps the count right. -/
theorem Move.accounted {q q' : Queue} {l : Label} (h : Move q l q') (hq : q.Accounted) :
    q'.Accounted := by
  unfold Accounted at hq ⊢
  cases h with
  | @call c =>
    cases c with
    | analyzeAll keys => cases keys <;> exact hq
    | enqueue | drain | shutdown => exact hq
  | settle | abandon | cancel | closed => exact hq
  -- An item is pending from the moment it stands in the channel.
  | offer =>
    show q.pending + 1 = (q.channel ++ [_]).length + q.held.length
    rw [hq, List.length_append, List.length_singleton]
    omega
  | @listen w hw =>
    have hheld : (q.setWorker w .receiving).held.length = q.held.length :=
      held_length_of_same hw rfl
    rw [hheld]
    exact hq
  | @leave w hw =>
    have hheld : (q.setWorker w .exited).held.length = q.held.length := held_length_of_same hw rfl
    rw [hheld]
    exact hq
  | @discard w item rest hw hch =>
    have hheld : (q.setWorker w .waiting).held.length = q.held.length := held_length_of_same hw rfl
    show q.pending - 1 = rest.length + (q.setWorker w .waiting).held.length
    rw [hheld, hq, hch, List.length_cons]
    omega
  | @reject w item rest _ hw hch =>
    have hheld : (q.setWorker w .waiting).held.length = q.held.length := held_length_of_same hw rfl
    show q.pending - 1 = rest.length + (q.setWorker w .waiting).held.length
    rw [hheld, hq, hch, List.length_cons]
    omega
  | @submit w item rest p hw hch =>
    -- The item goes from the channel to the worker: the sum stays.
    have hheld := (held_set_perm hw (.submitting item p)).length_eq
    simp at hheld
    show q.pending = rest.length + (q.setWorker w (.submitting item p)).held.length
    rw [hq, hch, List.length_cons]
    omega
  | @submitted w item p id hw =>
    have hheld : (q.setWorker w (.reporting item p id)).held.length = q.held.length :=
      held_length_of_same hw rfl
    show q.pending = q.channel.length + (q.setWorker w (.reporting item p id)).held.length
    rw [hheld, hq]
  | @unsubmitted w item p _ hw =>
    have hheld := held_length_of_release hw rfl
    show q.pending - 1 = q.channel.length + (q.setWorker w .waiting).held.length
    omega
  | @reported w item p id reply hw =>
    have hheld := held_length_of_release hw rfl
    rcases judge_eq q item p reply with hj | ⟨_, hj⟩ <;> rw [hj] <;>
      show q.pending - 1 = q.channel.length + (q.setWorker w .waiting).held.length <;> omega
  | @abort w s item hw hitem =>
    have hheld := held_length_of_release hw hitem
    show q.pending - 1 = q.channel.length + (q.setWorker w .waiting).held.length
    omega

/-- When nothing is pending, nothing waits and no worker is busy. -/
theorem Accounted.idle {q : Queue} (hq : q.Accounted) (h : q.pending = 0) :
    q.channel = [] ∧ q.held = [] := by
  unfold Accounted at hq
  exact ⟨List.eq_nil_of_length_eq_zero (by omega), List.eq_nil_of_length_eq_zero (by omega)⟩

/-! ## Growth -/

/-- A move finds nothing, or records one key. -/
theorem Move.findings_cases {q q' : Queue} {l : Label} (h : Move q l q') :
    q'.findings = q.findings ∨ ∃ key summary, q'.findings = (q.findings.record key summary).2 := by
  cases h with
  | @call c =>
    cases c with
    | analyzeAll keys => cases keys <;> exact .inl rfl
    | enqueue | drain | shutdown => exact .inl rfl
  | @reported w item p id reply =>
    rcases judge_eq q item p reply with hj | ⟨summary, hj⟩
    · rw [hj]
      exact .inl rfl
    · rw [hj]
      exact .inr ⟨item.key, summary, rfl⟩
  | _ => exact .inl rfl

/-- No finding is withdrawn. -/
theorem Move.findings_mono {q q' : Queue} {l : Label} (h : Move q l q') :
    q.findings.entries.Sublist q'.findings.entries := by
  rcases h.findings_cases with hf | ⟨key, summary, hf⟩
  · rw [hf]
  · rw [hf]
    exact q.findings.sublist_record key summary

theorem Move.isSorted {q q' : Queue} {l : Label} (h : Move q l q') (hq : q.findings.IsSorted) :
    q'.findings.IsSorted := by
  rcases h.findings_cases with hf | ⟨key, summary, hf⟩
  · rwa [hf]
  · rw [hf]
    exact Findings.isSorted_record hq key summary

/-- No submission is forgotten. -/
theorem Move.submissions_mono {q q' : Queue} {l : Label} (h : Move q l q') :
    q.submissions <+: q'.submissions := by
  cases h with
  | @call c =>
    cases c with
    | analyzeAll keys => cases keys <;> exact List.prefix_rfl
    | enqueue | drain | shutdown => exact List.prefix_rfl
  | submit => exact List.prefix_append _ _
  | @reported w item p id reply =>
    rcases judge_eq q item p reply with hj | ⟨_, hj⟩ <;> rw [hj] <;> exact List.prefix_rfl
  | _ => exact List.prefix_rfl

/-- Only giving up starts a new epoch. -/
theorem Move.epoch_eq {q q' : Queue} {l : Label} (h : Move q l q') (hl : l ≠ .timeout) :
    q'.epoch = q.epoch := by
  cases h with
  | @call c =>
    cases c with
    | analyzeAll keys => cases keys <;> rfl
    | enqueue | drain | shutdown => rfl
  | @reported w item p id reply =>
    rcases judge_eq q item p reply with hj | ⟨_, hj⟩ <;> rw [hj] <;> rfl
  | cancel => exact absurd rfl hl
  | _ => rfl

/-- A malicious verdict on an item of the current epoch is recorded in the step that brings it. -/
theorem Move.recorded {q q' : Queue} {w : Nat} {r : Report} {item : Item} {p : Package}
    {id : String} {v : Verdict} (h : Move q (.reported w (.ok (some r))) q')
    (hw : q.workers[w]? = some (.reporting item p id)) (hepoch : item.epoch = q.epoch)
    (hv : r.verdict? p = some v) (hmal : v.isMalicious = true) :
    q'.findings.contains item.key := by
  cases h with
  | @reported _ item' p' id' _ hw' =>
    rw [hw] at hw'
    cases hw'
    show (q.judge item p (.ok (some r))).findings.contains item.key
    have hj : q.judge item p (.ok (some r)) =
        { q with findings := (q.findings.record item.key v.summary).2 } := by
      simp [judge, hv, hmal, hepoch]
    rw [hj]
    exact q.findings.contains_record item.key v.summary

/-! ## After the exit of all workers -/

/-- Every worker has exited, and the call that waited for them has returned. -/
structure AtRest (q : Queue) : Prop where
  returned : q.caller = .returned .finished
  exited : ∀ s ∈ q.workers, s = .exited
  closed : q.isOpen = false

/-- A queue at rest takes no step any more. -/
theorem AtRest.step_eq_none {q : Queue} (hq : q.AtRest) (l : Label) : q.step l = none := by
  have hworker : ∀ {w : Nat} {s : Worker}, q.workers[w]? = some s → s = .exited :=
    fun hw => hq.exited _ (List.mem_of_getElem? hw)
  cases h : q.step l with
  | none => rfl
  | some q' =>
    exfalso
    cases step_move h with
    | call _ hopen => simp [hq.closed] at hopen
    | offer _ hoffer => simp [hq.returned, Caller.offer?] at hoffer
    | settle hc | abandon hc | closed hc => simp [hq.returned] at hc
    | cancel hc => simp [hq.returned] at hc
    | listen hw | discard hw | reject hw | submit hw | leave hw | submitted hw | unsubmitted hw
    | reported hw => cases hworker hw
    | abort hw hitem =>
      rw [hworker hw, Worker.item?_exited] at hitem
      cases hitem

end Queue

end PackageGate
