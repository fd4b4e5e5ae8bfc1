import Mathlib.Algebra.Order.Group.Multiset
import Mathlib.Tactic.Abel
import PackageGate.Proofs.Queue.Moves

/-!
# What a run of the queue tells

Every step of the queue that concerns an item tells one event: the item is put into the
channel, a query about it goes out to the service, or it is done with. The events of a run
make up the difference between the two states it leads from and to.

- `Queue.Query`, `Queue.Entry`, `Queue.Event`: what is asked, what becomes of an item, and
  what is told.
- `Queue.event?`, `Queue.events`: what a step tells, and what a run tells.
- `Queue.Effect`: the difference that events make; `Queue.effect_of_steps`: the events of a
  run make the difference between its two ends.
- `Queue.Effect.items`: every item that is there or comes in stays or is done with.
- `Queue.Fits`: what the epoch of the queue says about an event told in it.
-/

namespace PackageGate

namespace Queue

/-- What the service is asked about an item. -/
inductive Query
  /-- To analyze the item's package. -/
  | submit (item : Item) (p : Package)
  /-- For the report on the submission that it has called `id`. -/
  | report (item : Item) (id : String)
deriving DecidableEq

/-- The item that a query is about. -/
def Query.item : Query → Item
  | submit item _ => item
  | report item _ => item

/-- The package that a query submits. -/
def Query.package? : Query → Option Package
  | submit _ p => some p
  | report _ _ => none

/-- The submission whose report a query asks for. -/
def Query.id? : Query → Option String
  | submit _ _ => none
  | report _ id => some id

/-- What has become of an item. -/
inductive Entry
  /-- Its key names no package. -/
  | rejected (item : Item)
  /-- The submission of its package has failed. -/
  | refused (item : Item) (p : Package) (e : Failure)
  /-- The service has answered with `reply` while the item's epoch was going on. -/
  | judged (item : Item) (p : Package) (id : String) (reply : Except Failure (Option Report))
  /-- The service has answered when the item's epoch was over. -/
  | late (item : Item) (p : Package) (id : String)
  /-- A worker that stood at `s` has let it go, since its epoch was over. -/
  | dropped (item : Item) (s : Worker)

/-- The item that an entry is about. -/
def Entry.item : Entry → Item
  | rejected item => item
  | refused item _ _ => item
  | judged item _ _ _ => item
  | late item _ _ => item
  | dropped item _ => item

/-- The queries that are out for the item that a worker is busy with. -/
def Worker.queries : Worker → List Query
  | .submitting item p => [.submit item p]
  | .reporting item p id => [.submit item p, .report item id]
  | _ => []

/-- The queries that have been made for the item of an entry. -/
def Entry.queries : Entry → List Query
  | rejected _ => []
  | refused item p _ => [.submit item p]
  | judged item p id _ => [.submit item p, .report item id]
  | late item p id => [.submit item p, .report item id]
  | dropped _ s => s.queries

/-- The finding that the answer to a request for the report on `p` makes: there is one if
the report calls the package malicious. -/
def findingOf (key : String) (p : Package) : Except Failure (Option Report) → Option Finding
  | .ok (some r) =>
    match r.verdict? p with
    | some v => if v.isMalicious then some ⟨key, v.summary⟩ else none
    | none => none
  | _ => none

/-- What an entry adds to the findings: a malicious verdict that came in time. -/
def Entry.finding? : Entry → Option Finding
  | judged item p _ reply => findingOf item.key p reply
  | _ => none

/-- Whether a worker has let the item go unfinished. -/
def Entry.isDropped : Entry → Bool
  | dropped _ _ => true
  | _ => false

/-- What a step tells. -/
inductive Event
  | put (item : Item)
  | asked (query : Query)
  | ended (entry : Entry)

namespace Event

/-- The item that comes into the channel. -/
def puts : Event → List Item
  | put item => [item]
  | _ => []

/-- The query that goes out. -/
def queries : Event → List Query
  | asked query => [query]
  | _ => []

/-- What becomes of an item. -/
def entries : Event → List Entry
  | ended entry => [entry]
  | _ => []

/-- The item that leaves the channel. -/
def taken : Event → List Item
  | asked (.submit item _) => [item]
  | ended (.rejected item) => [item]
  | ended (.dropped item .receiving) => [item]
  | _ => []

/-- The item that a worker becomes busy with. -/
def received : Event → List Item
  | asked (.submit item _) => [item]
  | _ => []

/-- The item that a busy worker is done with. -/
def released : Event → List Item
  | ended (.refused item _ _) => [item]
  | ended (.judged item _ _ _) => [item]
  | ended (.late item _ _) => [item]
  | ended (.dropped item s) => if s = .receiving then [] else [item]
  | _ => []

/-- An item that leaves the channel goes to a worker or is done with at once. -/
theorem taken_add_released (e : Event) :
    (e.taken : Multiset Item) + e.released =
      e.received + (e.entries.map Entry.item : List Item) := by
  match e with
  | put _ | asked (.submit _ _) | asked (.report _ _) => rfl
  | ended (.rejected _) | ended (.refused _ _ _) | ended (.judged _ _ _ _)
  | ended (.late _ _ _) => rfl
  | ended (.dropped item s) =>
    by_cases hs : s = .receiving
    · rw [hs]
      rfl
    · have htaken : (ended (.dropped item s)).taken = [] := by
        cases s <;> first | rfl | exact absurd rfl hs
      rw [htaken, released, if_neg hs]
      rfl

end Event

/-- What a step tells of the item that it concerns. -/
def event? (q : Queue) : Label → Option Event
  | .offer => q.caller.offer?.map fun x => .put ⟨x.1, q.epoch⟩
  | .take _ =>
    match q.channel with
    | item :: _ =>
      some (if item.epoch ≠ q.epoch then .ended (.dropped item .receiving)
        else
          match Package.ofSpec item.key with
          | .error _ => .ended (.rejected item)
          | .ok p => .asked (.submit item p))
    | [] => none
  | .submitted w reply =>
    match q.workers[w]? with
    | some (.submitting item p) =>
      match reply with
      | .ok id => some (.asked (.report item id))
      | .error e => some (.ended (.refused item p e))
    | _ => none
  | .reported w reply =>
    match q.workers[w]? with
    | some (.reporting item p id) =>
      some (.ended (if item.epoch = q.epoch then .judged item p id reply else .late item p id))
    | _ => none
  | .abort w => do
    let s ← q.workers[w]?
    let item ← s.item?
    return .ended (.dropped item s)
  | _ => none

/-- What the steps `ls` from `q` tell. -/
def events (q : Queue) (ls : List Label) : List Event := gather step event? q ls

/-- The items that the steps `ls` from `q` put into the channel. -/
def puts (q : Queue) (ls : List Label) : List Item := (q.events ls).flatMap Event.puts

/-- The queries that go out with the steps `ls` from `q`. -/
def queries (q : Queue) (ls : List Label) : List Query := (q.events ls).flatMap Event.queries

/-- What becomes of items with the steps `ls` from `q`. -/
def entries (q : Queue) (ls : List Label) : List Entry := (q.events ls).flatMap Event.entries

/-! ## The difference that events make -/

/-- The queries that are out, with those they follow. -/
def spent (q : Queue) : List Query := q.workers.flatMap Worker.queries

/-- The events `es` make the difference between `q` and `q'`. -/
structure Effect (q : Queue) (es : List Event) (q' : Queue) : Prop where
  channel : q.channel ++ es.flatMap Event.puts = es.flatMap Event.taken ++ q'.channel
  held : (q.held : Multiset Item) + (es.flatMap Event.received : List Item) =
    q'.held + (es.flatMap Event.released : List Item)
  spent : (q.spent : Multiset Query) + (es.flatMap Event.queries : List Query) =
    q'.spent + ((es.flatMap Event.entries).flatMap Entry.queries : List Query)
  enqueued : q'.enqueued = q.enqueued + (es.flatMap Event.puts).length
  analyzed : q'.analyzed = q.analyzed + ((es.flatMap Event.entries).filter (!·.isDropped)).length
  submissions :
    q'.submissions = q.submissions ++ (es.flatMap Event.queries).filterMap Query.package?
  reports : q'.reports = q.reports ++ (es.flatMap Event.queries).filterMap Query.id?
  findings : q'.findings =
    q.findings.recordAll ((es.flatMap Event.entries).filterMap Entry.finding?)

variable {q q' q'' : Queue} {l : Label} {ls : List Label} {es es' : List Event} {e : Event}

/-- Steps that nothing is told of leave everything but the caller's place and idle workers. -/
theorem Effect.refl (q : Queue) : Effect q [] q where
  channel := List.append_nil _
  held := rfl
  spent := rfl
  enqueued := rfl
  analyzed := rfl
  submissions := (List.append_nil _).symm
  reports := (List.append_nil _).symm
  findings := rfl

/-- One difference after another is the difference that all the events make. -/
theorem Effect.trans (h : Effect q es q') (h' : Effect q' es' q'') :
    Effect q (es ++ es') q'' where
  channel := by
    rw [List.flatMap_append, List.flatMap_append, ← List.append_assoc, h.channel,
      List.append_assoc, h'.channel, List.append_assoc]
  held := by
    rw [List.flatMap_append, List.flatMap_append, ← Multiset.coe_add, ← Multiset.coe_add,
      ← add_assoc, h.held, add_right_comm, h'.held, add_right_comm, add_assoc]
  spent := by
    rw [List.flatMap_append, List.flatMap_append, List.flatMap_append, ← Multiset.coe_add,
      ← Multiset.coe_add, ← add_assoc, h.spent, add_right_comm, h'.spent, add_right_comm, add_assoc]
  enqueued := by
    rw [h'.enqueued, h.enqueued, List.flatMap_append, List.length_append, Nat.add_assoc]
  analyzed := by
    rw [h'.analyzed, h.analyzed, List.flatMap_append, List.filter_append, List.length_append,
      Nat.add_assoc]
  submissions := by
    rw [h'.submissions, h.submissions, List.flatMap_append, List.filterMap_append,
      List.append_assoc]
  reports := by
    rw [h'.reports, h.reports, List.flatMap_append, List.filterMap_append, List.append_assoc]
  findings := by
    rw [h'.findings, h.findings, List.flatMap_append, List.filterMap_append,
      Findings.recordAll_append]

/-- What a step brings in and takes away, where it makes one worker go from `s` to `s'`. -/
theorem balance_of_worker {α : Type} (f : Worker → List α) {w : Nat} {s s' : Worker}
    (hw : q.workers[w]? = some s) (hworkers : q'.workers = q.workers.set w s') {gain loss : List α}
    (h : (f s' ++ loss).Perm (f s ++ gain)) :
    (q.workers.flatMap f : Multiset α) + gain = (q'.workers.flatMap f : List α) + loss := by
  have hset : (f s ++ q'.workers.flatMap f).Perm (f s' ++ q.workers.flatMap f) := by
    rw [hworkers]
    exact flatMap_set_perm f hw s'
  have hset : (f s : Multiset α) + (q'.workers.flatMap f : List α) =
      f s' + (q.workers.flatMap f : List α) := by
    rw [Multiset.coe_add, Multiset.coe_add, Multiset.coe_eq_coe]
    exact hset
  have h : (f s' : Multiset α) + loss = f s + gain := by
    rw [Multiset.coe_add, Multiset.coe_add, Multiset.coe_eq_coe]
    exact h
  refine add_left_cancel (a := (f s' : Multiset α)) ?_
  calc
    _ = (f s : Multiset α) + gain + (q'.workers.flatMap f : List α) := by
      rw [← add_assoc, ← hset, add_right_comm]
    _ = f s' + ((q'.workers.flatMap f : List α) + loss) := by
      rw [← h, add_assoc, add_comm (loss : Multiset α)]

/-- The event of a step with which one worker goes from `s` to `s'`. -/
theorem Effect.of_worker {w : Nat} {s s' : Worker} (hw : q.workers[w]? = some s)
    (hworkers : q'.workers = q.workers.set w s')
    (hitems : (s'.item?.toList ++ e.released).Perm (s.item?.toList ++ e.received))
    (hqueries : (s'.queries ++ e.entries.flatMap Entry.queries).Perm (s.queries ++ e.queries))
    (hputs : e.puts = []) (hchannel : q.channel = e.taken ++ q'.channel)
    (henqueued : q'.enqueued = q.enqueued)
    (hanalyzed : q'.analyzed = q.analyzed + (e.entries.filter (!·.isDropped)).length)
    (hsubmissions : q'.submissions = q.submissions ++ e.queries.filterMap Query.package?)
    (hreports : q'.reports = q.reports ++ e.queries.filterMap Query.id?)
    (hfindings : q'.findings = q.findings.recordAll (e.entries.filterMap Entry.finding?)) :
    Effect q [e] q' where
  channel := by simpa [hputs] using hchannel
  held := by
    rw [List.flatMap_singleton, List.flatMap_singleton, held_eq_flatMap, held_eq_flatMap]
    exact balance_of_worker (fun s => s.item?.toList) hw hworkers hitems
  spent := by
    rw [List.flatMap_singleton, List.flatMap_singleton]
    exact balance_of_worker Worker.queries hw hworkers hqueries
  enqueued := by simpa [hputs] using henqueued
  analyzed := by simpa using hanalyzed
  submissions := by simpa using hsubmissions
  reports := by simpa using hreports
  findings := by simpa using hfindings

theorem Worker.queries_of_idle {s : Worker} (h : s.item? = none) : s.queries = [] := by
  cases s with
  | submitting | reporting => cases h
  | waiting | receiving | exited => rfl

/-- A worker without an item that takes none makes no difference. -/
theorem Effect.of_idle {w : Nat} {s s' : Worker} (hw : q.workers[w]? = some s)
    (hs : s.item? = none) (hs' : s'.item? = none) : Effect q [] (q.setWorker w s') where
  channel := List.append_nil _
  held := by
    rw [held_eq_flatMap, held_eq_flatMap]
    refine balance_of_worker (fun s => s.item?.toList) hw rfl ?_
    rw [hs, hs']
    rfl
  spent := by
    refine balance_of_worker Worker.queries hw rfl ?_
    rw [Worker.queries_of_idle hs, Worker.queries_of_idle hs']
    rfl
  enqueued := rfl
  analyzed := rfl
  submissions := (List.append_nil _).symm
  reports := (List.append_nil _).symm
  findings := rfl

/-- Where the caller alone goes on, no difference is made. -/
theorem Effect.of_caller (q : Queue) (c : Caller) (isOpen : Bool) (epoch : Nat) :
    Effect q [] { q with caller := c, isOpen := isOpen, epoch := epoch } where
  channel := List.append_nil _
  held := rfl
  spent := rfl
  enqueued := rfl
  analyzed := rfl
  submissions := (List.append_nil _).symm
  reports := (List.append_nil _).symm
  findings := rfl

theorem Effect.of_beginCall (q : Queue) (c : Call) : Effect q [] (q.beginCall c) := by
  cases c with
  | analyzeAll keys => cases keys <;> exact .of_caller q _ _ _
  | enqueue | drain | shutdown => exact .of_caller q _ _ _

/-- What the queue records of an answer that came in time is what the entry tells. -/
theorem judge_findings (q : Queue) {item : Item} (p : Package) (id : String)
    (reply : Except Failure (Option Report)) (hepoch : item.epoch = q.epoch) :
    (q.judge item p reply).findings =
      q.findings.recordAll ([Entry.judged item p id reply].filterMap Entry.finding?) := by
  have hfinding : [Entry.judged item p id reply].filterMap Entry.finding? =
      (findingOf item.key p reply).toList := by
    rw [List.filterMap_cons, Entry.finding?, List.filterMap_nil]
    cases findingOf item.key p reply <;> rfl
  rw [hfinding]
  rcases reply with e | _ | r
  · rfl
  · rfl
  · simp only [judge, findingOf]
    cases r.verdict? p with
    | none => rfl
    | some v =>
      by_cases hmal : v.isMalicious = true
      · simp [hmal, hepoch]
      · simp [hmal]

/-- Of an answer that came too late nothing is recorded. -/
theorem judge_of_late (q : Queue) {item : Item} (p : Package)
    (reply : Except Failure (Option Report)) (hepoch : item.epoch ≠ q.epoch) :
    q.judge item p reply = q := by
  unfold judge
  split
  · split
    · simp [hepoch]
    · rfl
  · rfl

/-- A step's event makes the difference that the step makes. -/
theorem Move.effect (h : Move q l q') : Effect q (q.event? l).toList q' := by
  cases h with
  | call => exact .of_beginCall q _
  | settle | abandon | cancel | closed => exact .of_caller q _ _ _
  | @offer key next _ hoffer =>
    have hev : q.event? .offer = some (.put ⟨key, q.epoch⟩) := by rw [event?, hoffer]; rfl
    rw [hev]
    exact {
      channel := by simp [Event.puts, Event.taken, push]
      held := rfl
      spent := rfl
      enqueued := rfl
      analyzed := rfl
      submissions := (List.append_nil _).symm
      reports := (List.append_nil _).symm
      findings := rfl }
  | listen hw => exact .of_idle hw rfl rfl
  | leave hw => exact .of_idle hw rfl rfl
  | @discard w item rest hw hch hepoch =>
    have hev : q.event? (.take w) = some (.ended (.dropped item .receiving)) := by
      simp [event?, hch, hepoch]
    rw [hev]
    exact .of_worker hw rfl .rfl .rfl rfl hch rfl rfl (List.append_nil _).symm
      (List.append_nil _).symm rfl
  | @reject w item rest why hw hch hepoch hspec =>
    have hev : q.event? (.take w) = some (.ended (.rejected item)) := by
      simp [event?, hch, hepoch, hspec]
    rw [hev]
    exact .of_worker hw rfl .rfl .rfl rfl hch rfl rfl (List.append_nil _).symm
      (List.append_nil _).symm rfl
  | @submit w item rest p hw hch hepoch hspec =>
    have hev : q.event? (.take w) = some (.asked (.submit item p)) := by
      simp [event?, hch, hepoch, hspec]
    rw [hev]
    exact .of_worker hw rfl .rfl .rfl rfl hch rfl rfl rfl (List.append_nil _).symm rfl
  | @submitted w item p id hw =>
    have hev : q.event? (.submitted w (.ok id)) = some (.asked (.report item id)) := by
      simp [event?, hw]
    rw [hev]
    exact .of_worker hw rfl .rfl .rfl rfl rfl rfl rfl (List.append_nil _).symm rfl rfl
  | @unsubmitted w item p e hw =>
    have hev : q.event? (.submitted w (.error e)) = some (.ended (.refused item p e)) := by
      simp [event?, hw]
    rw [hev]
    exact .of_worker hw rfl .rfl .rfl rfl rfl rfl rfl (List.append_nil _).symm
      (List.append_nil _).symm rfl
  | @reported w item p id reply hw =>
    by_cases hepoch : item.epoch = q.epoch
    · have hev : q.event? (.reported w reply) = some (.ended (.judged item p id reply)) := by
        simp [event?, hw, hepoch]
      rw [hev]
      have hfindings := judge_findings q p id reply hepoch
      rcases judge_eq q item p reply with hj | ⟨_, hj⟩ <;> rw [hj] at hfindings ⊢ <;>
        exact .of_worker hw rfl .rfl .rfl rfl rfl rfl rfl (List.append_nil _).symm
          (List.append_nil _).symm hfindings
    · have hev : q.event? (.reported w reply) = some (.ended (.late item p id)) := by
        simp [event?, hw, hepoch]
      rw [hev, judge_of_late q p reply hepoch]
      exact .of_worker hw rfl .rfl .rfl rfl rfl rfl rfl (List.append_nil _).symm
        (List.append_nil _).symm rfl
  | @abort w s item hw hitem hepoch =>
    have hev : q.event? (.abort w) = some (.ended (.dropped item s)) := by
      simp [event?, hw, hitem]
    have hbusy : s ≠ .receiving := by
      rintro rfl
      cases hitem
    have htaken : (Event.ended (.dropped item s)).taken = [] := by
      cases s <;> first | rfl | cases hitem
    rw [hev]
    refine .of_worker hw rfl ?_ ?_ rfl ?_ rfl rfl (List.append_nil _).symm
      (List.append_nil _).symm rfl
    · rw [Event.released, if_neg hbusy, hitem]
      exact .rfl
    · simp [Event.entries, Event.queries, Entry.queries, Worker.queries]
    · rw [htaken]
      rfl

/-- The events of a run make the difference between its two ends. -/
theorem effect_of_steps (h : Steps step q ls q') : Effect q (q.events ls) q' := by
  induction h with
  | refl => exact .refl q
  | tail hm hstep ih =>
    rw [events, gather_concat hm hstep]
    exact ih.trans (step_move hstep).effect

/-- Every item that is there or comes in stays or is done with. -/
theorem Effect.items (h : Effect q es q') :
    (q.channel : Multiset Item) + q.held + (es.flatMap Event.puts : List Item) =
      q'.channel + q'.held + ((es.flatMap Event.entries).map Entry.item : List Item) := by
  have hevents : ∀ es : List Event,
      (es.flatMap Event.taken : Multiset Item) + (es.flatMap Event.released : List Item) =
        (es.flatMap Event.received : List Item) +
          ((es.flatMap Event.entries).map Entry.item : List Item) := by
    intro es
    induction es with
    | nil => rfl
    | cons e es ih =>
      simp only [List.flatMap_cons, List.map_append, ← Multiset.coe_add]
      rw [add_add_add_comm, ih, e.taken_add_released, add_add_add_comm]
  have hchannel := congrArg (fun l : List Item => (l : Multiset Item)) h.channel
  simp only [← Multiset.coe_add] at hchannel
  refine add_right_cancel (b := (es.flatMap Event.received : Multiset Item)) ?_
  calc
    _ = (q.channel : Multiset Item) + (es.flatMap Event.puts : List Item) +
          (q.held + (es.flatMap Event.received : List Item)) := by abel
    _ = (es.flatMap Event.taken : List Item) + (q'.channel : Multiset Item) +
          (q'.held + (es.flatMap Event.released : List Item)) := by rw [hchannel, h.held]
    _ = q'.channel + q'.held + ((es.flatMap Event.taken : Multiset Item) +
          (es.flatMap Event.released : List Item)) := by abel
    _ = _ := by
      rw [hevents]
      abel

/-! ## Events and epochs -/

/-- A worker that is busy with an item has the package that the item's key names. -/
def Worker.Proper : Worker → Prop
  | .submitting item p => Package.ofSpec item.key = .ok p
  | .reporting item p _ => Package.ofSpec item.key = .ok p
  | _ => True

/-- What the epoch of the queue says about an event told in it: only items of this epoch come
in, are submitted and judged, and only items of other epochs are let go. -/
def Event.Fits (epoch : Nat) : Event → Prop
  | put item => item.epoch = epoch
  | asked (.submit item p) => item.epoch = epoch ∧ Package.ofSpec item.key = .ok p
  | asked (.report _ _) => True
  | ended (.rejected item) => item.epoch = epoch ∧ ∃ why, Package.ofSpec item.key = .error why
  | ended (.refused item p _) => Package.ofSpec item.key = .ok p
  | ended (.judged item p _ _) => item.epoch = epoch ∧ Package.ofSpec item.key = .ok p
  | ended (.late item _ _) => item.epoch ≠ epoch
  | ended (.dropped item s) => item.epoch ≠ epoch ∧ (s = .receiving ∨ s.item? = some item)

/-- What holds of every queue, whatever steps it has taken. -/
structure Valid (q : Queue) : Prop where
  accounted : q.Accounted
  isSorted : q.findings.IsSorted
  proper : ∀ s ∈ q.workers, s.Proper
  epoch_le : ∀ item ∈ q.channel ++ q.held, item.epoch ≤ q.epoch

/-- An event fits the epoch of the queue that tells it. -/
theorem Move.fits (h : Move q l q') (hq : q.Valid) (he : q.event? l = some e) :
    e.Fits q.epoch := by
  have hproper : ∀ {w : Nat} {s : Worker}, q.workers[w]? = some s → s.Proper :=
    fun hw => hq.proper _ (List.mem_of_getElem? hw)
  cases h with
  | call | settle | abandon | cancel | closed | listen | leave => cases he
  | offer _ hoffer =>
    rw [event?, hoffer] at he
    cases he
    rfl
  | discard _ hch hepoch =>
    simp only [event?, hch, ne_eq, hepoch, not_false_eq_true, if_true] at he
    cases he
    exact ⟨hepoch, .inl rfl⟩
  | reject _ hch hepoch hspec =>
    simp only [event?, hch, ne_eq, hepoch, not_true_eq_false, if_false, hspec] at he
    cases he
    exact ⟨hepoch, _, hspec⟩
  | submit _ hch hepoch hspec =>
    simp only [event?, hch, ne_eq, hepoch, not_true_eq_false, if_false, hspec] at he
    cases he
    exact ⟨hepoch, hspec⟩
  | submitted hw =>
    simp only [event?, hw] at he
    cases he
    trivial
  | unsubmitted hw =>
    simp only [event?, hw] at he
    cases he
    exact hproper hw
  | @reported _ item _ _ _ hw =>
    simp only [event?, hw] at he
    by_cases hepoch : item.epoch = q.epoch
    · rw [if_pos hepoch] at he
      cases he
      exact ⟨hepoch, hproper hw⟩
    · rw [if_neg hepoch] at he
      cases he
      exact hepoch
  | abort hw hitem hepoch =>
    simp only [event?, hw, hitem, Option.bind_eq_bind, Option.bind_some] at he
    cases he
    exact ⟨hepoch, .inr hitem⟩

/-- The epoch never falls. -/
theorem Move.epoch_le (h : Move q l q') : q.epoch ≤ q'.epoch := by
  by_cases hl : l = .timeout
  · subst hl
    cases h with
    | abandon => exact le_rfl
    | cancel => exact Nat.le_succ _
  · exact (h.epoch_eq hl).ge

/-- Every move leaves the workers' packages in order. -/
theorem Move.proper (h : Move q l q') (hq : ∀ s ∈ q.workers, s.Proper) :
    ∀ s ∈ q'.workers, s.Proper := by
  have hset : ∀ {w : Nat} {s : Worker}, s.Proper → ∀ t ∈ q.workers.set w s, t.Proper := by
    intro w s hs t ht
    rcases List.mem_or_eq_of_mem_set ht with ht | rfl
    · exact hq t ht
    · exact hs
  cases h with
  | @call c =>
    cases c with
    | analyzeAll keys => cases keys <;> exact hq
    | enqueue | drain | shutdown => exact hq
  | settle | abandon | cancel | closed | offer => exact hq
  | listen | leave | discard | reject | unsubmitted | abort => exact hset trivial
  | submit _ _ _ hspec => exact hset hspec
  | @submitted w item p id hw =>
    have hitem : (Worker.submitting item p).Proper := hq _ (List.mem_of_getElem? hw)
    exact hset (s := .reporting item p id) hitem
  | @reported w item p id reply hw =>
    rcases judge_eq q item p reply with hj | ⟨_, hj⟩ <;> rw [hj] <;>
      exact hset (s := .waiting) trivial

/-- Every move leaves a valid queue valid. -/
theorem Move.valid (h : Move q l q') (hq : q.Valid) : q'.Valid where
  accounted := h.accounted hq.accounted
  isSorted := h.isSorted hq.isSorted
  proper := h.proper hq.proper
  epoch_le item hitem := by
    have hitems := h.effect.items
    have hmem : item ∈ (q.channel : Multiset Item) + q.held +
        ((q.event? l).toList.flatMap Event.puts : List Item) := by
      rw [hitems]
      exact Multiset.mem_add.mpr (.inl (by simpa using hitem))
    rcases Multiset.mem_add.mp hmem with hold | hnew
    · exact (hq.epoch_le item (by simpa using hold)).trans h.epoch_le
    · cases he : q.event? l with
      | none => simp [he] at hnew
      | some e =>
        have hfits := h.fits hq he
        rw [he] at hnew
        cases e with
        | put item' =>
          obtain rfl : item = item' := by simpa [Event.puts] using hnew
          exact hfits.le.trans h.epoch_le
        | asked | ended => simp [Event.puts] at hnew

/-- A new queue that knows `findings`. -/
def fresh (capacity workers : Nat) (findings : Findings) : Queue :=
  { ofSizes capacity workers with findings := findings }

theorem held_fresh (capacity workers : Nat) (findings : Findings) :
    (fresh capacity workers findings).held = [] := by
  refine List.filterMap_eq_nil_iff.mpr fun s hs => ?_
  rw [List.eq_of_mem_replicate hs, Worker.item?_waiting]

theorem valid_fresh (capacity workers : Nat) {findings : Findings} (h : findings.IsSorted) :
    (fresh capacity workers findings).Valid where
  accounted := accounted_ofSizes capacity workers
  isSorted := h
  proper s hs := by
    rw [List.eq_of_mem_replicate hs]
    trivial
  epoch_le item hitem := by
    rw [held_fresh] at hitem
    cases hitem

/-- A queue stays valid. -/
theorem valid_of_steps (h : Steps step q ls q') (hq : q.Valid) : q'.Valid :=
  h.invariant (fun hm hstep => (step_move hstep).valid hm) hq

theorem epoch_le_of_steps (h : Steps step q ls q') : q.epoch ≤ q'.epoch := by
  induction h with
  | refl => exact le_rfl
  | tail _ hstep ih => exact ih.trans (step_move hstep).epoch_le

end Queue

end PackageGate
