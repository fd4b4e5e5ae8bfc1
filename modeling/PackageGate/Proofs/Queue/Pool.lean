import PackageGate.Proofs.Queue.Shared

/-!
# A pool that does not get stuck

A caller waits for a place in the channel, for everything to be done, or for the exit of the
workers, and the workers take turns at the channel. Still nobody waits for ever, and when the
workers have exited nothing is left behind.

- `Queue.Shared.GoesOn`, `Queue.Shared.Attended.goesOn`: whoever waits, somebody goes on.
- `Queue.Shared.work`, `Queue.Shared.length_le_work`: every step of clients and workers lowers a
  weight.
- `Queue.Shared.ShutDown`: what a shutdown leaves behind.
- `Queue.Shared.Serves`, `Queue.Shared.serves`: while somebody waits the queue goes on, and a
  shutdown loses nothing.
-/

namespace PackageGate

namespace Queue

namespace Shared

variable {s s' : Shared} {l : Label} {ls : List Label} {i capacity workers : Nat}
  {known : Findings}

/-! ## Somebody goes on -/

/-- Whether a step is one that needs no new call, no answer of the service, and no time to pass. -/
def Label.isOwn : Label → Bool
  | .client _ .offer | .client _ .settle | .client _ .closed => true
  | .worker l => l.isOwn
  | _ => false

/-- A call of the worker `w` about an item of the current epoch is out, and the worker goes on with
every answer to it. -/
inductive Expects (s : Shared) (w : Nat) : Prop
  | submission {item : Item} {p : Package} : s.queue.workers[w]? = some (.submitting item p) →
    item.epoch = s.queue.epoch → (∀ reply, (s.step (.worker (.submitted w reply))).isSome) →
    Expects s w
  | report {item : Item} {p : Package} {id : String} :
    s.queue.workers[w]? = some (.reporting item p id) → item.epoch = s.queue.epoch →
    (∀ reply, (s.step (.worker (.reported w reply))).isSome) → Expects s w

/-- Some step of a client or a worker is possible, or a worker goes on with every answer that the
service can still give it. -/
def GoesOn (s : Shared) : Prop :=
  (∃ l, l.isOwn ∧ (s.step l).isSome) ∨ ∃ w, s.Expects w

/-- A worker's own step is one of the shared queue. -/
theorem GoesOn.of_worker {l : Queue.Label} (hown : l.isOwn) (h : (s.queue.step l).isSome) :
    s.GoesOn := by
  have hworkers : l.isWorkers = true := by
    cases l with
    | listen | take | leave | abort => rfl
    | call | offer | settle | timeout | closed | submitted | reported => cases hown
  refine .inl ⟨.worker l, hown, ?_⟩
  simp only [step, hworkers, if_true, Option.isSome_map, h]

/-- A busy worker goes on by itself when its item's epoch is over, and else with any answer. -/
theorem GoesOn.of_busy (hheld : s.queue.held ≠ []) : s.GoesOn := by
  obtain ⟨item, hitem⟩ := List.exists_mem_of_ne_nil _ hheld
  obtain ⟨t, ht, hitem⟩ := List.mem_filterMap.mp hitem
  obtain ⟨w, hw⟩ := List.mem_iff_getElem?.mp ht
  by_cases hepoch : item.epoch = s.queue.epoch
  · refine .inr ⟨w, ?_⟩
    cases t with
    | submitting item' p =>
      cases hitem
      refine .submission hw hepoch fun reply => ?_
      cases reply <;> simp [step, Queue.Label.isWorkers, Queue.step, hw]
    | reporting item' p id =>
      cases hitem
      exact .report hw hepoch fun reply => by simp [step, Queue.Label.isWorkers, Queue.step, hw]
    | waiting | receiving | exited => cases hitem
  · exact .of_worker (l := .abort w) rfl (isSome_abort hw hitem hepoch)

/-- The workers go on as long as one of them has not exited and there is an item, or the channel is
closed. -/
theorem GoesOn.of_workers (hworker : ∃ t ∈ s.queue.workers, t ≠ .exited)
    (h : s.queue.channel ≠ [] ∨ s.queue.held ≠ [] ∨ s.queue.isOpen = false) : s.GoesOn := by
  by_cases hheld : s.queue.held = []
  · have h : s.queue.channel ≠ [] ∨ s.queue.isOpen = false :=
      h.imp_right fun h => h.resolve_left (not_not_intro hheld)
    obtain ⟨l, hown, hstep⟩ := exists_turn hworker hheld h
    exact .of_worker hown hstep
  · exact .of_busy hheld

/-- As long as the channel is open, no worker has exited. -/
theorem Attended.exists_worker (hs : s.Attended) (hopen : s.queue.isOpen = true) :
    ∃ t ∈ s.queue.workers, t ≠ .exited := by
  obtain ⟨t, ht⟩ := List.exists_mem_of_ne_nil _ hs.workers
  refine ⟨t, ht, ?_⟩
  rintro rfl
  rw [(hs.exited ht).2] at hopen
  cases hopen

/-- A client's step that is possible in its place is one of the shared queue. -/
theorem GoesOn.of_client {c : Client} (hc : s.clients[i]? = some c) {l : Queue.Label}
    (hl : l = .settle ∨ l = .closed) (h : ((s.seat c).step l).isSome) : s.GoesOn := by
  rcases hl with rfl | rfl
  · exact .inl ⟨.client i .settle, rfl, by simp only [step, hc, Option.isSome_map, h]⟩
  · exact .inl ⟨.client i .closed, rfl, by simp only [step, hc, Option.isSome_map, h]⟩

/-- A client that has a key to put has a place, or the workers go on. -/
theorem GoesOn.of_offer (hs : s.Attended) {c : Client} (hc : s.clients[i]? = some c)
    {key : String} {next : Caller} (hoffer : c.caller.offer? = some (key, next)) : s.GoesOn := by
  have hopen : s.queue.isOpen = true :=
    (hs.clients c (List.mem_of_getElem? hc)).waiting (Caller.offer?_ne_fed hoffer).1
  by_cases hfull : s.queue.isFull = true
  · refine .of_workers (hs.exists_worker hopen) (.inl fun hnil => ?_)
    have hcapacity := hs.capacity
    rw [isFull, hnil, decide_eq_true_eq, List.length_nil] at hfull
    omega
  · refine .inl ⟨.client i .offer, rfl, ?_⟩
    simp [step, hc, put?, hoffer, hopen, hfull]

/-- Whoever waits, somebody goes on. -/
theorem Attended.goesOn (hs : s.Attended) {c : Client} (hc : c ∈ s.clients)
    (hpending : c.caller.isPending = true) : s.GoesOn := by
  obtain ⟨i, hi⟩ := List.mem_iff_getElem?.mp hc
  have hminded := hs.clients c hc
  have haccounted : s.queue.pending = s.queue.channel.length + s.queue.held.length :=
    hs.valid.accounted
  cases hcaller : c.caller with
  | idle | returned =>
    rw [hcaller] at hpending
    cases hpending
  | enqueueing key =>
    have hoffer : c.caller.offer? = some (key, .returned .finished) := by rw [hcaller]; rfl
    exact .of_offer hs hi hoffer
  | feeding keys =>
    match keys with
    | [] => exact absurd hcaller hminded.fed
    | [key] =>
      have hoffer : c.caller.offer? = some (key, .draining) := by rw [hcaller]; rfl
      exact .of_offer hs hi hoffer
    | key :: key' :: keys =>
      have hoffer : c.caller.offer? = some (key, .feeding (key' :: keys)) := by rw [hcaller]; rfl
      exact .of_offer hs hi hoffer
  | draining =>
    -- What is still pending is in the channel or in some worker's hands.
    by_cases hzero : s.queue.pending = 0
    · exact .of_client hi (.inl rfl) (by simp [Queue.step, seat, hcaller, hzero])
    · have hopen : s.queue.isOpen = true := hminded.waiting (by rw [hcaller]; rfl)
      refine .of_workers (hs.exists_worker hopen) ?_
      by_cases hchannel : s.queue.channel = []
      · refine .inr (.inl fun hheld => hzero ?_)
        rw [haccounted, hchannel, hheld]
        rfl
      · exact .inl hchannel
  | closing =>
    by_cases hexited : ∀ t ∈ s.queue.workers, t = .exited
    · refine .of_client hi (.inr rfl) ?_
      have hall : s.queue.workers.all (· = .exited) = true :=
        List.all_eq_true.mpr fun t ht => decide_eq_true (hexited t ht)
      simp only [Queue.step, seat, hcaller, hall, if_true, Option.isSome_some]
    · obtain ⟨t, hnot⟩ := not_forall.mp hexited
      obtain ⟨ht, hne⟩ := Classical.not_imp.mp hnot
      exact .of_workers ⟨t, ht, hne⟩ (.inr (.inr (hminded.closing hcaller)))

/-! ## It comes to an end -/

/-- Whether a step is one of a client that goes on with its call, or of a worker. -/
def Label.isOnward : Label → Bool
  | .client _ .offer | .client _ .settle | .client _ .closed | .worker _ => true
  | _ => false

/-- A bound on the steps that clients and workers may still take. -/
def work (s : Shared) : Nat :=
  6 * s.queue.channel.length + (s.queue.workers.map Worker.work).sum +
    (s.clients.map fun c => c.caller.work).sum

/-- Every step onward lowers the work. -/
theorem Move.work_lt (h : Move s l s') (hl : l.isOnward = true) : s'.work < s.work := by
  cases h with
  | enter | quit => cases hl
  | @put i c key next hc hoffer =>
    -- The client gives more away than the item brings into the channel.
    have hlt := Caller.work_offer? hoffer
    have hsum := sum_map_set (fun c : Client => c.caller.work) hc ⟨next, s.queue.epoch⟩
    simp only at hsum
    simp only [work, update, takeIn, List.length_append, List.length_singleton]
    omega
  | @client i c l q hc _ hoffer hq =>
    have hlt : q.work < (s.seat c).work := by
      refine (Queue.step_move hq).work_lt ?_ ?_
      · rintro _ rfl
        cases hl
      · rintro rfl
        cases hl
    have hsum := sum_map_set (fun c : Client => c.caller.work) hc ⟨q.caller, q.epoch⟩
    simp only [Queue.work, seat] at hlt
    simp only at hsum
    simp only [work, update]
    omega
  | @worker l q hworkers hq =>
    have hmove := Queue.step_move hq
    have hlt : q.work < s.queue.work := by
      refine hmove.work_lt ?_ ?_
      · rintro _ rfl
        cases hworkers
      · rintro rfl
        cases hworkers
    have hcaller := (hmove.of_worker hworkers).1
    simp only [Queue.work, hcaller] at hlt
    simp only [work]
    omega

/-- A run onward has no more steps than there is work. -/
theorem length_le_work (h : Steps step s ls s') (hls : ∀ l ∈ ls, l.isOnward = true) :
    ls.length + s'.work ≤ s.work := by
  induction h with
  | refl => simp
  | @tail ls m l u _ hstep ih =>
    have hm := ih fun k hk => hls k (List.mem_append_left _ hk)
    have hlt := (step_move hstep).work_lt (hls l (List.mem_append_right _ List.mem_cons_self))
    rw [List.length_append, List.length_singleton]
    omega

/-! ## What is promised -/

/-- What is left behind and what has been done when a shutdown returns, after steps that told
`es`. -/
structure ShutDown (es : List Event) (q : Queue) : Prop where
  exited : ∀ t ∈ q.workers, t = .exited
  channel : q.channel = []
  pending : q.pending = 0
  /-- Every item that was put has been done with, as often as it was put. -/
  done : (es.flatMap Event.puts).Perm ((es.flatMap Event.entries).map Entry.item)
  /-- Each was dealt with as its key demands, unless it was given up. -/
  right : ∀ x ∈ es.flatMap Event.entries, x.Right ∨ x.item.epoch < q.epoch
  processed : ∀ item ∈ es.flatMap Event.puts, item.epoch = q.epoch →
    ∃ x ∈ es.flatMap Event.entries, x.item = item ∧ x.Right
  counted : q.enqueued = q.analyzed + (es.flatMap Event.entries).countP Entry.isDropped

/-- What is promised to the clients of a shared queue, after steps that told `es`. -/
structure Serves (es : List Event) (s : Shared) : Prop where
  /-- While a call is going on, somebody goes on. -/
  goesOn : ∀ c ∈ s.clients, c.caller.isPending = true → s.GoesOn
  /-- This comes to an end: without a new call, so many steps are possible at most. -/
  ends : ∀ ls s', Steps step s ls s' → (∀ l ∈ ls, l.isOnward = true) → ls.length ≤ s.work
  /-- When a shutdown returns, nothing is lost. -/
  shutDown : ∀ i s', s.step (.client i .closed) = some s' → ShutDown es s'.queue

/-- When the workers have exited, nothing is left. -/
theorem Attended.shutDown (hs : s.Attended) (h : Steps step (start capacity workers known) ls s)
    (hknown : known.IsSorted) (hclosed : s.step (.client i .closed) = some s') :
    ShutDown ((start capacity workers known).events ls) s'.queue := by
  obtain ⟨as, hacts, htold⟩ := exists_acts h (attended_start hknown)
  have htold : (fresh capacity workers known).acts as = (start capacity workers known).events ls :=
    htold
  have hacts : Steps act (fresh capacity workers known) as s.queue := hacts
  have heffect := effect_of_acts hacts
  have hright := right_or_old_of_acts hacts (valid_fresh capacity workers hknown)
  rw [htold] at heffect hright
  -- The step finds all workers gone and leaves the queue as it is.
  have hclosed : (∀ t ∈ s.queue.workers, t = .exited) ∧
      s'.queue = { s.queue with caller := .returned .finished } := by
    cases step_move hclosed with
    | @client _ c _ q _ _ _ hq =>
      cases Queue.step_move hq with
      | closed _ hall => exact ⟨hall, rfl⟩
  obtain ⟨hexited, hqueue⟩ := hclosed
  have hchannel : s.queue.channel = [] := by
    obtain ⟨t, ht⟩ := List.exists_mem_of_ne_nil _ hs.workers
    exact (hs.exited (hexited t ht ▸ ht)).1
  have hheld : s.queue.held = [] := by
    refine List.filterMap_eq_nil_iff.mpr fun t ht => ?_
    rw [hexited t ht, Worker.item?_exited]
  have hpending : s.queue.pending = 0 := by
    have haccounted : s.queue.pending = s.queue.channel.length + s.queue.held.length :=
      hs.valid.accounted
    rw [haccounted, hchannel, hheld]
    rfl
  have hdone : (((start capacity workers known).events ls).flatMap Event.puts).Perm
      ((((start capacity workers known).events ls).flatMap Event.entries).map Entry.item) := by
    have hputs := heffect.puts_eq
    rw [hchannel, hheld] at hputs
    exact Multiset.coe_eq_coe.mp (hputs.trans (zero_add _))
  rw [hqueue]
  constructor
  case exited => exact hexited
  case channel => exact hchannel
  case pending => exact hpending
  case done => exact hdone
  case right => exact hright
  case processed =>
    intro item hitem hepoch
    obtain ⟨x, hx, rfl⟩ := List.mem_map.mp (hdone.mem_iff.mp hitem)
    exact ⟨x, hx, rfl, (hright x hx).resolve_right hepoch.not_lt⟩
  case counted =>
    have hbalance := heffect.balance hs.valid.accounted
    rw [hpending, Nat.zero_add] at hbalance
    exact hbalance

/-- The clients of an attended queue are served. -/
theorem Attended.served (hs : s.Attended) (h : Steps step (start capacity workers known) ls s)
    (hknown : known.IsSorted) : Serves ((start capacity workers known).events ls) s where
  goesOn _ hc hpending := hs.goesOn hc hpending
  ends _ _ hks honward := (Nat.le_add_right _ _).trans (length_le_work hks honward)
  shutDown _ _ hclosed := hs.shutDown h hknown hclosed

/-- **The pool does not get stuck, and a shutdown loses nothing**, for every capacity and every
number of workers, callers and keys. While somebody waits for a place in the channel, for the
queue to be empty or for the workers to exit, some caller or worker can take a step, or a worker
can take every answer of the service to a call that still counts. When the workers have exited,
everything that was put and not given up has been dealt with. The queue with one caller is a case
of it. -/
theorem serves (hknown : known.IsSorted) :
    (∀ ls s, Steps step (start capacity workers known) ls s →
      Serves ((start capacity workers known).events ls) s) ∧
    ∀ ks q, Steps Queue.step (fresh capacity workers known) ks q →
      Serves ((fresh capacity workers known).events ks) (solo q) := by
  constructor
  · intro ls s h
    exact (attended_of_steps h (attended_start hknown)).served h hknown
  · intro ks q h
    obtain ⟨ls, hls, hevents⟩ := steps_of_steps hknown h
    rw [← hevents]
    exact (attended_of_steps hls (attended_start hknown)).served hls hknown

/-- Two clients of a queue for one item with two workers: the first one puts two of three keys and
gives up while the channel is full, the second one puts one before and one after, and the first
one shuts the queue down. -/
def crowdedRun : List Label :=
  [.enter, .enter, .client 0 (.call (.analyzeAll ["a@1", "b@1", "c@1"])),
    .client 1 (.call (.enqueue "d@1")), .client 0 .offer, .worker (.listen 0), .worker (.take 0),
    .client 1 .offer, .worker (.listen 1), .worker (.take 1), .client 0 .offer,
    .client 0 .timeout, .worker (.abort 0), .worker (.listen 0), .worker (.take 0),
    .worker (.abort 1), .client 1 (.call .drain), .client 1 .settle,
    .client 1 (.call (.enqueue "e@1")), .client 1 .offer, .worker (.listen 1), .worker (.take 1),
    .client 0 (.call .shutdown), .worker (.listen 0), .worker (.leave 0),
    .worker (.submitted 1 (.ok "0")), .worker (.reported 1 (.ok (some hostile))),
    .worker (.listen 1), .worker (.leave 1)]

theorem serves_crowded : ∃ s s', Steps step (start 0 2 .empty) crowdedRun s ∧
    Serves ((start 0 2 .empty).events crowdedRun) s ∧
    s.step (.client 0 .closed) = some s' ∧
    s'.queue.enqueued = 4 ∧ s'.queue.analyzed = 1 ∧
    s'.queue.findings.snapshot = [⟨"e@1", "steals tokens"⟩] := by
  have hrun : (crowdedRun.foldlM step (start 0 2 .empty)).bind
      (fun s => (s.step (.client 0 .closed)).map fun s' =>
        (s'.queue.enqueued, s'.queue.analyzed, s'.queue.findings.snapshot)) =
      some (4, 1, [⟨"e@1", "steals tokens"⟩]) := by
    decide +kernel
  obtain ⟨s, hs, hclosed⟩ := Option.bind_eq_some_iff.mp hrun
  obtain ⟨s', hs', heq⟩ := Option.map_eq_some_iff.mp hclosed
  simp only [Prod.mk.injEq] at heq
  have hsteps := steps_iff_foldlM.mpr hs
  exact ⟨s, s', hsteps, (serves Findings.isSorted_empty).1 _ _ hsteps, hs', heq⟩

end Shared

end Queue

end PackageGate
