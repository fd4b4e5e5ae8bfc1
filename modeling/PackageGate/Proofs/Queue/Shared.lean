import PackageGate.Proofs.Queue.Balance
import PackageGate.Proofs.Queue.Progress

/-!
# A queue and all its callers

Several callers may share a queue: each of them puts keys, waits for everything to be done or
shuts the queue down, and may drop its call at any point where it waits.

- `Queue.Shared`, `Queue.Shared.step`: a queue with its clients, and what they and the workers
  do.
- `Queue.Shared.Attended`: what holds of clients and workers in every state.
- `Queue.Shared.exists_acts`: what is done to a shared queue are acts, which tell the same.
- `Queue.Shared.steps_of_steps`: the queue with one caller is a shared queue with one client.
-/

namespace PackageGate

namespace Queue

/-- Whether a step is one of a worker. -/
def Label.isWorkers : Label → Bool
  | .listen _ | .take _ | .leave _ | .submitted _ _ | .reported _ _ | .abort _ => true
  | _ => false

/-- Whether a call is going on. -/
def Caller.isPending : Caller → Bool
  | .idle | .returned _ => false
  | _ => true

/-- One of those who call a queue. -/
structure Client where
  caller : Caller
  /-- The epoch in which its next item was made up. -/
  since : Nat

/-- A queue and those who call it. -/
structure Shared where
  queue : Queue
  clients : List Client

namespace Shared

/-- A step of a shared queue. -/
inductive Label
  /-- Somebody else may call. -/
  | enter
  /-- The client `i` calls, or goes on with its call. -/
  | client (i : Nat) (l : Queue.Label)
  /-- The call of the client `i` is dropped. -/
  | quit (i : Nat)
  /-- A worker goes on. -/
  | worker (l : Queue.Label)

/-- An empty queue that knows `known`, and nobody who calls it yet. -/
def start (capacity workers : Nat) (known : Findings) : Shared :=
  ⟨fresh capacity workers known, []⟩

/-- The queue in the hands of a client. -/
def seat (s : Shared) (c : Client) : Queue := { s.queue with caller := c.caller }

/-- The queue is `q` after a step of the client `i`. -/
def update (s : Shared) (i : Nat) (q : Queue) : Shared :=
  ⟨q, s.clients.set i ⟨q.caller, q.epoch⟩⟩

/-- The queue with one item more, whose caller goes on as `next`. -/
def takeIn (q : Queue) (item : Item) (next : Caller) : Queue :=
  { q with
    channel := q.channel ++ [item]
    pending := q.pending + 1
    enqueued := q.enqueued + 1
    caller := next }

/-- A client puts its next item, which was made up when it began to wait for a place. -/
def put? (s : Shared) (c : Client) : Option Queue :=
  match c.caller.offer? with
  | some (key, next) =>
    if s.queue.isOpen && !s.queue.isFull then some (takeIn s.queue ⟨key, c.since⟩ next) else none
  | none => none

/-- The shared queue after a step, if the step is possible. Who shuts the queue down takes it out
of everybody's hands, so no other call is going on then. -/
def step (s : Shared) : Label → Option Shared
  | .enter => some { s with clients := s.clients ++ [⟨.idle, s.queue.epoch⟩] }
  | .client i l =>
    match s.clients[i]? with
    | some c =>
      match l with
      | .offer => (s.put? c).map (s.update i)
      | .call .shutdown =>
        if s.clients.all (!·.caller.isPending) then ((s.seat c).step l).map (s.update i) else none
      | .call _ | .settle | .timeout | .closed => ((s.seat c).step l).map (s.update i)
      | _ => none
    | none => none
  | .quit i =>
    match s.clients[i]? with
    | some c =>
      if c.caller.isPending then
        some { s with clients := s.clients.set i ⟨.returned .abandoned, c.since⟩ }
      else none
    | none => none
  | .worker l => if l.isWorkers then (s.queue.step l).map ({ s with queue := · }) else none

/-- What a step of a shared queue tells. -/
def told? (s : Shared) : Label → Option Event
  | .client i .offer =>
    (s.clients[i]?).bind fun c => c.caller.offer?.map fun x => .put ⟨x.1, c.since⟩
  | .worker l => s.queue.event? l
  | _ => none

/-- What the steps `ls` from `s` tell. -/
def events (s : Shared) (ls : List Label) : List Event := gather step told? s ls

variable {s s' : Shared} {l : Label} {ls : List Label} {c : Client} {i capacity workers : Nat}
  {known : Findings} {q q' : Queue}

/-! ## Moves -/

/-- The moves of a shared queue. -/
inductive Move (s : Shared) : Label → Shared → Prop
  | enter : Move s .enter ⟨s.queue, s.clients ++ [⟨.idle, s.queue.epoch⟩]⟩
  | put {i : Nat} {c : Client} {key : String} {next : Caller} : s.clients[i]? = some c →
    c.caller.offer? = some (key, next) → s.queue.isOpen = true → s.queue.isFull = false →
    Move s (.client i .offer) (s.update i (takeIn s.queue ⟨key, c.since⟩ next))
  | client {i : Nat} {c : Client} {l : Queue.Label} {q : Queue} : s.clients[i]? = some c →
    l.isWorkers = false → l ≠ .offer → (s.seat c).step l = some q →
    (l = .call .shutdown → ∀ d ∈ s.clients, d.caller.isPending = false) →
    Move s (.client i l) (s.update i q)
  | quit {i : Nat} {c : Client} : s.clients[i]? = some c → c.caller.isPending = true →
    Move s (.quit i) ⟨s.queue, s.clients.set i ⟨.returned .abandoned, c.since⟩⟩
  | worker {l : Queue.Label} {q : Queue} : l.isWorkers = true → s.queue.step l = some q →
    Move s (.worker l) ⟨q, s.clients⟩

/-- Every step of a shared queue is one of its moves. -/
theorem step_move (h : s.step l = some s') : Move s l s' := by
  cases l with
  | enter =>
    cases h
    exact .enter
  | client i l =>
    simp only [step] at h
    split at h
    · rename_i c hc
      split at h
      · obtain ⟨q, hq, rfl⟩ := Option.map_eq_some_iff.mp h
        unfold put? at hq
        split at hq
        · rename_i key next hoffer
          split at hq <;> cases hq
          rename_i hfree
          rw [Bool.and_eq_true, Bool.not_eq_true'] at hfree
          exact .put hc hoffer hfree.1 hfree.2
        · cases hq
      · split at h
        · rename_i halone
          obtain ⟨q, hq, rfl⟩ := Option.map_eq_some_iff.mp h
          refine .client hc rfl (by nofun) hq fun _ d hd => ?_
          simpa using List.all_eq_true.mp halone d hd
        · cases h
      · rename_i call hcall
        obtain ⟨q, hq, rfl⟩ := Option.map_eq_some_iff.mp h
        refine .client hc rfl (by nofun) hq ?_
        rintro ⟨⟩
        exact absurd rfl hcall
      · obtain ⟨q, hq, rfl⟩ := Option.map_eq_some_iff.mp h
        exact .client hc rfl (by nofun) hq nofun
      · obtain ⟨q, hq, rfl⟩ := Option.map_eq_some_iff.mp h
        exact .client hc rfl (by nofun) hq nofun
      · obtain ⟨q, hq, rfl⟩ := Option.map_eq_some_iff.mp h
        exact .client hc rfl (by nofun) hq nofun
      · cases h
    · cases h
  | quit i =>
    simp only [step] at h
    split at h
    · split at h <;> cases h
      exact .quit ‹_› ‹_›
    · cases h
  | worker l =>
    simp only [step] at h
    split at h
    · obtain ⟨q, hq, rfl⟩ := Option.map_eq_some_iff.mp h
      exact .worker ‹_› hq
    · cases h

/-! ## Acts on the queue -/

/-- Only a step that puts an item, and a step of a worker, tells something. -/
theorem event?_of_client {l : Queue.Label} (hworkers : l.isWorkers = false) (hoffer : l ≠ .offer)
    (q : Queue) : q.event? l = none := by
  cases l with
  | call | settle | timeout | closed => rfl
  | offer => exact absurd rfl hoffer
  | listen | take | leave | submitted | reported | abort => cases hworkers

theorem act_put (item : Item) (hopen : q.isOpen = true) (hfull : q.isFull = false)
    (hepoch : item.epoch ≤ q.epoch) : q.act (.put item) = some (takeIn q item q.caller) := by
  refine if_pos ?_
  rw [hopen, hfull, decide_eq_true hepoch]
  rfl

/-- A step of a shared queue is done by acts, which tell the same, if no client has made up an item
of a later epoch. -/
theorem Move.exists_acts (h : Move s l s') (hsince : ∀ c ∈ s.clients, c.since ≤ s.queue.epoch) :
    ∃ as, Steps act s.queue as s'.queue ∧
    s.queue.acts as = (s.told? l).toList := by
  cases h with
  | enter | quit => exact ⟨[], .refl, rfl⟩
  | @put i c key next hc hoffer hopen hfull =>
    have hq := act_put ⟨key, c.since⟩ hopen hfull (hsince c (List.mem_of_getElem? hc))
    refine ⟨[.put ⟨key, c.since⟩, .turn next], .tail (.single hq) rfl, ?_⟩
    simp only [acts, gather, hq, told?, hc, Option.bind_some, hoffer, Option.map_some]
    rfl
  | @client i c l q hc hworkers hoffer hq =>
    -- The client takes the caller's place, and then does what a caller does.
    have hturn : s.queue.act (.turn c.caller) = some (s.seat c) := rfl
    have hown : (s.seat c).act (.own l) = some q := hq
    refine ⟨[.turn c.caller, .own l], .tail (.single hturn) hown, ?_⟩
    have htold : s.told? (.client i l) = none := by
      cases l with
      | offer => exact absurd rfl hoffer
      | call | settle | timeout | closed | listen | take | leave | submitted | reported
      | abort => rfl
    have hevent : (s.seat c).told? (.own l) = none := event?_of_client hworkers hoffer _
    simp only [acts, gather, hturn, hown, htold, hevent]
    rfl
  | @worker l q _ hq =>
    have hown : s.queue.act (.own l) = some q := hq
    refine ⟨[.own l], .single hown, ?_⟩
    simp only [acts, gather, hown, List.append_nil]
    rfl

end Shared

/-! ## Workers and callers -/

variable {q q' : Queue}

/-- A worker's step changes this worker, may take an item, and leaves the callers alone. Only a
worker that finds the channel closed and empty exits. -/
theorem Move.of_worker {l : Label} (h : Move q l q') (hl : l.isWorkers = true) :
    q'.caller = q.caller ∧ q'.isOpen = q.isOpen ∧ q'.epoch = q.epoch ∧
      q'.capacity = q.capacity ∧ q'.channel <:+ q.channel ∧
      ∃ w t, q'.workers = q.workers.set w t ∧
        (t = .exited → q.channel = [] ∧ q.isOpen = false) := by
  cases h with
  | call | offer | settle | abandon | cancel | closed => cases hl
  | @listen w => exact ⟨rfl, rfl, rfl, rfl, List.suffix_rfl, w, .receiving, rfl, nofun⟩
  | @leave w _ hchannel hclosed =>
    exact ⟨rfl, rfl, rfl, rfl, List.suffix_rfl, w, .exited, rfl, fun _ => ⟨hchannel, hclosed⟩⟩
  | @discard w item rest _ hch | @reject w item rest _ _ hch =>
    exact ⟨rfl, rfl, rfl, rfl, ⟨[item], hch.symm⟩, w, .waiting, rfl, nofun⟩
  | @submit w item rest p _ hch =>
    exact ⟨rfl, rfl, rfl, rfl, ⟨[item], hch.symm⟩, w, .submitting item p, rfl, nofun⟩
  | @submitted w item p id =>
    exact ⟨rfl, rfl, rfl, rfl, List.suffix_rfl, w, .reporting item p id, rfl, nofun⟩
  | @unsubmitted w | @abort w =>
    exact ⟨rfl, rfl, rfl, rfl, List.suffix_rfl, w, .waiting, rfl, nofun⟩
  | @reported w item p id reply =>
    rcases judge_eq q item p reply with hj | ⟨_, hj⟩ <;> rw [hj] <;>
      exact ⟨rfl, rfl, rfl, rfl, List.suffix_rfl, w, .waiting, rfl, nofun⟩

/-- A caller that puts a key has not been given an empty list of them afterwards. -/
theorem Caller.offer?_ne_fed {c next : Caller} {key : String} (h : c.offer? = some (key, next)) :
    c.isWaiting ∧ next ≠ .feeding [] ∧ next ≠ .closing := by
  cases c with
  | feeding keys =>
    match keys with
    | [] => cases h
    | [k] =>
      cases h
      exact ⟨rfl, nofun, nofun⟩
    | k :: k' :: ks =>
      cases h
      exact ⟨rfl, nofun, nofun⟩
  | enqueueing k =>
    cases h
    exact ⟨rfl, nofun, nofun⟩
  | idle | draining | closing | returned => cases h

namespace Shared

variable {s s' : Shared} {l : Label} {ls : List Label} {i capacity workers : Nat}
  {known : Findings}

/-- What holds of a client: it has a key to put if it wants to put one, what it has made up is not
of a later epoch, and the channel is open as long as it waits for it, and closed when it waits for
the workers to exit. -/
structure Minded (isOpen : Bool) (epoch : Nat) (c : Client) : Prop where
  fed : c.caller ≠ .feeding []
  since : c.since ≤ epoch
  waiting : c.caller.isWaiting = true → isOpen = true
  closing : c.caller = .closing → isOpen = false

/-- What holds of a shared queue: there are workers and a place, whoever has exited has left
nothing behind, and its clients are minded. -/
structure Attended (s : Shared) : Prop where
  valid : s.queue.Valid
  workers : s.queue.workers ≠ []
  capacity : 0 < s.queue.capacity
  exited : .exited ∈ s.queue.workers → s.queue.channel = [] ∧ s.queue.isOpen = false
  clients : ∀ c ∈ s.clients, Minded s.queue.isOpen s.queue.epoch c

theorem attended_start (hknown : known.IsSorted) : (start capacity workers known).Attended where
  valid := valid_fresh capacity workers hknown
  workers := (staffed_fresh capacity workers known).workers
  capacity := (staffed_fresh capacity workers known).capacity
  exited h := by cases List.eq_of_mem_replicate h
  clients := nofun

/-- A client that has nothing to wait for is minded. -/
theorem Minded.of_idle {isOpen : Bool} {epoch : Nat} {c : Client}
    (hidle : c.caller.isPending = false) (hsince : c.since ≤ epoch) : Minded isOpen epoch c := by
  obtain ⟨caller, since⟩ := c
  cases caller with
  | idle => exact ⟨by nofun, hsince, by nofun, by nofun⟩
  | returned e => exact ⟨by nofun, hsince, by nofun, by nofun⟩
  | enqueueing | feeding | draining | closing => cases hidle

/-- A client stays minded in a later epoch. -/
theorem Minded.mono {isOpen : Bool} {epoch epoch' : Nat} {c : Client} (h : Minded isOpen epoch c)
    (hepoch : epoch ≤ epoch') : Minded isOpen epoch' c :=
  ⟨h.fed, h.since.trans hepoch, h.waiting, h.closing⟩

/-- A client's step leaves workers and channel alone, and everybody minded. -/
theorem minded_of_client {c : Client} {l : Queue.Label} (hs : s.Attended)
    (hworkers : l.isWorkers = false) (hoffer : l ≠ .offer) (hq : (s.seat c).step l = some q)
    (halone : l = .call .shutdown → ∀ d ∈ s.clients, d.caller.isPending = false) :
    q.workers = s.queue.workers ∧ q.channel = s.queue.channel ∧ q.capacity = s.queue.capacity ∧
      (s.queue.isOpen = false → q.isOpen = false) ∧
      (∀ d ∈ s.clients, Minded q.isOpen q.epoch d) ∧
      Minded q.isOpen q.epoch ⟨q.caller, q.epoch⟩ := by
  have hminded := hs.clients
  cases Queue.step_move hq with
  | @call call _ hopen =>
    have hcalled : s.queue.isOpen = true := hopen
    cases call with
    | shutdown =>
      refine ⟨rfl, rfl, rfl, fun _ => rfl, fun d hd => ?_, nofun, le_rfl, nofun, fun _ => rfl⟩
      exact .of_idle (halone rfl d hd) (hminded d hd).since
    | enqueue key => exact ⟨rfl, rfl, rfl, id, hminded, nofun, le_rfl, fun _ => hcalled, nofun⟩
    | drain => exact ⟨rfl, rfl, rfl, id, hminded, nofun, le_rfl, fun _ => hcalled, nofun⟩
    | analyzeAll keys =>
      cases keys <;>
        exact ⟨rfl, rfl, rfl, id, hminded, nofun, le_rfl, fun _ => hcalled, nofun⟩
  | offer => exact absurd rfl hoffer
  | settle | abandon | closed => exact ⟨rfl, rfl, rfl, id, hminded, .of_idle rfl le_rfl⟩
  | cancel =>
    exact ⟨rfl, rfl, rfl, id, fun d hd => (hminded d hd).mono (Nat.le_succ _), .of_idle rfl le_rfl⟩
  | listen | discard | reject | submit | leave | submitted | unsubmitted | reported
  | abort => cases hworkers

/-- What one client does leaves all of them minded. -/
theorem minded_update (hminded : ∀ c ∈ s.clients, Minded q.isOpen q.epoch c)
    (hnew : Minded q.isOpen q.epoch ⟨q.caller, q.epoch⟩) (i : Nat) :
    ∀ c ∈ (s.update i q).clients, Minded q.isOpen q.epoch c := by
  intro d hd
  rcases List.mem_or_eq_of_mem_set hd with hd | rfl
  · exact hminded d hd
  · exact hnew

/-- Every move leaves a shared queue attended. -/
theorem Move.attended (h : Move s l s') (hs : s.Attended) : s'.Attended := by
  cases h with
  | enter =>
    refine ⟨hs.valid, hs.workers, hs.capacity, hs.exited, fun d hd => ?_⟩
    rcases List.mem_append.mp hd with hd | hd
    · exact hs.clients d hd
    · obtain rfl := List.mem_singleton.mp hd
      exact .of_idle rfl le_rfl
  | @quit i c hc =>
    refine ⟨hs.valid, hs.workers, hs.capacity, hs.exited, fun d hd => ?_⟩
    rcases List.mem_or_eq_of_mem_set hd with hd | rfl
    · exact hs.clients d hd
    · exact .of_idle rfl (hs.clients c (List.mem_of_getElem? hc)).since
  | @put i c key next hc hoffer hopen hfull =>
    have hclient := hs.clients c (List.mem_of_getElem? hc)
    have hput := act_put ⟨key, c.since⟩ hopen hfull hclient.since
    have hvalid := valid_of_act hput hs.valid
    -- The channel is open, so nobody has exited yet.
    have hclosed : .exited ∉ s.queue.workers := by
      intro hmem
      rw [(hs.exited hmem).2] at hopen
      cases hopen
    refine ⟨⟨hvalid.accounted, hvalid.isSorted, hvalid.proper, hvalid.epoch_le⟩, hs.workers,
      hs.capacity, fun hmem => absurd hmem hclosed,
      minded_update (q := takeIn s.queue ⟨key, c.since⟩ next) hs.clients ?_ i⟩
    obtain ⟨-, hfed, hclosing⟩ := Caller.offer?_ne_fed hoffer
    exact ⟨hfed, le_rfl, fun _ => hopen, fun h => absurd h hclosing⟩
  | @client i c l q hc hworkers hoffer hq halone =>
    obtain ⟨hw, hch, hcap, hopen, hminded, hnew⟩ := minded_of_client hs hworkers hoffer hq halone
    have hseat : (s.seat c).Valid :=
      ⟨hs.valid.accounted, hs.valid.isSorted, hs.valid.proper, hs.valid.epoch_le⟩
    refine ⟨(Queue.step_move hq).valid hseat, ?_, ?_, ?_, minded_update hminded hnew i⟩
    · exact hw ▸ hs.workers
    · exact hcap ▸ hs.capacity
    · intro hexited
      obtain ⟨hchannel, hclosed⟩ := hs.exited (hw ▸ hexited)
      exact ⟨hch.trans hchannel, hopen hclosed⟩
  | @worker l q hl hq =>
    have hmove := Queue.step_move hq
    obtain ⟨-, hopen, hepoch, hcap, hsuffix, w, t, hset, hexit⟩ := hmove.of_worker hl
    refine ⟨hmove.valid hs.valid, ?_, hcap ▸ hs.capacity, ?_,
      fun d hd => hopen ▸ (hs.clients d hd).mono hepoch.ge⟩
    · intro hnil
      rw [hset, List.set_eq_nil_iff] at hnil
      exact hs.workers hnil
    · intro hmem
      -- Whoever has exited did so before, or has just found the channel closed and empty.
      have hgone : s.queue.channel = [] ∧ s.queue.isOpen = false := by
        rw [hset] at hmem
        rcases List.mem_or_eq_of_mem_set hmem with hmem | heq
        · exact hs.exited hmem
        · exact hexit heq.symm
      rw [hgone.1, List.suffix_nil] at hsuffix
      exact ⟨hsuffix, hopen.trans hgone.2⟩

theorem attended_of_steps (h : Steps step s ls s') (hs : s.Attended) : s'.Attended :=
  h.invariant (fun hm hstep => (step_move hstep).attended hm) hs

/-- What is done to a shared queue are acts, which tell the same. -/
theorem exists_acts (h : Steps step s ls s') (hs : s.Attended) :
    ∃ as, Steps act s.queue as s'.queue ∧ s.queue.acts as = s.events ls := by
  induction h with
  | refl => exact ⟨[], .refl, rfl⟩
  | @tail ls m l u hm hstep ih =>
    obtain ⟨as, has, hacts⟩ := ih
    obtain ⟨bs, hbs, htold⟩ := (step_move hstep).exists_acts
      fun c hc => ((attended_of_steps hm hs).clients c hc).since
    refine ⟨as ++ bs, has.trans hbs, ?_⟩
    rw [acts, gather_append has, events, gather_concat hm hstep]
    show s.queue.acts as ++ m.queue.acts bs = _
    rw [hacts, htold]
    rfl

/-! ## One client -/

/-- A queue whose only client is its caller. -/
def solo (q : Queue) : Shared := ⟨q, [⟨q.caller, q.epoch⟩]⟩

/-- What the one caller of a queue does, a single client does. -/
theorem exists_step_solo {k : Queue.Label} (hq : (solo q).Attended) (h : q.step k = some q') :
    ∃ l, (solo q).step l = some (solo q') ∧ (solo q).told? l = q.event? k := by
  have hmove := Queue.step_move h
  have hseat : ((solo q).seat ⟨q.caller, q.epoch⟩).step k = some q' := h
  by_cases hworkers : k.isWorkers = true
  · obtain ⟨hcaller, -, hepoch, -⟩ := hmove.of_worker hworkers
    refine ⟨.worker k, ?_, rfl⟩
    have hsame : solo q' = ⟨q', (solo q).clients⟩ := by
      rw [solo, solo, hcaller, hepoch]
    rw [hsame]
    have hown : (solo q).queue.step k = some q' := h
    simp only [step, hworkers, if_true, hown, Option.map_some]
  · cases k with
    | offer =>
      cases hmove with
      | @offer key next hfull hoffer =>
        have hopen : q.isOpen = true :=
          (hq.clients _ List.mem_cons_self).waiting (Caller.offer?_ne_fed hoffer).1
        refine ⟨.client 0 .offer, ?_, ?_⟩
        · simp only [solo, step, put?, List.getElem?_cons_zero, hoffer, hopen, hfull,
            Bool.not_false, Bool.and_self, if_true, Option.map_some]
          rfl
        · simp only [solo, told?, List.getElem?_cons_zero, Option.bind_some, hoffer,
            Option.map_some, event?]
    | call c =>
      refine ⟨.client 0 (.call c), ?_, rfl⟩
      have hidle : q.caller.isPending = false := by
        cases hmove with
        | call hidle =>
          rcases hidle with hidle | ⟨e, hidle⟩ <;> rw [hidle] <;> rfl
      have halone : (solo q).clients.all (!·.caller.isPending) = true := by
        simp only [solo, List.all_cons, hidle, List.all_nil, Bool.not_false, Bool.and_self]
      cases c with
      | shutdown =>
        simp only [step, halone, if_true]
        exact congrArg (Option.map _) hseat
      | enqueue | drain | analyzeAll => exact congrArg (Option.map _) hseat
    | settle => exact ⟨.client 0 .settle, congrArg (Option.map _) hseat, rfl⟩
    | timeout => exact ⟨.client 0 .timeout, congrArg (Option.map _) hseat, rfl⟩
    | closed => exact ⟨.client 0 .closed, congrArg (Option.map _) hseat, rfl⟩
    | listen | take | leave | submitted | reported | abort => exact absurd rfl hworkers

/-- The queue with one caller is a shared queue with one client. -/
theorem steps_of_steps {ks : List Queue.Label} (hknown : known.IsSorted)
    (h : Steps Queue.step (fresh capacity workers known) ks q) :
    ∃ ls, Steps step (start capacity workers known) ls (solo q) ∧
      (start capacity workers known).events ls = (fresh capacity workers known).events ks := by
  induction h with
  | refl => exact ⟨[.enter], .single rfl, rfl⟩
  | @tail ks q k q' hq hstep ih =>
    obtain ⟨ls, hls, hevents⟩ := ih
    obtain ⟨l, hl, htold⟩ :=
      exists_step_solo (attended_of_steps hls (attended_start hknown)) hstep
    refine ⟨ls ++ [l], .tail hls hl, ?_⟩
    rw [events, gather_concat hls hl, Queue.events, gather_concat hq hstep, htold]
    exact congrArg (· ++ (q.event? k).toList) hevents

end Shared

end Queue

end PackageGate
