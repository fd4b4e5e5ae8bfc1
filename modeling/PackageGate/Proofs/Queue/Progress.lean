import PackageGate.Proofs.Queue.Exact

/-!
# A waiting caller is not kept waiting by scans that were given up

The service need not answer anything about an item of an older epoch: the worker lets go of
it. So a caller that waits for its own items goes on, whatever calls of older scans hang.

- `Queue.stepLive`: the steps in which no such call is answered, and the time does not pass.
- `Queue.work`: a weight that every step of caller and workers lowers.
- `Queue.Staffed`: while a caller waits, there are workers and the channel is open.
- `Queue.exists_turn`: workers that have no item can take one, or exit.
- `Queue.exists_stepLive`: a caller that waits can go on by such steps.
- `Queue.drains`: so every run of such steps is finite, and the call has then ended well.
-/

namespace PackageGate

namespace Queue

variable {q q' : Queue} {l : Label} {ls : List Label}

/-- Whether a step is one that is possible even if the service never answers anything about
items of other epochs, the caller's time does not pass, and nothing is asked for. -/
def isLive (q : Queue) : Label → Bool
  | .call _ | .timeout => false
  | .submitted w _ | .reported w _ =>
    ((q.workers[w]?).bind Worker.item?).all (·.epoch = q.epoch)
  | _ => true

/-- The steps that need no answer about items of other epochs. -/
def stepLive (q : Queue) (l : Label) : Option Queue :=
  if q.isLive l then q.step l else none

theorem step_of_stepLive (h : q.stepLive l = some q') : q.isLive l ∧ q.step l = some q' := by
  unfold stepLive at h
  split at h
  · exact ⟨‹_›, h⟩
  · cases h

/-! ## Every step lowers the work -/

/-- The steps that a worker may still take with what it has. -/
def Worker.work : Worker → Nat
  | .waiting => 2
  | .receiving => 1
  | .submitting _ _ => 4
  | .reporting _ _ _ => 3
  | .exited => 0

/-- The steps that a caller may still take, and that its keys may cause. -/
def Caller.work : Caller → Nat
  | .enqueueing _ => 8
  | .feeding keys => 1 + 7 * keys.length
  | .draining | .closing => 1
  | .idle | .returned _ => 0

/-- A bound on the steps that caller and workers may still take. -/
def work (q : Queue) : Nat :=
  6 * q.channel.length + (q.workers.map Worker.work).sum + q.caller.work

/-- A worker that goes on leaves less work. -/
theorem work_lt_of_worker {w : Nat} {s t : Worker} (taken : List Item)
    (hw : q.workers[w]? = some s) (hworkers : q'.workers = q.workers.set w t)
    (hcaller : q'.caller = q.caller) (hchannel : q.channel = taken ++ q'.channel)
    (hlt : t.work < s.work + 6 * taken.length) : q'.work < q.work := by
  have hset := sum_map_set Worker.work hw t
  have hlength := congrArg List.length hchannel
  rw [List.length_append] at hlength
  unfold work
  rw [hworkers, hcaller]
  omega

/-- A caller that puts a key gives more weight away than the item brings into the channel. -/
theorem Caller.work_offer? {c next : Caller} {key : String} (h : c.offer? = some (key, next)) :
    next.work + 6 < c.work := by
  cases c with
  | feeding keys =>
    match keys with
    | [] => cases h
    | [k] =>
      cases h
      simp [work]
    | k :: k' :: ks =>
      cases h
      simp only [work, List.length_cons]
      omega
  | enqueueing k =>
    cases h
    simp [work]
  | idle | draining | closing | returned => cases h

/-- Every step but a call and a timeout lowers the work. -/
theorem Move.work_lt (h : Move q l q') (hcall : ∀ c, l ≠ .call c) (htimeout : l ≠ .timeout) :
    q'.work < q.work := by
  cases h with
  | call => exact absurd rfl (hcall _)
  | abandon => exact absurd rfl htimeout
  | cancel => exact absurd rfl htimeout
  | @offer key next _ hoffer =>
    have hcaller := Caller.work_offer? hoffer
    show 6 * (q.channel ++ [_]).length + (q.workers.map Worker.work).sum + next.work < q.work
    rw [List.length_append, List.length_singleton, work]
    omega
  | settle hc | closed hc =>
    show 6 * q.channel.length + (q.workers.map Worker.work).sum + 0 < q.work
    rw [work, hc]
    exact Nat.lt_succ_self _
  | listen hw | leave hw =>
    exact work_lt_of_worker [] hw rfl rfl rfl (Nat.lt_succ_self _)
  | @discard w item rest hw hch | @reject w item rest _ hw hch =>
    exact work_lt_of_worker (t := .waiting) [item] hw rfl rfl hch
      (by simp [Worker.work])
  | @submit w item rest p hw hch =>
    exact work_lt_of_worker [item] hw rfl rfl hch (by simp [Worker.work])
  | submitted hw => exact work_lt_of_worker [] hw rfl rfl rfl (by simp [Worker.work])
  | unsubmitted hw =>
    exact work_lt_of_worker (t := .waiting) [] hw rfl rfl rfl (by simp [Worker.work])
  | @reported w item p id reply hw =>
    rcases judge_eq q item p reply with hj | ⟨_, hj⟩ <;> rw [hj] <;>
      exact work_lt_of_worker (t := .waiting) [] hw rfl rfl rfl (Nat.lt_succ_self _)
  | @abort w s item hw hitem =>
    refine work_lt_of_worker (t := .waiting) [] hw rfl rfl rfl ?_
    cases s with
    | submitting | reporting => simp [Worker.work]
    | waiting | receiving | exited => cases hitem

/-- A run of live steps has no more steps than there is work. -/
theorem length_le_work (h : Steps stepLive q ls q') : ls.length + q'.work ≤ q.work := by
  induction h with
  | refl => simp
  | @tail ls m l u _ hstep ih =>
    obtain ⟨hlive, hstep⟩ := step_of_stepLive hstep
    have hcall : ∀ c, l ≠ .call c := by
      rintro c rfl
      cases hlive
    have htimeout : l ≠ .timeout := by
      rintro rfl
      cases hlive
    have hlt := (step_move hstep).work_lt hcall htimeout
    rw [List.length_append, List.length_singleton]
    omega

/-! ## A caller that waits can go on -/

/-- Whether a caller waits for the channel or for the workers. -/
def Caller.isWaiting : Caller → Bool
  | .enqueueing _ | .feeding _ | .draining => true
  | _ => false

/-- While a caller waits there are workers, a channel with a place, and a key to put. -/
structure Staffed (q : Queue) : Prop where
  workers : q.workers ≠ []
  capacity : 0 < q.capacity
  fed : q.caller ≠ .feeding []
  isOpen : q.caller.isWaiting → q.isOpen
  exited : q.isOpen → .exited ∉ q.workers

theorem staffed_fresh (capacity workers : Nat) (findings : Findings) :
    (fresh capacity workers findings).Staffed where
  workers h := by
    have hlength := congrArg List.length h
    rw [show (fresh capacity workers findings).workers = List.replicate (max 1 workers) .waiting
      from rfl, List.length_replicate] at hlength
    exact absurd hlength (by simp)
  capacity := Nat.lt_of_lt_of_le Nat.one_pos (Nat.le_max_left 1 capacity)
  fed := nofun
  isOpen := nofun
  exited _ h := by cases List.eq_of_mem_replicate h

/-- A change that leaves the caller, the capacity and the channel's end alone, and no worker
exited, keeps the staff. -/
theorem Staffed.of_worker (hq : q.Staffed) {w : Nat} {t : Worker}
    (hworkers : q'.workers = q.workers.set w t) (hcapacity : q'.capacity = q.capacity)
    (hcaller : q'.caller = q.caller) (hopen : q'.isOpen = q.isOpen)
    (ht : q.isOpen → t ≠ .exited) : q'.Staffed where
  workers h := by
    rw [hworkers, List.set_eq_nil_iff] at h
    exact hq.workers h
  capacity := hcapacity ▸ hq.capacity
  fed := hcaller ▸ hq.fed
  isOpen := by
    rw [hcaller, hopen]
    exact hq.isOpen
  exited h hmem := by
    rw [hopen] at h
    rw [hworkers] at hmem
    rcases List.mem_or_eq_of_mem_set hmem with hmem | heq
    · exact hq.exited h hmem
    · exact ht h heq.symm

/-- Every move keeps the staff. -/
theorem Move.staffed (h : Move q l q') (hq : q.Staffed) : q'.Staffed := by
  cases h with
  | @call c _ hopen =>
    cases c with
    | analyzeAll keys =>
      cases keys <;> exact ⟨hq.workers, hq.capacity, nofun, fun _ => hopen, hq.exited⟩
    | enqueue | drain => exact ⟨hq.workers, hq.capacity, nofun, fun _ => hopen, hq.exited⟩
    | shutdown => exact ⟨hq.workers, hq.capacity, nofun, nofun, nofun⟩
  | @offer key next _ hoffer =>
    have hwaiting : q.caller.isWaiting := by
      revert hoffer
      cases q.caller with
      | enqueueing | feeding => exact fun _ => rfl
      | idle | draining | closing | returned => nofun
    have hfed : next ≠ .feeding [] := by
      rintro rfl
      revert hoffer
      cases q.caller with
      | feeding rest => match rest with | [] | [_] | _ :: _ :: _ => nofun
      | enqueueing | idle | draining | closing | returned => nofun
    exact ⟨hq.workers, hq.capacity, hfed, fun _ => hq.isOpen hwaiting, hq.exited⟩
  | settle | abandon | cancel | closed =>
    exact ⟨hq.workers, hq.capacity, nofun, nofun, hq.exited⟩
  | leave _ _ hopen => exact hq.of_worker rfl rfl rfl rfl fun h => by simp [hopen] at h
  | listen | discard | reject | submit | submitted | unsubmitted | abort =>
    exact hq.of_worker rfl rfl rfl rfl fun _ => nofun
  | @reported w item p id reply =>
    rcases judge_eq q item p reply with hj | ⟨_, hj⟩ <;> rw [hj] <;>
      exact hq.of_worker (t := .waiting) rfl rfl rfl rfl fun _ => nofun

theorem staffed_of_steps (h : Steps step q ls q') (hq : q.Staffed) : q'.Staffed :=
  h.invariant (fun hm hstep => (step_move hstep).staffed hm) hq

/-- Whether a step is one of a worker that needs no answer of the service. -/
def Label.isOwn : Label → Bool
  | .listen _ | .take _ | .leave _ | .abort _ => true
  | _ => false

/-- A worker notices that its item's epoch is over. -/
theorem isSome_abort {w : Nat} {s : Worker} {item : Item} (hw : q.workers[w]? = some s)
    (hitem : s.item? = some item) (hepoch : item.epoch ≠ q.epoch) :
    (q.step (.abort w)).isSome := by
  cases s with
  | submitting | reporting =>
    cases hitem
    simp [step, hw, hepoch]
  | waiting | receiving | exited => cases hitem

/-- Where no worker is busy and not all have exited, some worker can go on: there is an item to
take, or the channel is closed. -/
theorem exists_turn (hworker : ∃ s ∈ q.workers, s ≠ .exited) (hheld : q.held = [])
    (h : q.channel ≠ [] ∨ q.isOpen = false) : ∃ l, l.isOwn ∧ (q.step l).isSome := by
  by_cases hturn : .receiving ∈ q.workers
  · obtain ⟨w, hw⟩ := List.mem_iff_getElem?.mp hturn
    cases hchannel : q.channel with
    | cons item rest => exact ⟨.take w, rfl, by simp [step, hw, hchannel]⟩
    | nil =>
      have hclosed : q.isOpen = false := h.resolve_left (not_not_intro hchannel)
      exact ⟨.leave w, rfl, by simp [step, hw, hchannel, hclosed]⟩
  · obtain ⟨s, hs, hexited⟩ := hworker
    have hidle : s.item? = none := List.filterMap_eq_nil_iff.mp hheld s hs
    obtain ⟨w, hw⟩ := List.mem_iff_getElem?.mp hs
    have hwaiting : q.workers[w]? = some .waiting := by
      rw [hw]
      cases s with
      | waiting => rfl
      | receiving => exact absurd hs hturn
      | exited => exact absurd rfl hexited
      | submitting | reporting => cases hidle
    exact ⟨.listen w, rfl, by simp [step, hwaiting, hturn]⟩

theorem exists_stepLive (l : Label) (hlive : q.isLive l = true) (hstep : (q.step l).isSome) :
    ∃ l q', q.stepLive l = some q' := by
  obtain ⟨q', hq'⟩ := Option.isSome_iff_exists.mp hstep
  exact ⟨l, q', by rw [stepLive, if_pos hlive, hq']⟩

/-- A busy worker can go on: the service may answer, or the worker notices that the epoch is
over. -/
theorem exists_stepLive_of_busy {w : Nat} {s : Worker} {item : Item} (hw : q.workers[w]? = some s)
    (hitem : s.item? = some item) : ∃ l q', q.stepLive l = some q' := by
  by_cases hepoch : item.epoch = q.epoch
  · cases s with
    | submitting item' p =>
      obtain rfl : item' = item := Option.some.inj hitem
      exact exists_stepLive (.submitted w (.ok "")) (by simp [isLive, hw, hepoch])
        (by simp [step, hw])
    | reporting item' p id =>
      obtain rfl : item' = item := Option.some.inj hitem
      exact exists_stepLive (.reported w (.ok none)) (by simp [isLive, hw, hepoch])
        (by simp [step, hw])
    | waiting | receiving | exited => cases hitem
  · exact exists_stepLive (.abort w) rfl (isSome_abort hw hitem hepoch)

/-- A worker that has not exited is there as long as the channel is open. -/
theorem Staffed.exists_worker (hq : q.Staffed) (hopen : q.isOpen = true) :
    ∃ s ∈ q.workers, s ≠ .exited := by
  obtain ⟨s, hs⟩ := List.exists_mem_of_ne_nil _ hq.workers
  refine ⟨s, hs, ?_⟩
  rintro rfl
  exact hq.exited hopen hs

/-- While something waits or is in work and the channel is open, some worker can go on. -/
theorem exists_stepLive_of_pending (hq : q.Staffed) (hopen : q.isOpen = true)
    (hpending : q.channel ≠ [] ∨ q.held ≠ []) : ∃ l q', q.stepLive l = some q' := by
  by_cases hheld : q.held = []
  · have hchannel := hpending.resolve_right (not_not_intro hheld)
    obtain ⟨l, hown, hstep⟩ := exists_turn (hq.exists_worker hopen) hheld (.inl hchannel)
    refine exists_stepLive l ?_ hstep
    cases l with
    | listen | take | leave | abort => rfl
    | call | offer | settle | timeout | closed | submitted | reported => cases hown
  · obtain ⟨item, hitem⟩ := List.exists_mem_of_ne_nil _ hheld
    obtain ⟨s, hs, hitem⟩ := List.mem_filterMap.mp hitem
    obtain ⟨w, hw⟩ := List.mem_iff_getElem?.mp hs
    exact exists_stepLive_of_busy hw hitem

/-- Whether the caller waits for the analysis of what it has put into the channel. -/
def Caller.Awaits (c : Caller) : Prop := (∃ keys, c = .feeding keys) ∨ c = .draining

/-- A caller that waits for its items goes on, without any answer about items of older epochs. -/
theorem exists_stepLive_of_awaits (hq : q.Staffed) (hvalid : q.Valid) (hcaller : q.caller.Awaits) :
    ∃ l q', q.stepLive l = some q' := by
  have hopen : q.isOpen = true := by
    refine hq.isOpen ?_
    rcases hcaller with ⟨keys, hc⟩ | hc <;> rw [hc] <;> rfl
  rcases hcaller with ⟨keys, hc⟩ | hc
  · by_cases hfull : q.isFull = true
    · -- The full channel has to be emptied first.
      refine exists_stepLive_of_pending hq hopen (.inl fun hnil => ?_)
      have hcapacity := hq.capacity
      rw [isFull, hnil, decide_eq_true_eq, List.length_nil] at hfull
      omega
    · refine exists_stepLive .offer rfl ?_
      match keys, hc with
      | [], hc => exact absurd hc hq.fed
      | [key], hc => simp [step, hfull, hc]
      | key :: key' :: keys, hc => simp [step, hfull, hc]
  · by_cases hpending : q.pending = 0
    · exact exists_stepLive .settle rfl (by simp [step, hc, hpending])
    · have haccounted := hvalid.accounted
      rw [Accounted] at haccounted
      refine exists_stepLive_of_pending hq hopen ?_
      by_contra hnone
      obtain ⟨hchannel, hheld⟩ := not_or.mp hnone
      rw [not_not.mp hchannel, not_not.mp hheld] at haccounted
      exact hpending haccounted

/-- A caller that waits goes on waiting until its call has ended well, unless its time passes. -/
theorem Move.awaits (h : Move q l q') (hcall : ∀ c, l ≠ .call c) (htimeout : l ≠ .timeout)
    (hq : q.caller.Awaits ∨ q.caller = .returned .finished) :
    q'.caller.Awaits ∨ q'.caller = .returned .finished := by
  by_cases hoffer : l = .offer
  · subst hoffer
    cases h with
    | @offer key next _ hnext =>
      rcases hq with (⟨keys, hc⟩ | hc) | hc
      · rcases (Caller.offer?_feeding (hc ▸ hnext)).2 with hn | hn
        · exact .inl (.inr hn)
        · exact .inl (.inl hn)
      · simp [hc, Caller.offer?] at hnext
      · simp [hc, Caller.offer?] at hnext
  · rcases h.caller_eq hcall htimeout hoffer with hc | ⟨-, hc⟩
    · rwa [hc]
    · exact .inr hc

/-- A caller that waits is never blocked by what older epochs have left behind: a run without any
answer about their items is finite, and goes on until the call has ended well. -/
theorem drains (hq : q.Staffed) (hvalid : q.Valid) (hcaller : q.caller.Awaits)
    (h : Steps stepLive q ls q') : ls.length ≤ q.work ∧
      (q'.caller = .returned .finished ∨ ∃ l q'', q'.stepLive l = some q'') := by
  have hsteps : Steps step q ls q' ∧ (q'.caller.Awaits ∨ q'.caller = .returned .finished) := by
    induction h with
    | refl => exact ⟨.refl, .inl hcaller⟩
    | @tail ls m l u _ hstep ih =>
      obtain ⟨hlive, hstep⟩ := step_of_stepLive hstep
      have hcall : ∀ c, l ≠ .call c := by
        rintro c rfl
        cases hlive
      have htimeout : l ≠ .timeout := by
        rintro rfl
        cases hlive
      exact ⟨.tail ih.1 hstep, (step_move hstep).awaits hcall htimeout ih.2⟩
  refine ⟨le_trans (Nat.le_add_right _ _) (length_le_work h), ?_⟩
  rcases hsteps.2 with hawaits | hret
  · exact .inr (exists_stepLive_of_awaits (staffed_of_steps hsteps.1 hq)
      (valid_of_steps hsteps.1 hvalid) hawaits)
  · exact .inl hret

end Queue

end PackageGate
