import PackageGate.Proofs.Queue.Oracle

/-!
# The accounts of the analysis queue

The counts of the queue agree with what is in it and with what has become of every item,
whoever uses it and whatever is broken off. To say so, the queue is taken out of the hands
of its one caller: several callers may put items into it, a call may be dropped at any
point where it waits, and what is in the queue may be given up at any time.

- `Queue.Act`, `Queue.act`: what may happen to a queue; its own steps are among it.
- `Queue.told?`, `Queue.acts`: what is told of an act, and of one act after another.
- `Queue.Sized`: the channel and the workers are as many as there is room for.
- `Queue.Balanced`: the accounts; `Queue.balanced_of_acts`: they hold in every state.
-/

namespace PackageGate

namespace Queue

/-- What may happen to a queue. -/
inductive Act
  /-- A step of the queue. -/
  | own (l : Label)
  /-- An item finds a free place that was waiting for it since the item's epoch. -/
  | put (item : Item)
  /-- The caller stands elsewhere; its call has been dropped, for one. -/
  | turn (c : Caller)
  /-- Everything put so far is given up. -/
  | cancel

/-- The queue after an act, if it is possible. -/
def act (q : Queue) : Act → Option Queue
  | .own l => q.step l
  | .put item =>
    if q.isOpen && !q.isFull && item.epoch ≤ q.epoch then
      some { q with
        channel := q.channel ++ [item], pending := q.pending + 1, enqueued := q.enqueued + 1 }
    else none
  | .turn c => some { q with caller := c }
  | .cancel => some { q with epoch := q.epoch + 1 }

/-- What an act tells. -/
def told? (q : Queue) : Act → Option Event
  | .own l => q.event? l
  | .put item => some (.put item)
  | .turn _ | .cancel => none

/-- What the acts `as` on `q` tell. -/
def acts (q : Queue) (as : List Act) : List Event := gather act told? q as

variable {q q' : Queue} {a : Act} {as : List Act} {l : Label} {es : List Event} {x : Entry}
  {capacity workers : Nat} {known : Findings}

/-! ## Acts and moves -/

/-- An act of the queue is a move, or it touches the channel's end, the caller or the epoch. -/
theorem act_cases {P : Act → Queue → Prop} (h : q.act a = some q')
    (hown : ∀ {l q'}, Move q l q' → P (.own l) q')
    (hput : ∀ {item : Item}, q.isFull = false → item.epoch ≤ q.epoch → P (.put item)
      { q with
        channel := q.channel ++ [item], pending := q.pending + 1, enqueued := q.enqueued + 1 })
    (hturn : ∀ {c}, P (.turn c) { q with caller := c })
    (hcancel : P .cancel { q with epoch := q.epoch + 1 }) : P a q' := by
  cases a with
  | own l => exact hown (step_move h)
  | put item =>
    simp only [act] at h
    split at h <;> cases h
    rename_i hfree
    rw [Bool.and_eq_true, Bool.and_eq_true, Bool.not_eq_true', decide_eq_true_eq] at hfree
    exact hput hfree.1.2 hfree.2
  | turn c =>
    cases h
    exact hturn
  | cancel =>
    cases h
    exact hcancel

/-- The event of an act makes the difference that the act makes. -/
theorem effect_of_act (h : q.act a = some q') : Effect q (q.told? a).toList q' := by
  refine act_cases (P := fun a q' => Effect q (q.told? a).toList q') h Move.effect ?_
    (.of_caller q _ _ _) (.of_caller q _ _ _)
  intro item _ _
  exact {
    channel := by simp [told?, Event.puts, Event.taken]
    held := rfl
    spent := rfl
    enqueued := rfl
    analyzed := rfl
    submissions := (List.append_nil _).symm
    reports := (List.append_nil _).symm
    findings := rfl }

/-- An act leaves a valid queue valid. -/
theorem valid_of_act (h : q.act a = some q') (hq : q.Valid) : q'.Valid := by
  refine act_cases (P := fun _ q' => q'.Valid) h (fun hmove => hmove.valid hq) ?_ ?_ ?_
  · intro item _ hepoch
    refine ⟨?_, hq.isSorted, hq.proper, fun other hother => ?_⟩
    · have hpending : q.pending = q.channel.length + q.held.length := hq.accounted
      show q.pending + 1 = (q.channel ++ [item]).length + q.held.length
      rw [List.length_append, List.length_singleton]
      omega
    · rcases List.mem_append.mp hother with hchannel | hheld
      · rcases List.mem_append.mp hchannel with hold | hnew
        · exact hq.epoch_le other (List.mem_append_left _ hold)
        · rw [List.mem_singleton.mp hnew]
          exact hepoch
      · exact hq.epoch_le other (List.mem_append_right _ hheld)
  · exact ⟨hq.accounted, hq.isSorted, hq.proper, hq.epoch_le⟩
  · exact ⟨hq.accounted, hq.isSorted, hq.proper, fun item hitem =>
      (hq.epoch_le item hitem).trans (Nat.le_succ _)⟩

theorem epoch_le_of_act (h : q.act a = some q') : q.epoch ≤ q'.epoch :=
  act_cases (P := fun _ q' => q.epoch ≤ q'.epoch) h Move.epoch_le (fun _ _ => le_rfl) le_rfl
    (Nat.le_succ _)

/-! ## Room -/

/-- The channel has room for `capacity` items, and there are `workers` workers. Each of them
counts as one if it is zero. -/
structure Sized (capacity workers : Nat) (q : Queue) : Prop where
  capacity : q.capacity = max 1 capacity
  workers : q.workers.length = max 1 workers
  channel : q.channel.length ≤ q.capacity

theorem sized_fresh (capacity workers : Nat) (known : Findings) :
    Sized capacity workers (fresh capacity workers known) :=
  ⟨rfl, List.length_replicate, Nat.zero_le _⟩

/-- A worker's change leaves the workers as many as they are. -/
theorem Sized.setWorker {w : Nat} {s : Worker} (hq : Sized capacity workers q)
    (hcapacity : q'.capacity = q.capacity) (hworkers : q'.workers = q.workers.set w s)
    (hchannel : q'.channel.length ≤ q.channel.length) : Sized capacity workers q' := by
  refine ⟨hcapacity.trans hq.capacity, ?_, hchannel.trans (hq.channel.trans hcapacity.ge)⟩
  rw [hworkers, List.length_set]
  exact hq.workers

/-- An item comes in only where there is a free place. -/
theorem length_lt_of_isFull (h : q.isFull = false) : q.channel.length < q.capacity := by
  simpa [isFull] using h

theorem Move.sized (h : Move q l q') (hq : Sized capacity workers q) :
    Sized capacity workers q' := by
  cases h with
  | @call c =>
    cases c with
    | analyzeAll keys => cases keys <;> exact ⟨hq.capacity, hq.workers, hq.channel⟩
    | enqueue | drain | shutdown => exact ⟨hq.capacity, hq.workers, hq.channel⟩
  | settle | abandon | cancel | closed => exact ⟨hq.capacity, hq.workers, hq.channel⟩
  | @offer key next hfull =>
    refine ⟨hq.capacity, hq.workers, ?_⟩
    show (q.channel ++ [_]).length ≤ q.capacity
    rw [List.length_append, List.length_singleton]
    exact length_lt_of_isFull hfull
  | listen | leave | submitted | unsubmitted | abort => exact hq.setWorker rfl rfl le_rfl
  | discard _ hch | reject _ hch | submit _ hch =>
    refine hq.setWorker rfl rfl ?_
    rw [hch]
    exact Nat.le_succ _
  | @reported w item p id reply =>
    rcases judge_eq q item p reply with hj | ⟨_, hj⟩ <;> rw [hj] <;>
      exact hq.setWorker rfl rfl le_rfl

/-- Channel and pool keep their sizes. -/
theorem sized_of_act (h : q.act a = some q') (hq : Sized capacity workers q) :
    Sized capacity workers q' := by
  refine act_cases (P := fun _ q' => Sized capacity workers q') h (fun hmove => hmove.sized hq) ?_
    ⟨hq.capacity, hq.workers, hq.channel⟩ ⟨hq.capacity, hq.workers, hq.channel⟩
  intro item hfull _
  refine ⟨hq.capacity, hq.workers, ?_⟩
  show (q.channel ++ [item]).length ≤ q.capacity
  rw [List.length_append, List.length_singleton]
  exact length_lt_of_isFull hfull

/-! ## Accounts -/

/-- What comes in is pending, and what is done with is not any more. -/
theorem Effect.pending (h : Effect q es q') (hq : q.Accounted) (hq' : q'.Accounted) :
    q.pending + (es.flatMap Event.puts).length =
      q'.pending + (es.flatMap Event.entries).length := by
  have hitems := congrArg Multiset.card h.items
  simp only [Multiset.card_add, Multiset.coe_card, List.length_map] at hitems
  rw [hq, hq', hitems]

/-- An item that is done with was there before. -/
theorem Effect.mem_of_ended (h : Effect q [.ended x] q') : x.item ∈ q.channel ++ q.held := by
  have hmem : x.item ∈ (q.channel : Multiset Item) + q.held := by
    have hitems : (q.channel : Multiset Item) + q.held =
        q'.channel + q'.held + ([x.item] : List Item) := by
      simpa [Event.puts, Event.entries] using h.items
    rw [hitems]
    simp
  simpa using hmem

/-- An item is dealt with as its key demands, unless its epoch is over. -/
theorem right_or_old_of_act (h : q.act a = some q') (hq : q.Valid)
    (htold : q.told? a = some (.ended x)) : x.Right ∨ x.item.epoch < q.epoch := by
  have heffect := effect_of_act h
  rw [htold] at heffect
  have hle : x.item.epoch ≤ q.epoch := hq.epoch_le _ heffect.mem_of_ended
  cases a with
  | own l =>
    have hfits := (step_move h).fits hq htold
    cases x with
    | rejected item => exact .inl hfits.2
    | refused item p e => exact .inl hfits
    | judged item p id reply => exact .inl hfits.2
    | late item p id => exact .inr (lt_of_le_of_ne hle hfits)
    | dropped item s => exact .inr (lt_of_le_of_ne hle hfits.1)
  | put | turn | cancel => cases htold

/-- The accounts of a queue for `capacity` items and `workers` workers that began with the
findings `known`, after acts that tell `es`. -/
structure Balanced (capacity workers : Nat) (known : Findings) (es : List Event) (q : Queue) :
    Prop where
  pending_eq : q.pending = q.channel.length + q.held.length
  channel_le : q.channel.length ≤ max 1 capacity
  held_le : q.held.length ≤ max 1 workers
  enqueued_eq : q.enqueued = (es.flatMap Event.puts).length
  analyzed_eq : q.analyzed = (es.flatMap Event.entries).countP (!·.isDropped)
  balance : q.enqueued =
    q.analyzed + (q.pending + (es.flatMap Event.entries).countP Entry.isDropped)
  dropped : ∀ x ∈ es.flatMap Event.entries, x.isDropped = true →
    x.item ∈ es.flatMap Event.puts ∧ x.item.epoch < q.epoch
  findings : ∀ y ∈ q.findings.snapshot,
    y ∈ known.snapshot ∨ ∃ item ∈ es.flatMap Event.puts, item.key = y.key
  /-- Where an item is done with, there is one to be counted off. -/
  unsaturated : ∀ a x q', q.act a = some q' → q.told? a = some (.ended x) →
    q.pending = q'.pending + 1
  /-- Only an item that finds a place is counted. -/
  uncounted : ∀ a q', q.act a = some q' → a ≠ .own .offer → (∀ item, a ≠ .put item) →
    q'.pending ≤ q.pending ∧ q'.enqueued = q.enqueued ∧ q'.channel <:+ q.channel

/-- The events of acts make the difference between the two ends. -/
theorem effect_of_acts (h : Steps act q as q') : Effect q (q.acts as) q' := by
  induction h with
  | refl => exact .refl q
  | tail hm hstep ih =>
    rw [acts, gather_concat hm hstep]
    exact ih.trans (effect_of_act hstep)

/-- Whatever has not been dealt with as its key demands, its epoch is over. -/
theorem right_or_old_of_acts (h : Steps act q as q') (hq : q.Valid) :
    ∀ x ∈ (q.acts as).flatMap Event.entries, x.Right ∨ x.item.epoch < q'.epoch := by
  induction h with
  | refl => nofun
  | @tail as m a u hm hstep ih =>
    intro x hx
    rw [acts, gather_concat hm hstep, List.flatMap_append] at hx
    rcases List.mem_append.mp hx with hold | hnew
    · exact (ih x hold).imp_right fun hlt => hlt.trans_le (epoch_le_of_act hstep)
    · have hvalid : m.Valid := hm.invariant (fun hm hstep => valid_of_act hstep hm) hq
      cases htold : m.told? a with
      | none => simp [htold] at hnew
      | some e =>
        cases e with
        | ended y =>
          obtain rfl : x = y := by simpa [htold, Event.entries] using hnew
          refine (right_or_old_of_act hstep hvalid htold).imp_right fun hlt => ?_
          exact hlt.trans_le (epoch_le_of_act hstep)
        | put | asked => simp [htold, Event.entries] at hnew

/-- Whatever has been let go unfinished, its epoch is over. -/
theorem dropped_of_acts (h : Steps act q as q') (hq : q.Valid) :
    ∀ x ∈ (q.acts as).flatMap Event.entries, x.isDropped = true → x.item.epoch < q'.epoch := by
  intro x hx hdropped
  refine (right_or_old_of_acts h hq x hx).resolve_left fun hright => ?_
  cases x with
  | dropped => exact hright
  | rejected | refused | judged | late => cases hdropped

/-- Every event that acts tell puts an item, or fits the epoch of some state on the way. -/
theorem fits_of_acts (h : Steps act q as q') (hq : q.Valid) {e : Event}
    (he : e ∈ q.acts as) :
    (∃ epoch, e.Fits epoch) ∨ ∃ item, e = .put item := by
  obtain ⟨as₁, a, as₂, m, rfl, hm, htold⟩ := (mem_gather h).mp he
  obtain ⟨m', hm', hrest⟩ := h.split
  obtain rfl := hm.det hm'
  obtain ⟨u, hstep, -⟩ := hrest.cons_inv
  cases a with
  | own l =>
    have hvalid : m.Valid := hm.invariant (fun hm hstep => valid_of_act hstep hm) hq
    exact .inl ⟨m.epoch, (step_move hstep).fits hvalid htold⟩
  | put item =>
    cases htold
    exact .inr ⟨item, rfl⟩
  | turn | cancel => cases htold

/-- Only an item that finds a free place is put. -/
theorem puts_of_told (q : Queue) (hoffer : a ≠ .own .offer) (hput : ∀ item, a ≠ .put item) :
    (q.told? a).toList.flatMap Event.puts = [] := by
  cases a with
  | own l => exact puts_of_ne_offer q fun hl => hoffer (hl ▸ rfl)
  | put item => exact absurd rfl (hput item)
  | turn | cancel => rfl

/-- A finding that an entry brings is about the entry's item. -/
theorem Entry.finding?_item {y : Finding} (h : x.finding? = some y) : x.item.key = y.key := by
  cases x with
  | judged item p id reply => exact (findingOf_key h).symm
  | rejected | refused | late | dropped => cases h

/-- Where an item is done with, there is one to be counted off. -/
theorem counted_off (hq : q.Valid) (h : q.act a = some q') (htold : q.told? a = some (.ended x)) :
    q.pending = q'.pending + 1 := by
  have hpending := (effect_of_act h).pending hq.accounted (valid_of_act h hq).accounted
  rw [htold] at hpending
  exact hpending

/-- What puts no item leaves the counts, but for the items that it takes out. -/
theorem uncounted_of_act (hq : q.Valid) (h : q.act a = some q') (hoffer : a ≠ .own .offer)
    (hput : ∀ item, a ≠ .put item) :
    q'.pending ≤ q.pending ∧ q'.enqueued = q.enqueued ∧ q'.channel <:+ q.channel := by
  have hnone := puts_of_told q hoffer hput
  have hdiff := effect_of_act h
  refine ⟨?_, ?_, ?_⟩
  · have hpending := hdiff.pending hq.accounted (valid_of_act h hq).accounted
    rw [hnone, List.length_nil] at hpending
    omega
  · rw [hdiff.enqueued, hnone]
    rfl
  · have hchannel := hdiff.channel
    rw [hnone, List.append_nil] at hchannel
    exact ⟨_, hchannel.symm⟩

/-! ## From the beginning -/

/-- What was put is still there, or has been done with. -/
theorem Effect.puts_eq (h : Effect (fresh capacity workers known) es q) :
    (es.flatMap Event.puts : Multiset Item) =
      q.channel + q.held + ((es.flatMap Event.entries).map Entry.item : List Item) := by
  have hitems := h.items
  rw [held_fresh] at hitems
  simpa [fresh, ofSizes] using hitems

/-- Only what was put can end. -/
theorem Effect.ended_mem_puts (h : Effect (fresh capacity workers known) es q)
    (hx : x ∈ es.flatMap Event.entries) : x.item ∈ es.flatMap Event.puts := by
  refine Multiset.mem_coe.mp ?_
  rw [h.puts_eq]
  exact Multiset.mem_add.mpr (.inr (Multiset.mem_coe.mpr (List.mem_map_of_mem hx)))

theorem Effect.enqueued_fresh (h : Effect (fresh capacity workers known) es q) :
    q.enqueued = (es.flatMap Event.puts).length :=
  h.enqueued.trans (Nat.zero_add _)

theorem Effect.analyzed_fresh (h : Effect (fresh capacity workers known) es q) :
    q.analyzed = (es.flatMap Event.entries).countP (!·.isDropped) := by
  rw [h.analyzed, List.countP_eq_length_filter]
  exact Nat.zero_add _

/-- An item that has been counted is analyzed, pending, or was let go unfinished. -/
theorem Effect.balance (h : Effect (fresh capacity workers known) es q) (hq : q.Accounted) :
    q.enqueued = q.analyzed + (q.pending + (es.flatMap Event.entries).countP Entry.isDropped) := by
  have henqueued := h.enqueued_fresh
  have hanalyzed := h.analyzed_fresh
  have hcount : (es.flatMap Event.entries).length =
      (es.flatMap Event.entries).countP Entry.isDropped +
        (es.flatMap Event.entries).countP (!·.isDropped) := by
    rw [List.length_eq_countP_add_countP Entry.isDropped]
    simp only [Bool.not_eq_true, Bool.decide_eq_false]
  have hpending := h.pending (accounted_ofSizes capacity workers) hq
  have hzero : (fresh capacity workers known).pending = 0 := rfl
  omega

/-- A finding was known from the beginning, or is about an item that was put. -/
theorem Effect.finding_put (h : Effect (fresh capacity workers known) es q)
    (hknown : known.IsSorted) {y : Finding} (hy : y ∈ q.findings.snapshot) :
    y ∈ known.snapshot ∨ ∃ item ∈ es.flatMap Event.puts, item.key = y.key := by
  have hfindings : q.findings =
      known.recordAll ((es.flatMap Event.entries).filterMap Entry.finding?) := h.findings
  rw [hfindings, Findings.mem_recordAll hknown] at hy
  rcases hy with hy | ⟨-, hfind⟩
  · exact .inl hy
  · obtain ⟨x, hx, hfinding⟩ := List.mem_filterMap.mp (List.mem_of_find?_eq_some hfind)
    exact .inr ⟨x.item, h.ended_mem_puts hx, x.finding?_item hfinding⟩

/-- **The accounts are exact and bounded**: in every state that a queue comes to, whoever has
used it, whatever was broken off and whatever the service has answered. -/
theorem balanced_of_acts (hknown : known.IsSorted)
    (h : Steps act (fresh capacity workers known) as q) :
    Balanced capacity workers known ((fresh capacity workers known).acts as) q := by
  have hfresh : (fresh capacity workers known).Valid := valid_fresh capacity workers hknown
  have hvalid : q.Valid := h.invariant (fun hm hstep => valid_of_act hstep hm) hfresh
  have hsized : Sized capacity workers q :=
    h.invariant (fun hm hstep => sized_of_act hstep hm) (sized_fresh capacity workers known)
  have heffect := effect_of_acts h
  constructor
  case pending_eq => exact hvalid.accounted
  case channel_le => exact hsized.channel.trans hsized.capacity.le
  case held_le => exact (List.length_filterMap_le _ _).trans hsized.workers.le
  case enqueued_eq => exact heffect.enqueued_fresh
  case analyzed_eq => exact heffect.analyzed_fresh
  case balance => exact heffect.balance hvalid.accounted
  case dropped =>
    intro x hx hdropped
    exact ⟨heffect.ended_mem_puts hx, dropped_of_acts h hfresh x hx hdropped⟩
  case findings => exact fun y hy => heffect.finding_put hknown hy
  case unsaturated => exact fun a x q' hstep htold => counted_off hvalid hstep htold
  case uncounted => exact fun a q' hstep hoffer hput => uncounted_of_act hvalid hstep hoffer hput

/-- Acts on a queue for one item with one worker: the first item is found malicious, the call for
another one is dropped while it waits, and two more items are given up, one of them in work. -/
def brokenOff : List Act :=
  [.own (.call (.enqueue "a@1")), .own .offer, .own (.listen 0), .own (.take 0), .put ⟨"b@1", 0⟩,
    .own (.call (.enqueue "c@1")), .turn (.returned .abandoned), .own (.submitted 0 (.ok "0")),
    .own (.reported 0 (.ok (some hostile))), .own (.listen 0), .own (.take 0), .put ⟨"d@1", 0⟩,
    .cancel, .own (.abort 0), .own (.listen 0), .own (.take 0)]

theorem balanced_of_acts_brokenOff : ∃ q,
    Steps act (fresh 1 1 .empty) brokenOff q ∧
    Balanced 1 1 .empty ((fresh 1 1 .empty).acts brokenOff) q ∧
    q.enqueued = 3 ∧ q.analyzed = 1 ∧ q.pending = 0 ∧
    q.findings.snapshot = [⟨"a@1", "steals tokens"⟩] := by
  have hrun : (brokenOff.foldlM act (fresh 1 1 .empty)).map
      (fun q => (q.enqueued, q.analyzed, q.pending, q.findings.snapshot)) =
      some (3, 1, 0, [⟨"a@1", "steals tokens"⟩]) := by
    decide +kernel
  obtain ⟨q, hq, heq⟩ := Option.map_eq_some_iff.mp hrun
  simp only [Prod.mk.injEq] at heq
  have hsteps := steps_iff_foldlM.mpr hq
  exact ⟨q, hsteps, balanced_of_acts Findings.isSorted_empty hsteps, heq⟩

end Queue

end PackageGate
