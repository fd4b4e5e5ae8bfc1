import Mathlib.Data.List.Flatten
import PackageGate.Proofs.Queue.Events
import PackageGate.Proofs.Queue.Feeding

/-!
# The analysis of a list of keys is exact

A call that has `keys` analyzed and ends well has dealt with every one of them: nothing is
lost, done twice, or mixed up with what is left of scans that were given up.

- `Queue.Completed`: the call has ended well; the lemmas about it tell what came of it.
- `Queue.Completed.puts`, `Queue.Completed.submissions`: the keys go into the channel and
  their packages to the service in the order of the list.
- `Queue.Completed.own_items`: what is done with in the epoch of the call are the items that
  were left over from it and the keys, each as often as it is there.
- `Queue.analyzes_exactly`: what a call does from any state that leaves no unfinished item.
-/

namespace PackageGate

namespace Queue

variable {q₀ q q' : Queue} {keys : List String} {l : Label} {ls : List Label} {e : Event}

/-! ## The keys and the channel -/

/-- Only an offer puts something into the channel. -/
theorem puts_of_ne_offer (q : Queue) (hl : l ≠ .offer) :
    (q.event? l).toList.flatMap Event.puts = [] := by
  have hputs : ∀ e, q.event? l = some e → e.puts = [] := by
    intro e he
    cases l with
    | offer => exact absurd rfl hl
    | call | settle | timeout | closed | listen | leave => cases he
    | take w =>
      simp only [event?] at he
      split at he
      · cases he
        split
        · rfl
        · split <;> rfl
      · cases he
    | submitted w reply =>
      simp only [event?] at he
      split at he
      · split at he <;> cases he <;> rfl
      · cases he
    | reported w reply =>
      simp only [event?] at he
      split at he <;> cases he
      rfl
    | abort w =>
      simp only [event?, Option.bind_eq_bind, Option.bind_eq_some_iff] at he
      obtain ⟨s, -, item, -, he⟩ := he
      cases he
      rfl
  cases he : q.event? l with
  | none => rfl
  | some e => simp [hputs e he]

/-- The caller's place changes with the caller's own steps only. -/
theorem Move.caller_eq (h : Move q l q') (hcall : ∀ c, l ≠ .call c) (htimeout : l ≠ .timeout)
    (hoffer : l ≠ .offer) : q'.caller = q.caller ∨
      (q.caller = .draining ∧ q.pending = 0 ∨ q.caller = .closing) ∧
        q'.caller = .returned .finished := by
  cases h with
  | call => exact absurd rfl (hcall _)
  | cancel => exact absurd rfl htimeout
  | abandon => exact absurd rfl htimeout
  | offer => exact absurd rfl hoffer
  | settle hc hpending => exact .inr ⟨.inl ⟨hc, hpending⟩, rfl⟩
  | closed hc => exact .inr ⟨.inr hc, rfl⟩
  | @reported w item p id reply =>
    rcases judge_eq q item p reply with hj | ⟨_, hj⟩ <;> rw [hj] <;> exact .inl rfl
  | listen | leave | discard | reject | submit | submitted | unsubmitted | abort => exact .inl rfl

/-- The keys that a caller has still to put are those it puts with a step and those it has to
put after it. -/
theorem Move.unfed (h : Move q l q') (hcall : ∀ c, l ≠ .call c) (htimeout : l ≠ .timeout)
    (henqueue : ∀ key, q.caller ≠ .enqueueing key) :
    q.caller.unfed = ((q.event? l).toList.flatMap Event.puts).map Item.key ++ q'.caller.unfed := by
  by_cases hoffer : l = .offer
  · subst hoffer
    cases h with
    | @offer key next _ hnext =>
      have hfeeding : ∃ rest, q.caller = .feeding rest := by
        cases hc : q.caller with
        | enqueueing key => exact absurd hc (henqueue key)
        | feeding rest => exact ⟨rest, rfl⟩
        | idle | draining | closing | returned => simp [hc, Caller.offer?] at hnext
      obtain ⟨rest, hc⟩ := hfeeding
      have hrest := (Caller.offer?_feeding (hc ▸ hnext)).1
      rw [event?, hnext, hc]
      simpa [Caller.unfed, Event.puts] using hrest
  · rw [puts_of_ne_offer q hoffer]
    rcases h.caller_eq hcall htimeout hoffer with hc | ⟨⟨hc, -⟩ | hc, hret⟩
    · rw [hc]
      rfl
    · rw [hc, hret]
      rfl
    · rw [hc, hret]
      rfl

/-! ## What an event that fits its epoch tells -/

/-- The package of an item of the epoch `epoch`. -/
def Item.package? (epoch : Nat) (item : Item) : Option Package :=
  if item.epoch = epoch then (Package.ofSpec item.key).toOption else none

theorem Event.Fits.submitted_eq {epoch : Nat} (h : e.Fits epoch) :
    e.queries.filterMap Query.package? = e.taken.filterMap (·.package? epoch) := by
  match e, h with
  | .put _, _ | .asked (.report _ _), _ | .ended (.refused _ _ _), _
  | .ended (.judged _ _ _ _), _ | .ended (.late _ _ _), _ => rfl
  | .asked (.submit item p), ⟨hepoch, hp⟩ =>
    have hpackage : item.package? epoch = some p := by rw [Item.package?, if_pos hepoch, hp]; rfl
    simp [Event.queries, Query.package?, Event.taken, hpackage]
  | .ended (.rejected item), ⟨hepoch, why, hwhy⟩ =>
    have hpackage : item.package? epoch = none := by rw [Item.package?, if_pos hepoch, hwhy]; rfl
    simp [Event.queries, Event.taken, hpackage]
  | .ended (.dropped item s), ⟨hepoch, _⟩ =>
    have hpackage : item.package? epoch = none := if_neg hepoch
    cases s <;> simp [Event.queries, Event.taken, hpackage]

/-- The queries made for an item are about this item. -/
theorem Event.Fits.queries_item {epoch : Nat} {x : Entry} (h : (Event.ended x).Fits epoch)
    {query : Query} (hquery : query ∈ x.queries) : query.item = x.item := by
  match x, h with
  | .rejected _, _ => cases hquery
  | .refused item p _, _ =>
    obtain rfl := List.mem_singleton.mp hquery
    rfl
  | .judged item p id _, _ | .late item p id, _ =>
    rcases List.mem_cons.mp hquery with rfl | hquery
    · rfl
    · obtain rfl := List.mem_singleton.mp hquery
      rfl
  | .dropped item s, ⟨_, hs⟩ =>
    rcases hs with rfl | hs
    · cases hquery
    · cases s with
      | submitting item' p =>
        obtain rfl : item' = item := Option.some.inj hs
        obtain rfl := List.mem_singleton.mp hquery
        rfl
      | reporting item' p id =>
        obtain rfl : item' = item := Option.some.inj hs
        rcases List.mem_cons.mp hquery with rfl | hquery
        · rfl
        · obtain rfl := List.mem_singleton.mp hquery
          rfl
      | waiting | receiving | exited => cases hs

/-- No worker becomes busy with an item of another epoch. -/
theorem Event.Fits.received_stale {epoch : Nat} (h : e.Fits epoch) :
    e.received.filter (fun item => !decide (item.epoch = epoch)) = [] := by
  match e, h with
  | .asked (.submit item _), ⟨hepoch, _⟩ => simp [Event.received, hepoch]
  | .put _, _ | .asked (.report _ _), _ | .ended _, _ => rfl

/-- Where an analysis is counted for an item of another epoch, a worker is done with the item. -/
theorem Event.Fits.stale_sublist {epoch : Nat} (h : e.Fits epoch) :
    (((e.entries.filter (!·.isDropped)).filter
      fun x => !decide (x.item.epoch = epoch)).map Entry.item).Sublist
    (e.released.filter fun item => !decide (item.epoch = epoch)) := by
  match e, h with
  | .put _, _ | .asked _, _ => exact List.nil_sublist _
  | .ended (.rejected item), ⟨hepoch, _⟩ =>
    simp [Event.entries, Entry.isDropped, Entry.item, hepoch]
  | .ended (.dropped item s), _ => exact List.nil_sublist _
  | .ended (.refused item _ _), _ | .ended (.judged item _ _ _), _ | .ended (.late item _ _), _ =>
    by_cases hepoch : item.epoch = epoch <;>
      simp [Event.entries, Event.released, Entry.isDropped, Entry.item, hepoch]

theorem spent_eq_nil (h : q.held = []) : q.spent = [] := by
  refine List.flatMap_eq_nil_iff.mpr fun s hs => ?_
  refine Worker.queries_of_idle ?_
  exact List.filterMap_eq_nil_iff.mp h s hs

/-- The queries that are out are about items in work. -/
theorem item_mem_held_of_spent {query : Query} (h : query ∈ q.spent) : query.item ∈ q.held := by
  obtain ⟨s, hs, hquery⟩ := List.mem_flatMap.mp h
  refine List.mem_filterMap.mpr ⟨s, hs, ?_⟩
  cases s with
  | submitting item p =>
    obtain rfl := List.mem_singleton.mp hquery
    rfl
  | reporting item p id =>
    rcases List.mem_cons.mp hquery with rfl | hquery
    · rfl
    · obtain rfl := List.mem_singleton.mp hquery
      rfl
  | waiting | receiving | exited => cases hquery

theorem filter_flatMap_of_forall {α β : Type} {f : α → List β} {p : β → Bool} {r : α → Bool}
    {xs : List α} (h : ∀ x ∈ xs, ∀ y ∈ f x, p y = r x) :
    (xs.flatMap f).filter p = (xs.filter r).flatMap f := by
  induction xs with
  | nil => rfl
  | cons x xs ih =>
    obtain ⟨hx, hxs⟩ := List.forall_mem_cons.mp h
    rw [List.flatMap_cons, List.filter_append, ih hxs]
    by_cases hr : r x = true
    · rw [List.filter_cons_of_pos hr, List.flatMap_cons,
        List.filter_eq_self.mpr fun y hy => (hx y hy).trans hr]
    · rw [List.filter_cons_of_neg hr,
        List.filter_eq_nil_iff.mpr fun y hy => by rwa [hx y hy], List.nil_append]

/-! ## A call that ends well -/

/-- The call that has `keys` analyzed, begun at `q₀`, has ended well with the steps `ls`. -/
structure Completed (q₀ : Queue) (keys : List String) (ls : List Label) (q : Queue) : Prop where
  valid : q₀.Valid
  run : Steps step (q₀.beginCall (.analyzeAll keys)) ls q
  uncalled : ∀ l ∈ ls, ∀ c, l ≠ .call c
  finished : q.caller = .returned .finished

/-- The items of the current epoch that wait or are in work. -/
def unfinished (q : Queue) : List Item := (q.channel ++ q.held).filter (·.epoch = q.epoch)

/-- What has become of the items of the epoch `q₀.epoch`, in a call that has `keys` analyzed. -/
def ownEntries (q₀ : Queue) (keys : List String) (ls : List Label) : List Entry :=
  ((q₀.beginCall (.analyzeAll keys)).entries ls).filter (·.item.epoch = q₀.epoch)

/-- The queries about items of the epoch `q₀.epoch`, in a call that has `keys` analyzed. -/
def ownQueries (q₀ : Queue) (keys : List String) (ls : List Label) : List Query :=
  ((q₀.beginCall (.analyzeAll keys)).queries ls).filter (·.item.epoch = q₀.epoch)

/-- An item has been dealt with as its key demands: a key that names no package is rejected,
and any other key's package is submitted. -/
def Entry.Right : Entry → Prop
  | rejected item => ∃ why, Package.ofSpec item.key = .error why
  | refused item p _ => Package.ofSpec item.key = .ok p
  | judged item p _ _ => Package.ofSpec item.key = .ok p
  | late _ _ _ => False
  | dropped _ _ => False

theorem valid_beginCall (h : q₀.Valid) (c : Call) : (q₀.beginCall c).Valid := by
  cases c with
  | analyzeAll keys => cases keys <;> exact ⟨h.accounted, h.isSorted, h.proper, h.epoch_le⟩
  | enqueue | drain | shutdown => exact ⟨h.accounted, h.isSorted, h.proper, h.epoch_le⟩

/-- A caller that has given up stays so until it calls again. -/
theorem returned_of_steps {ending : Ending} (h : Steps step q ls q')
    (hls : ∀ l ∈ ls, ∀ c, l ≠ .call c) (hq : q.caller = .returned ending) :
    q'.caller = .returned ending := by
  induction h with
  | refl => exact hq
  | @tail ls m l u hm hstep ih =>
    have hm := ih fun k hk => hls k (List.mem_append_left _ hk)
    have hmove := step_move hstep
    have hcall := hls l (List.mem_append_right _ List.mem_cons_self)
    by_cases htimeout : l = .timeout
    · subst htimeout
      cases hmove with
      | abandon hc => simp [hm] at hc
      | cancel hc => simp [hm] at hc
    · by_cases hoffer : l = .offer
      · subst hoffer
        cases hmove with
        | offer _ hnext => simp [hm, Caller.offer?] at hnext
      · rcases hmove.caller_eq hcall htimeout hoffer with hc | ⟨⟨hc, -⟩ | hc, -⟩
        · rw [hc, hm]
        · simp [hm] at hc
        · simp [hm] at hc

/-- In a call that ends well the time did not pass. -/
theorem Completed.timely (h : Completed q₀ keys ls q) : ∀ l ∈ ls, l ≠ .timeout := by
  rintro l hl rfl
  obtain ⟨as, bs, rfl⟩ := List.append_of_mem hl
  obtain ⟨m, -, hm⟩ := h.run.split
  obtain ⟨n, hstep, hn⟩ := hm.cons_inv
  have hbs : ∀ l ∈ bs, ∀ c, l ≠ .call c := fun l hl =>
    h.uncalled l (List.mem_append_right _ (List.mem_cons_of_mem _ hl))
  have hret : n.caller = .returned .abandoned ∨ n.caller = .returned .cancelled := by
    cases step_move hstep with
    | abandon => exact .inl rfl
    | cancel => exact .inr rfl
  rcases hret with hret | hret <;>
    · have hend := returned_of_steps hn hbs hret
      rw [h.finished] at hend
      cases hend

/-- While the call is going on, the keys are those that have been put and those that have
still to be put. -/
theorem feeding_of_steps (hq₀ : q₀.Valid)
    (h : Steps step (q₀.beginCall (.analyzeAll keys)) ls q) (hcall : ∀ l ∈ ls, ∀ c, l ≠ .call c)
    (htimeout : ∀ l ∈ ls, l ≠ .timeout) :
    Feeding q₀.epoch q₀.submissions keys q ∧
      keys = ((q₀.beginCall (.analyzeAll keys)).puts ls).map Item.key ++ q.caller.unfed := by
  induction h with
  | refl =>
    refine ⟨.of_beginCall rfl List.prefix_rfl, ?_⟩
    cases keys <;> rfl
  | @tail ls m l u hm hstep ih =>
    obtain ⟨hfeeding, hkeys⟩ := ih (fun k hk => hcall k (List.mem_append_left _ hk))
      fun k hk => htimeout k (List.mem_append_left _ hk)
    have hmove := step_move hstep
    have hl := hcall l (List.mem_append_right _ List.mem_cons_self)
    have hl' := htimeout l (List.mem_append_right _ List.mem_cons_self)
    have haccounted := (valid_of_steps hm (valid_beginCall hq₀ _)).accounted
    refine ⟨hfeeding.move haccounted hmove hl hl', ?_⟩
    have henqueue : ∀ key, m.caller ≠ .enqueueing key := by
      intro key hc
      rcases hfeeding.caller with ⟨_, hc'⟩ | hc' | ⟨hc', -⟩ <;> rw [hc] at hc' <;> cases hc'
    have hunfed := hmove.unfed hl hl' henqueue
    rw [puts, events, gather_concat hm hstep, List.flatMap_append, List.map_append,
      List.append_assoc, ← hunfed]
    exact hkeys

namespace Completed

variable (h : Completed q₀ keys ls q)

include h

theorem feeding : Feeding q₀.epoch q₀.submissions keys q :=
  (feeding_of_steps h.valid h.run h.uncalled h.timely).1

/-- At the end nothing waits and nothing is in work. -/
theorem idle : q.channel = [] ∧ q.held = [] := by
  rcases h.feeding.caller with ⟨_, hc⟩ | hc | ⟨-, hchannel, hheld⟩
  · rw [h.finished] at hc
    cases hc
  · rw [h.finished] at hc
    cases hc
  · exact ⟨hchannel, hheld⟩

theorem valid_end : q.Valid := valid_of_steps h.run (valid_beginCall h.valid _)

theorem pending_eq : q.pending = 0 := by
  have haccounted := h.valid_end.accounted
  obtain ⟨hchannel, hheld⟩ := h.idle
  rw [Accounted, hchannel, hheld] at haccounted
  exact haccounted

/-- Every event of the call fits its epoch. -/
theorem fits {e : Event} (he : e ∈ (q₀.beginCall (.analyzeAll keys)).events ls) :
    e.Fits q₀.epoch := by
  obtain ⟨as, l, bs, m, hls, hm, hnote⟩ := (mem_gather h.run).mp he
  subst hls
  obtain ⟨m', hm', hrest⟩ := h.run.split
  obtain rfl := hm.det hm'
  obtain ⟨n, hstep, -⟩ := hrest.cons_inv
  have hfeeding := (feeding_of_steps h.valid hm
    (fun k hk => h.uncalled k (List.mem_append_left _ hk))
    fun k hk => h.timely k (List.mem_append_left _ hk)).1
  have hfits := (step_move hstep).fits (valid_of_steps hm (valid_beginCall h.valid _)) hnote
  rwa [hfeeding.epoch_eq] at hfits

/-- The keys go into the channel one by one, in the order of the list. -/
theorem puts : (q₀.beginCall (.analyzeAll keys)).puts ls = keys.map fun key => ⟨key, q₀.epoch⟩ := by
  have hkeys := (feeding_of_steps h.valid h.run h.uncalled h.timely).2
  have hunfed : (Caller.returned .finished).unfed = [] := rfl
  rw [h.finished, hunfed, List.append_nil] at hkeys
  have hepoch : ∀ item ∈ (q₀.beginCall (.analyzeAll keys)).puts ls, item.epoch = q₀.epoch := by
    intro item hitem
    obtain ⟨e, he, hitem⟩ := List.mem_flatMap.mp hitem
    cases e with
    | put item' =>
      obtain rfl : item = item' := by simpa [Event.puts] using hitem
      exact h.fits he
    | asked | ended => cases hitem
  calc
    _ = ((q₀.beginCall (.analyzeAll keys)).puts ls).map id := (List.map_id _).symm
    _ = ((q₀.beginCall (.analyzeAll keys)).puts ls).map
          ((fun key => ⟨key, q₀.epoch⟩) ∘ Item.key) := by
      refine List.map_congr_left fun item hitem => ?_
      show item = ⟨item.key, q₀.epoch⟩
      rw [← hepoch item hitem]
    _ = keys.map fun key => ⟨key, q₀.epoch⟩ := by rw [← List.map_map, ← hkeys]

/-- The events of the call make the difference between the states before and after it. -/
theorem effect : Effect q₀ ((q₀.beginCall (.analyzeAll keys)).events ls) q :=
  (Effect.of_beginCall q₀ _).trans (effect_of_steps h.run)

/-- What becomes of an item fits the epoch of the call. -/
theorem entry_fits {x : Entry} (hx : x ∈ (q₀.beginCall (.analyzeAll keys)).entries ls) :
    (Event.ended x).Fits q₀.epoch := by
  obtain ⟨e, he, hx⟩ := List.mem_flatMap.mp hx
  cases e with
  | ended y =>
    obtain rfl : x = y := by simpa [Event.entries] using hx
    exact h.fits he
  | put | asked => cases hx

/-- At the end everything that came into the channel has been taken out of it. -/
theorem taken : ((q₀.beginCall (.analyzeAll keys)).events ls).flatMap Event.taken =
    q₀.channel ++ keys.map fun key => ⟨key, q₀.epoch⟩ := by
  have hchannel := h.effect.channel
  rw [h.idle.1, List.append_nil] at hchannel
  rw [← hchannel]
  exact congrArg (q₀.channel ++ ·) h.puts

/-- The packages of the items that were waiting and of the keys are submitted, in order. -/
theorem submissions :
    q.submissions = q₀.submissions ++ (q₀.channel.filterMap (·.package? q₀.epoch) ++
      keys.filterMap fun key => (Package.ofSpec key).toOption) := by
  have hsubmitted : ∀ e ∈ (q₀.beginCall (.analyzeAll keys)).events ls,
      e.queries.filterMap Query.package? = e.taken.filterMap (·.package? q₀.epoch) :=
    fun e he => (h.fits he).submitted_eq
  have hkeys : (keys.map fun key => (⟨key, q₀.epoch⟩ : Item)).filterMap (·.package? q₀.epoch) =
      keys.filterMap fun key => (Package.ofSpec key).toOption := by
    rw [List.filterMap_map]
    exact List.filterMap_congr fun key _ => if_pos rfl
  rw [h.effect.submissions, List.filterMap_flatMap, List.flatMap_congr hsubmitted,
    ← List.filterMap_flatMap, h.taken, List.filterMap_append, hkeys]

/-- What is done with in the epoch of the call are the items that were left over from it and
the keys. -/
theorem own_items :
    ((q₀.ownEntries keys ls).map Entry.item).Perm
      (q₀.unfinished ++ keys.map fun key => ⟨key, q₀.epoch⟩) := by
  have hputs : ((q₀.beginCall (.analyzeAll keys)).events ls).flatMap Event.puts =
      keys.map fun key => ⟨key, q₀.epoch⟩ := h.puts
  have hitems := h.effect.items
  rw [h.idle.1, h.idle.2, hputs, Multiset.coe_nil, zero_add, zero_add, Multiset.coe_add,
    Multiset.coe_add, Multiset.coe_eq_coe] at hitems
  have hown := (hitems.filter (·.epoch = q₀.epoch)).symm
  have hkeys : (keys.map fun key => (⟨key, q₀.epoch⟩ : Item)).filter (·.epoch = q₀.epoch) =
      keys.map fun key => ⟨key, q₀.epoch⟩ := by
    refine List.filter_eq_self.mpr fun item hitem => ?_
    obtain ⟨key, -, rfl⟩ := List.mem_map.mp hitem
    exact decide_eq_true rfl
  rw [List.filter_append, hkeys, List.filter_map] at hown
  exact hown

/-- Every own item is dealt with as its key demands; none is let go. -/
theorem own_right {x : Entry} (hx : x ∈ q₀.ownEntries keys ls) : x.Right := by
  obtain ⟨hx, hepoch⟩ := List.mem_filter.mp hx
  have hepoch : x.item.epoch = q₀.epoch := of_decide_eq_true hepoch
  have hfits := h.entry_fits hx
  match x, hfits with
  | .rejected _, ⟨_, hwhy⟩ => exact hwhy
  | .refused _ _ _, hp => exact hp
  | .judged _ _ _ _, ⟨_, hp⟩ => exact hp
  | .late _ _ _, hlate => exact absurd hepoch hlate
  | .dropped _ _, ⟨hlate, _⟩ => exact absurd hepoch hlate

/-- The queries about own items are those that their entries tell of. -/
theorem own_queries : (q₀.spent.filter (·.item.epoch = q₀.epoch) ++ q₀.ownQueries keys ls).Perm
    ((q₀.ownEntries keys ls).flatMap Entry.queries) := by
  have hspent : q.spent = [] := spent_eq_nil h.idle.2
  have hqueries := h.effect.spent
  rw [hspent, Multiset.coe_nil, zero_add, Multiset.coe_add, Multiset.coe_eq_coe] at hqueries
  have hown := hqueries.filter (·.item.epoch = q₀.epoch)
  rw [List.filter_append] at hown
  have hentries : (((q₀.beginCall (.analyzeAll keys)).entries ls).flatMap Entry.queries).filter
      (·.item.epoch = q₀.epoch) = (q₀.ownEntries keys ls).flatMap Entry.queries := by
    refine filter_flatMap_of_forall fun x hx query hquery => ?_
    rw [(h.entry_fits hx).queries_item hquery]
  rw [← hentries]
  exact hown

/-- The findings are those of before and, one after another, the malicious verdicts on own
items. -/
theorem findings :
    q.findings = q₀.findings.recordAll ((q₀.ownEntries keys ls).filterMap Entry.finding?) := by
  have hown : ((q₀.beginCall (.analyzeAll keys)).entries ls).filterMap Entry.finding? =
      (q₀.ownEntries keys ls).filterMap Entry.finding? := by
    rw [ownEntries, List.filterMap_filter]
    refine List.filterMap_congr fun x hx => ?_
    have hfits := h.entry_fits hx
    match x, hfits with
    | .rejected _, _ | .refused _ _ _, _ | .late _ _ _, _ | .dropped _ _, _ => simp [Entry.finding?]
    | .judged item _ _ _, ⟨hepoch, _⟩ => exact (if_pos (decide_eq_true hepoch)).symm
  rw [h.effect.findings, ← hown]
  rfl

/-- The entries that count as analyses are the own ones, and possibly some of items that were in
work for a scan that had been given up. -/
theorem analyzed : ∃ stale : List Entry, (stale.map Entry.item).Subperm q₀.held ∧
    (∀ x ∈ stale, x.item.epoch ≠ q₀.epoch) ∧
    q.analyzed = q₀.analyzed + (q₀.ownEntries keys ls).length + stale.length := by
  let counted := ((q₀.beginCall (.analyzeAll keys)).entries ls).filter (!·.isDropped)
  let stale := counted.filter fun x => !decide (x.item.epoch = q₀.epoch)
  have hown : counted.filter (fun x => decide (x.item.epoch = q₀.epoch)) =
      q₀.ownEntries keys ls := by
    rw [ownEntries, List.filter_filter]
    refine List.filter_congr fun x hx => ?_
    by_cases hepoch : x.item.epoch = q₀.epoch
    · have hright := h.own_right (List.mem_filter.mpr ⟨hx, decide_eq_true hepoch⟩)
      cases x <;> first | exact hright.elim | simp [Entry.isDropped]
    · simp [hepoch]
  have hcount : (q₀.ownEntries keys ls).length + stale.length = counted.length := by
    rw [← hown, ← List.length_append]
    exact (List.filter_append_perm _ counted).length_eq
  refine ⟨stale, ?_, fun x hx => ?_, ?_⟩
  · -- Nothing of another epoch goes to a worker, so what workers are done with they had before.
    have hheld := h.effect.held
    rw [h.idle.2, Multiset.coe_nil, zero_add, Multiset.coe_add, Multiset.coe_eq_coe] at hheld
    have hstale := hheld.filter (fun item => !decide (item.epoch = q₀.epoch))
    have hreceived : (((q₀.beginCall (.analyzeAll keys)).events ls).flatMap
        Event.received).filter (fun item => !decide (item.epoch = q₀.epoch)) = [] := by
      rw [List.filter_flatMap]
      exact List.flatMap_eq_nil_iff.mpr fun e he => (h.fits he).received_stale
    rw [List.filter_append, hreceived, List.append_nil, List.filter_flatMap] at hstale
    have hitems : (stale.map Entry.item).Sublist (((q₀.beginCall (.analyzeAll keys)).events
        ls).flatMap fun e => e.released.filter fun item => !decide (item.epoch = q₀.epoch)) := by
      show (((((q₀.beginCall (.analyzeAll keys)).events ls).flatMap Event.entries).filter _).filter
        _ |>.map Entry.item).Sublist _
      rw [List.filter_flatMap, List.filter_flatMap, List.map_flatMap]
      exact List.Sublist.flatMap_right _ fun e he => (h.fits he).stale_sublist
    exact (hitems.subperm.trans hstale.symm.subperm).trans List.filter_sublist.subperm
  · simpa using (List.mem_filter.mp hx).2
  · rw [Nat.add_assoc, hcount]
    exact h.effect.analyzed

end Completed

/-- What a call that has `keys` analyzed, begun at `q₀`, has done with the steps `ls` when it
has ended well at `q`. -/
structure Exact (q₀ : Queue) (keys : List String) (ls : List Label) (q : Queue) : Prop where
  pending : q.pending = 0
  enqueued : q.enqueued = q₀.enqueued + keys.length
  /-- Every occurrence of a key is dealt with once, -/
  keys_perm : ((q₀.ownEntries keys ls).map fun x => x.item.key).Perm keys
  /-- as the key demands, -/
  right : ∀ x ∈ q₀.ownEntries keys ls, x.Right
  /-- and with no other queries than those its entry tells of. -/
  queries : (q₀.ownQueries keys ls).Perm ((q₀.ownEntries keys ls).flatMap Entry.queries)
  submissions : q.submissions =
    q₀.submissions ++ keys.filterMap fun key => (Package.ofSpec key).toOption
  reports : q.reports = q₀.reports ++
    ((q₀.beginCall (.analyzeAll keys)).queries ls).filterMap Query.id?
  /-- Every key counts once as analyzed. Answers to what was in work for a scan that had been
  given up may count besides. -/
  analyzed : ∃ stale : List Item, stale.Subperm q₀.held ∧
    (∀ item ∈ stale, item.epoch ≠ q₀.epoch) ∧
    q.analyzed = q₀.analyzed + keys.length + stale.length
  /-- The findings are those of before and, for every key that had none, the first malicious
  verdict on it. -/
  findings : ∀ x, x ∈ q.findings.snapshot ↔ x ∈ q₀.findings.snapshot ∨
    (q₀.findings.contains x.key = false ∧
      ((q₀.ownEntries keys ls).filterMap Entry.finding?).find? (·.key = x.key) = some x)
  isSorted : q.findings.IsSorted

/-- **A call that has keys analyzed is exact.** Let a queue of any size have any history that
leaves no item of the current epoch unfinished; items of scans that were given up may still wait
or be in work. A call that has `keys` analyzed and ends well has then done precisely what the
keys demand, in whatever order the caller and the workers took their steps. -/
theorem analyzes_exactly {capacity workers : Nat} {known : Findings} (hknown : known.IsSorted)
    {before ls : List Label} {q₀ q₁ q : Queue} {keys : List String}
    (hbefore : Steps step (fresh capacity workers known) before q₀)
    (hleft : q₀.unfinished = [])
    (hcall : q₀.step (.call (.analyzeAll keys)) = some q₁) (hrun : Steps step q₁ ls q)
    (huncalled : ∀ l ∈ ls, ∀ c, l ≠ .call c) (hfinished : q.caller = .returned .finished) :
    Exact q₀ keys ls q := by
  have hq₁ : q₁ = q₀.beginCall (.analyzeAll keys) := by
    cases step_move hcall with
    | call => rfl
  subst hq₁
  have h : Completed q₀ keys ls q :=
    ⟨valid_of_steps hbefore (valid_fresh capacity workers hknown), hrun, huncalled, hfinished⟩
  have hstale : ∀ item ∈ q₀.channel ++ q₀.held, item.epoch ≠ q₀.epoch := by
    intro item hitem
    simpa using List.filter_eq_nil_iff.mp hleft item hitem
  have hitems : ((q₀.ownEntries keys ls).map Entry.item).Perm
      (keys.map fun key => ⟨key, q₀.epoch⟩) := by
    have hown := h.own_items
    rwa [hleft, List.nil_append] at hown
  have hkeys : ((q₀.ownEntries keys ls).map fun x => x.item.key).Perm keys := by
    have hmap := hitems.map Item.key
    rw [List.map_map, List.map_map] at hmap
    exact hmap.trans (List.Perm.of_eq (List.map_id _))
  have hspent : q₀.spent.filter (·.item.epoch = q₀.epoch) = [] := by
    refine List.filter_eq_nil_iff.mpr fun query hquery => ?_
    simpa using hstale _ (List.mem_append_right _ (item_mem_held_of_spent hquery))
  have hpackages : q₀.channel.filterMap (·.package? q₀.epoch) = [] :=
    List.filterMap_eq_nil_iff.mpr fun item hitem =>
      if_neg (hstale item (List.mem_append_left _ hitem))
  refine ⟨h.pending_eq, ?_, hkeys, fun x hx => h.own_right hx, ?_, ?_, h.effect.reports, ?_, ?_,
    h.valid_end.isSorted⟩
  · have hputs := congrArg List.length h.puts
    rw [List.length_map] at hputs
    rw [h.effect.enqueued, ← hputs]
    rfl
  · have hqueries := h.own_queries
    rw [hspent, List.nil_append] at hqueries
    exact hqueries
  · rw [h.submissions, hpackages, List.nil_append]
  · obtain ⟨stale, hsub, hepoch, hcount⟩ := h.analyzed
    refine ⟨stale.map Entry.item, hsub, ?_, ?_⟩
    · intro item hitem
      obtain ⟨x, hx, rfl⟩ := List.mem_map.mp hitem
      exact hepoch x hx
    · have hlength := hkeys.length_eq
      rw [List.length_map] at hlength
      rw [hcount, hlength, List.length_map]
  · intro x
    rw [h.findings]
    exact Findings.mem_recordAll h.valid.isSorted

/-- A report that calls its package malicious. -/
def hostile : Report := ⟨some ⟨true, "steals tokens"⟩⟩

/-- A scan that is given up while its only item is in work. -/
def givenUp : List Label :=
  [.call (.analyzeAll ["old@1"]), .offer, .listen 0, .take 0, .timeout]

/-- The scan of `evil@1`, of a key that names no package and of `evil@1` again. The service
answers about the old item first, and does not accept the second submission of `evil@1`. -/
def afterwards : List Label :=
  [.offer, .submitted 0 (.ok "0"), .reported 0 (.ok (some hostile)), .listen 0, .take 0, .offer,
    .submitted 0 (.ok "1"), .reported 0 (.ok (some hostile)), .listen 0, .take 0, .offer,
    .listen 0, .take 0, .submitted 0 (.error (.of .promptClosed)), .settle]

/-- A new call, while a worker holds an item of one that was given up. -/
theorem analyzes_exactly_afterwards : ∃ q₀ q₁ q,
    Steps step (fresh 0 0 .empty) givenUp q₀ ∧ q₀.held ≠ [] ∧
      q₀.step (.call (.analyzeAll ["evil@1", "", "evil@1"])) = some q₁ ∧
      Steps step q₁ afterwards q ∧ Exact q₀ ["evil@1", "", "evil@1"] afterwards q ∧
      q.findings.snapshot = [⟨"evil@1", "steals tokens"⟩] := by
  have hrun : (do
      let q₀ ← givenUp.foldlM step (fresh 0 0 .empty)
      let q₁ ← q₀.step (.call (.analyzeAll ["evil@1", "", "evil@1"]))
      let q ← afterwards.foldlM step q₁
      return (q₀.held ≠ [] ∧ q₀.unfinished = [] ∧ q.caller = .returned .finished ∧
        q.findings.snapshot = [⟨"evil@1", "steals tokens"⟩] : Bool)) = some true := by
    decide +kernel
  simp only [Option.bind_eq_bind, Option.bind_eq_some_iff, Option.pure_def, Option.some.injEq,
    decide_eq_true_eq] at hrun
  obtain ⟨q₀, hbefore, q₁, hcall, q, hafter, hheld, hleft, hfinished, hfindings⟩ := hrun
  have hbefore := steps_iff_foldlM.mpr hbefore
  have hafter := steps_iff_foldlM.mpr hafter
  have huncalled : ∀ l ∈ afterwards, ∀ c, l ≠ .call c := by
    rintro l hl c rfl
    simp [afterwards] at hl
  exact ⟨q₀, q₁, q, hbefore, hheld, hcall, hafter,
    analyzes_exactly Findings.isSorted_empty hbefore hleft hcall hafter huncalled hfinished,
    hfindings⟩

end Queue

end PackageGate
