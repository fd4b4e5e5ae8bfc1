import PackageGate.Proofs.Queue.Oracle
import PackageGate.Proofs.Queue.Progress

/-!
# A scan that was given up leaves nothing behind

When a call gives up, items of its epoch may wait in the channel or be in work. None of them
is submitted or judged afterwards, none of the items that come later suffers for it, later
scans find what they would find on a new queue, and no later caller waits for an answer about
the old items.

- `Queue.silent_of_stale`: nothing is submitted or recorded for an item of an older epoch.
- `Queue.exists_cancel`: the epoch moves on only where a call gives up.
- `Queue.Isolated`: what a call that was given up cannot do to later ones.
- `Queue.cancellation_isolates`: it cannot, whatever the history and the order of steps.
-/

namespace PackageGate

namespace Queue

variable {q q' : Queue} {l : Label} {ls : List Label} {item : Item}

/-- An event of a run fits the epoch of a state of the run. -/
theorem exists_fits (h : Steps step q ls q') (hq : q.Valid) {e : Event} (he : e ∈ q.events ls) :
    ∃ epoch, q.epoch ≤ epoch ∧ epoch ≤ q'.epoch ∧ e.Fits epoch := by
  obtain ⟨as, l, bs, m, rfl, hm, hnote⟩ := (mem_gather h).mp he
  obtain ⟨m', hm', hrest⟩ := h.split
  obtain rfl := hm.det hm'
  obtain ⟨n, hstep, -⟩ := hrest.cons_inv
  exact ⟨m.epoch, epoch_le_of_steps hm, epoch_le_of_steps hrest,
    (step_move hstep).fits (valid_of_steps hm hq) hnote⟩

/-- The items that a run puts into the channel belong to epochs of the run. -/
theorem epoch_of_puts (h : Steps step q ls q') (hq : q.Valid) (hitem : item ∈ q.puts ls) :
    q.epoch ≤ item.epoch ∧ item.epoch ≤ q'.epoch := by
  obtain ⟨e, he, hitem⟩ := List.mem_flatMap.mp hitem
  obtain ⟨epoch, hle, hge, hfits⟩ := exists_fits h hq he
  cases e with
  | put item' =>
    obtain rfl : item = item' := by simpa [Event.puts] using hitem
    have hepoch : item.epoch = epoch := hfits
    exact ⟨hepoch ▸ hle, hepoch ▸ hge⟩
  | asked | ended => cases hitem

/-- Nothing is submitted or recorded for an item of an older epoch. -/
theorem silent_of_stale (h : Steps step q ls q') (hq : q.Valid) (hstale : item.epoch < q.epoch) :
    (∀ p, .submit item p ∉ q.queries ls) ∧
      ∀ x ∈ q.entries ls, x.item = item → x.finding? = none := by
  constructor
  · intro p hp
    obtain ⟨e, he, hp⟩ := List.mem_flatMap.mp hp
    obtain ⟨epoch, hle, -, hfits⟩ := exists_fits h hq he
    cases e with
    | asked query =>
      obtain rfl : .submit item p = query := by simpa [Event.queries] using hp
      have hepoch : item.epoch = epoch := hfits.1
      omega
    | put | ended => cases hp
  · rintro x hx rfl
    obtain ⟨e, he, hx⟩ := List.mem_flatMap.mp hx
    obtain ⟨epoch, hle, -, hfits⟩ := exists_fits h hq he
    cases e with
    | ended y =>
      obtain rfl : x = y := by simpa [Event.entries] using hx
      cases x with
      | judged item p id reply =>
        have hepoch : item.epoch = epoch := hfits.1
        have hlt : item.epoch < q.epoch := hstale
        omega
      | rejected | refused | late | dropped => rfl
    | put | asked => cases hx

/-- The epoch moves on only where a call gives up. -/
theorem exists_cancel (h : Steps step q ls q') (hlt : q.epoch < q'.epoch) :
    ∃ as bs m, ls = as ++ .timeout :: bs ∧ Steps step q as m ∧ m.epoch = q.epoch ∧
      m.step .timeout = some m.cancel := by
  induction h with
  | refl => exact absurd hlt (lt_irrefl _)
  | @tail ls m l u hm hstep ih =>
    rcases (epoch_le_of_steps hm).lt_or_eq with hearlier | heq
    · obtain ⟨as, bs, n, rfl, hn, hepoch, hcancel⟩ := ih hearlier
      exact ⟨as, bs ++ [l], n, by simp, hn, hepoch, hcancel⟩
    · have htimeout : l = .timeout := by
        by_contra hl
        have hsame := (step_move hstep).epoch_eq hl
        omega
      subst htimeout
      refine ⟨ls, [], m, rfl, hm, heq.symm, ?_⟩
      cases step_move hstep with
      | abandon =>
        rw [heq] at hlt
        exact absurd hlt (lt_irrefl _)
      | cancel => exact hstep

/-- An item that is let go after it came in was given up by a call of its own epoch. -/
theorem exists_cancel_of_dropped (h : Steps step q ls q') (hq : q.Valid)
    (hitem : item ∈ q.puts ls) {s : Worker} {q'' : Queue} (hstep : q'.step l = some q'')
    (hdropped : q'.event? l = some (.ended (.dropped item s))) :
    ∃ as bs m, ls = as ++ .timeout :: bs ∧ Steps step q as m ∧ item ∈ q.puts as ∧
      m.epoch = item.epoch ∧ m.step .timeout = some m.cancel := by
  obtain ⟨e, he, hmem⟩ := List.mem_flatMap.mp hitem
  obtain ⟨as, l, bs, m, rfl, hm, hnote⟩ := (mem_gather h).mp he
  obtain ⟨m', hm', hrest⟩ := h.split
  obtain rfl := hm.det hm'
  obtain ⟨n, hput, hn⟩ := hrest.cons_inv
  have hepoch : item.epoch = m.epoch := by
    have hfits := (step_move hput).fits (valid_of_steps hm hq) hnote
    cases e with
    | put item' =>
      obtain rfl : item = item' := by simpa [Event.puts] using hmem
      exact hfits
    | asked | ended => cases hmem
  have hput' := hm.tail hput
  have hne : item.epoch ≠ q'.epoch :=
    ((step_move hstep).fits (valid_of_steps h hq) hdropped).1
  have hmn : n.epoch = m.epoch := by
    refine (step_move hput).epoch_eq ?_
    rintro rfl
    cases hnote
  have hlt : n.epoch < q'.epoch := by
    have hle := epoch_le_of_steps hn
    omega
  obtain ⟨cs, ds, k, rfl, hk, hkepoch, hcancel⟩ := exists_cancel hn hlt
  refine ⟨as ++ [l] ++ cs, ds, k, by simp, hput'.trans hk, ?_, by omega, hcancel⟩
  have hputs : q.puts (as ++ [l] ++ cs) = q.puts as ++ m.puts [l] ++ n.puts cs := by
    unfold puts events
    rw [gather_append hput', gather_concat hm hput, List.flatMap_append, List.flatMap_append]
    simp only [gather, hput, List.append_nil]
  rw [hputs]
  refine List.mem_append_left _ (List.mem_append_right _ ?_)
  unfold puts events
  simp only [gather, hput, List.append_nil, hnote, Option.toList_some, List.flatMap_singleton]
  exact hmem

/-! ## What is left of the current epoch -/

/-- Giving up leaves nothing that anybody waits for. -/
theorem unfinished_of_valid_cancel (hq : q.Valid) : q.cancel.unfinished = [] := by
  refine List.filter_eq_nil_iff.mpr fun item hitem => ?_
  have hle := hq.epoch_le item hitem
  have hne : item.epoch ≠ q.cancel.epoch := Nat.ne_of_lt (Nat.lt_succ_of_le hle)
  simpa using hne

/-- Where nothing comes in and the epoch stays, nothing of it is left that was not there. -/
theorem Effect.unfinished_eq_nil {es : List Event} (h : Effect q es q')
    (hputs : es.flatMap Event.puts = []) (hepoch : q'.epoch = q.epoch) (hq : q.unfinished = []) :
    q'.unfinished = [] := by
  refine List.filter_eq_nil_iff.mpr fun item hitem => ?_
  have hitems := h.items
  rw [hputs, Multiset.coe_nil, add_zero] at hitems
  have hmem : item ∈ (q.channel : Multiset Item) + q.held := by
    rw [hitems]
    exact Multiset.mem_add.mpr (.inl (by simpa using hitem))
  rw [hepoch]
  exact List.filter_eq_nil_iff.mp hq item (by simpa using hmem)

/-- Only a caller that does not wait for its item leaves items of the current epoch behind. -/
theorem unfinished_of_steps (h : Steps step q ls q') (hq : q.Valid)
    (hcaller : ∀ key, q.caller ≠ .enqueueing key) (hnone : q.caller.Awaits ∨ q.unfinished = [])
    (hls : ∀ key, .call (.enqueue key) ∉ ls) :
    (∀ key, q'.caller ≠ .enqueueing key) ∧ (q'.caller.Awaits ∨ q'.unfinished = []) := by
  induction h with
  | refl => exact ⟨hcaller, hnone⟩
  | @tail ls m l u hm hstep ih =>
    obtain ⟨hcaller, hnone⟩ := ih fun key hkey => hls key (List.mem_append_left _ hkey)
    have hl : ∀ key, l ≠ .call (.enqueue key) := by
      rintro key rfl
      exact hls key (List.mem_append_right _ List.mem_cons_self)
    have hmove := step_move hstep
    have hvalid := valid_of_steps hm hq
    by_cases hcall : ∃ c, l = .call c
    · obtain ⟨c, rfl⟩ := hcall
      cases hmove with
      | call hidle =>
        have hleft : m.unfinished = [] := by
          refine hnone.resolve_left ?_
          rintro (⟨keys, hc⟩ | hc) <;> simp [hc] at hidle
        cases c with
        | enqueue key => exact absurd rfl (hl key)
        | drain => exact ⟨by rintro _ ⟨⟩, .inl (.inr rfl)⟩
        | analyzeAll keys =>
          cases keys with
          | nil => exact ⟨by rintro _ ⟨⟩, .inl (.inr rfl)⟩
          | cons => exact ⟨by rintro _ ⟨⟩, .inl (.inl ⟨_, rfl⟩)⟩
        | shutdown => exact ⟨by rintro _ ⟨⟩, .inr hleft⟩
    by_cases htimeout : l = .timeout
    · subst htimeout
      cases hmove with
      | abandon hc => exact absurd hc (hcaller _)
      | cancel => exact ⟨by rintro _ ⟨⟩, .inr (unfinished_of_valid_cancel hvalid)⟩
    have hcall : ∀ c, l ≠ .call c := fun c hc => hcall ⟨c, hc⟩
    by_cases hoffer : l = .offer
    · subst hoffer
      cases hmove with
      | @offer key next _ hnext =>
        cases hc : m.caller with
        | enqueueing key => exact absurd hc (hcaller key)
        | feeding keys =>
          rcases (Caller.offer?_feeding (hc ▸ hnext)).2 with rfl | ⟨ks, rfl⟩
          · exact ⟨by rintro _ ⟨⟩, .inl (.inr rfl)⟩
          · exact ⟨by rintro _ ⟨⟩, .inl (.inl ⟨ks, rfl⟩)⟩
        | idle | draining | closing | returned => simp [hc, Caller.offer?] at hnext
    have hkeep : m.unfinished = [] → u.unfinished = [] :=
      hmove.effect.unfinished_eq_nil (puts_of_ne_offer m hoffer) (hmove.epoch_eq htimeout)
    rcases hmove.caller_eq hcall htimeout hoffer with hc | ⟨⟨hc, hpending⟩ | hc, hret⟩
    · rw [hc]
      exact ⟨hcaller, hnone.imp_right hkeep⟩
    · rw [hret]
      obtain ⟨hchannel, hheld⟩ := hvalid.accounted.idle hpending
      refine ⟨by rintro _ ⟨⟩, .inr (hkeep ?_)⟩
      rw [unfinished, hchannel, hheld]
      rfl
    · rw [hret]
      refine ⟨by rintro _ ⟨⟩, .inr (hkeep (hnone.resolve_left ?_))⟩
      rintro (⟨keys, hc'⟩ | hc') <;> simp [hc] at hc'

/-! ## Isolation -/

/-- A completed call of a queue that has taken the steps `ls` since it was new, with its service
answering as the oracle says. -/
theorem completed_of_steps {o : Oracle} {capacity workers : Nat} {known : Findings}
    (hknown : known.IsSorted) {q₀ q₁ : Queue} {keys : List String} {ks : List Label}
    (h : Steps (stepUnder o) (fresh capacity workers known) ls q₀)
    (hcall : q₀.step (.call (.analyzeAll keys)) = some q₁) (hrun : Steps (stepUnder o) q₁ ks q)
    (huncalled : ∀ l ∈ ks, ∀ c, l ≠ .call c) (hfinished : q.caller = .returned .finished) :
    Completed q₀ keys ks q ∧ Steps (stepUnder o) (q₀.beginCall (.analyzeAll keys)) ks q ∧
      q₀.Served o := by
  have hq₁ : q₁ = q₀.beginCall (.analyzeAll keys) := by
    cases step_move hcall with
    | call => rfl
  subst hq₁
  have hvalid := valid_of_steps (steps_of_stepUnder h) (valid_fresh capacity workers hknown)
  exact ⟨⟨hvalid, steps_of_stepUnder hrun, huncalled, hfinished⟩, hrun,
    served_of_steps h (served_of_idle (held_fresh capacity workers known))⟩

/-- What a call that was given up cannot do to later ones. The queue was new with the findings
`known`, the steps `before` led to the call's end, and `q₁` is the queue after it. -/
structure Isolated (capacity workers : Nat) (known : Findings) (before : List Label)
    (q₁ : Queue) : Prop where
  /-- An item that was put before is not put again, not submitted and not judged. -/
  silent : ∀ {ls q}, Steps step q₁ ls q → ∀ item ∈ (fresh capacity workers known).puts before,
    item ∉ q₁.puts ls ∧ (∀ p, .submit item p ∉ q₁.queries ls) ∧
      ∀ x ∈ q₁.entries ls, x.item = item → x.finding? = none
  /-- Submissions and findings come from these queries and entries alone. -/
  told : ∀ {ls q}, Steps step q₁ ls q →
    q.submissions = q₁.submissions ++ (q₁.queries ls).filterMap Query.package? ∧
      q.findings = q₁.findings.recordAll ((q₁.entries ls).filterMap Entry.finding?)
  /-- An item that is put afterwards and let go was given up by another call, later than it was
  put and in its own epoch. -/
  spared : ∀ {ls q l q' item s}, Steps step q₁ ls q → q.step l = some q' →
    q.event? l = some (.ended (.dropped item s)) → item ∈ q₁.puts ls →
    ∃ as bs m, ls = as ++ .timeout :: bs ∧ Steps step q₁ as m ∧ item ∈ q₁.puts as ∧
      m.epoch = item.epoch ∧ m.step .timeout = some m.cancel
  /-- A later call that ends well does what it does on a new queue with the same findings. The
  items that other callers have put in the meantime come first, with their own findings. -/
  same : ∀ {o ls q q₂ q₃ ks keys}, Steps (stepUnder o) (fresh capacity workers known)
      (before ++ .timeout :: ls) q →
    q.step (.call (.analyzeAll keys)) = some q₂ → Steps (stepUnder o) q₂ ks q₃ →
    (∀ l ∈ ks, ∀ c, l ≠ .call c) → q₃.caller = .returned .finished →
    ∀ {capacity' workers' r₁ r js},
      (fresh capacity' workers' q.findings).step (.call (.analyzeAll keys)) = some r₁ →
      Steps (stepUnder o) r₁ js r → (∀ l ∈ js, ∀ c, l ≠ .call c) →
      r.caller = .returned .finished →
      q₃.submissions =
          q.submissions ++ (q.channel.filterMap (·.package? q.epoch) ++ r.submissions) ∧
        (∀ y, y ∈ q₃.findings.snapshot ↔ y ∈ r.findings.snapshot ∨
          (q.findings.contains y.key = false ∧ y.key ∈ q.unfinished.map Item.key ∧
            o.finding? y.key = some y)) ∧
        (q.unfinished = [] → q₃.submissions = q.submissions ++ r.submissions ∧
          q₃.findings = r.findings)
  /-- Only callers that put an item without waiting for it leave items of their epoch. -/
  left : ∀ {ls q}, Steps step q₁ ls q → (∀ key, .call (.enqueue key) ∉ ls) → ¬ q.caller.Awaits →
    q.unfinished = []
  /-- A later call that waits goes on until it has ended well, in finitely many steps, even if
  nothing about items of older epochs is ever answered. -/
  unblocked : ∀ {ls q}, Steps step q₁ ls q → q.caller.Awaits →
    ∃ bound, ∀ ks q', Steps stepLive q ks q' → ks.length ≤ bound ∧
      (q'.caller = .returned .finished ∨ ∃ l q'', q'.stepLive l = some q'')

/-- Two calls that end well, one on a new queue with the findings of the other, agree. -/
theorem Completed.agrees {o : Oracle} {q₀ r : Queue} {keys : List String} {js : List Label}
    {capacity workers : Nat} (h : Completed q₀ keys ls q)
    (hrun : Steps (stepUnder o) (q₀.beginCall (.analyzeAll keys)) ls q) (hserved : q₀.Served o)
    (h' : Completed (fresh capacity workers q₀.findings) keys js r)
    (hrun' : Steps (stepUnder o)
      ((fresh capacity workers q₀.findings).beginCall (.analyzeAll keys)) js r) :
    q.submissions =
        q₀.submissions ++ (q₀.channel.filterMap (·.package? q₀.epoch) ++ r.submissions) ∧
      ∀ y, y ∈ q.findings.snapshot ↔ y ∈ r.findings.snapshot ∨
        (q₀.findings.contains y.key = false ∧ y.key ∈ q₀.unfinished.map Item.key ∧
          o.finding? y.key = some y) := by
  have hheld := held_fresh capacity workers q₀.findings
  have hunfinished : (fresh capacity workers q₀.findings).unfinished = [] := by
    rw [unfinished, hheld]
    rfl
  constructor
  · rw [h.submissions, h'.submissions]
    rfl
  · intro y
    have hfresh := h'.mem_findings hrun' (served_of_idle hheld) (y := y)
    rw [hunfinished, List.map_nil, List.nil_append] at hfresh
    rw [h.mem_findings hrun hserved, hfresh, List.mem_append]
    -- Both sides list what was known, what the keys add, and what was left over adds.
    show _ ↔ (y ∈ q₀.findings.snapshot ∨ q₀.findings.contains y.key = false ∧ _) ∨ _
    tauto

/-- **A scan that was given up leaves nothing behind.** Let a queue of any size have any history
of calls, one at a time, and let a call give up. Then nothing of the items put until then is
submitted or recorded afterwards, nothing that is put later suffers for it, later calls come to
what they would come to on a new queue, and none of them has to wait for an old item. -/
theorem cancellation_isolates {capacity workers : Nat} {known : Findings}
    (hknown : known.IsSorted) {before : List Label} {q₀ q₁ : Queue}
    (hbefore : Steps step (fresh capacity workers known) before q₀)
    (htimeout : q₀.step .timeout = some q₁) (hcancelled : q₁.caller = .returned .cancelled) :
    Isolated capacity workers known before q₁ := by
  have hfresh := valid_fresh capacity workers hknown
  have hvalid₀ := valid_of_steps hbefore hfresh
  have hsteps₁ := hbefore.tail htimeout
  have hvalid₁ := valid_of_steps hsteps₁ hfresh
  have hepoch : q₀.epoch < q₁.epoch := by
    cases step_move htimeout with
    | abandon => cases hcancelled
    | cancel => exact Nat.lt_succ_self _
  have hstaffed := staffed_of_steps hsteps₁ (staffed_fresh capacity workers known)
  refine ⟨fun hsteps item hitem => ?_, fun hsteps => ?_, fun hsteps hstep hdropped hitem => ?_,
    ?_, fun hsteps hls hcaller => ?_, ?_⟩
  · have hstale : item.epoch < q₁.epoch :=
      lt_of_le_of_lt (epoch_of_puts hbefore hfresh hitem).2 hepoch
    refine ⟨fun hagain => ?_, silent_of_stale hsteps hvalid₁ hstale⟩
    have hlater := (epoch_of_puts hsteps hvalid₁ hagain).1
    omega
  · have heffect := effect_of_steps hsteps
    exact ⟨heffect.submissions, heffect.findings⟩
  · exact exists_cancel_of_dropped hsteps hvalid₁ hitem hstep hdropped
  · intro o ls q q₂ q₃ ks keys hhistory hcall hrun huncalled hfinished capacity' workers' r₁ r js
      hcall' hrun' huncalled' hfinished'
    obtain ⟨h, hrun, hserved⟩ :=
      completed_of_steps hknown hhistory hcall hrun huncalled hfinished
    obtain ⟨h', hrun', -⟩ :=
      completed_of_steps h.valid.isSorted .refl hcall' hrun' huncalled' hfinished'
    obtain ⟨hsubmissions, hfindings⟩ := h.agrees hrun hserved h' hrun'
    refine ⟨hsubmissions, hfindings, fun hnone => ⟨?_, ?_⟩⟩
    · have hwaiting : q.channel.filterMap (·.package? q.epoch) = [] := by
        refine List.filterMap_eq_nil_iff.mpr fun item hitem => if_neg ?_
        simpa using List.filter_eq_nil_iff.mp hnone item (List.mem_append_left _ hitem)
      rw [hsubmissions, hwaiting, List.nil_append]
    · refine Findings.ext_of_isSorted h.valid_end.isSorted h'.valid_end.isSorted fun y => ?_
      rw [hfindings, hnone]
      simp
  · have hfirst : (∀ key, q₁.caller ≠ .enqueueing key) ∧ q₁.unfinished = [] := by
      cases step_move htimeout with
      | abandon => cases hcancelled
      | cancel => exact ⟨nofun, unfinished_of_valid_cancel hvalid₀⟩
    exact (unfinished_of_steps hsteps hvalid₁ hfirst.1 (.inr hfirst.2) hls).2.resolve_left hcaller
  · intro ls q hsteps hawaits
    refine ⟨q.work, fun ks q' hks => ?_⟩
    exact drains (staffed_of_steps hsteps hstaffed) (valid_of_steps hsteps hvalid₁) hawaits hks

/-- A worker still holds an item when the time is up. -/
theorem cancellation_isolates_givenUp : ∃ q₀ q₁,
    Steps step (fresh 0 0 .empty) givenUp.dropLast q₀ ∧ q₀.step .timeout = some q₁ ∧
      q₁.caller = .returned .cancelled ∧ q₁.held ≠ [] ∧
      Isolated 0 0 .empty givenUp.dropLast q₁ := by
  have hrun : (do
      let q₀ ← givenUp.dropLast.foldlM step (fresh 0 0 .empty)
      let q₁ ← q₀.step .timeout
      return (q₁.caller = .returned .cancelled ∧ q₁.held ≠ [] : Bool)) = some true := by
    decide +kernel
  simp only [Option.bind_eq_bind, Option.bind_eq_some_iff, Option.pure_def, Option.some.injEq,
    decide_eq_true_eq] at hrun
  obtain ⟨q₀, hbefore, q₁, htimeout, hcancelled, hheld⟩ := hrun
  have hbefore := steps_iff_foldlM.mpr hbefore
  exact ⟨q₀, q₁, hbefore, htimeout, hcancelled, hheld,
    cancellation_isolates Findings.isSorted_empty hbefore htimeout hcancelled⟩

end Queue

end PackageGate
