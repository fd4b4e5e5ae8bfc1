import PackageGate.Proofs.Queue.Cancellation

/-!
# A queue that serves one scan after another

Between two scans the queue may still be busy with what a scan left behind that was given up.
None of this touches the findings. With a service that answers always alike, what a scan adds
to them is known in advance.

- `Queue.Reliable`: all that the queue knows comes from the service.
- `Queue.Quiet`: no scan is going on; `Queue.Quiet.move`: the findings stay as they are.
- `Queue.Analysis`: a scan is going on; `Queue.Analysis.mem_findings`: what it comes to, and
  `Queue.Analysis.cancelled`: what is left of it when its time has passed.
-/

namespace PackageGate

namespace Queue

variable {o : Oracle} {q₀ q q' : Queue} {keys : List String} {l : Label} {ls : List Label}
  {x : Entry} {y : Finding}

/-! ## What the queue knows -/

/-- The queue is in order, and everything that it has found the service says, too. -/
structure Reliable (o : Oracle) (q : Queue) : Prop where
  valid : q.Valid
  served : q.Served o
  sound : ∀ y ∈ q.findings.snapshot, o.finding? y.key = some y

/-- A finding comes from a verdict that was in time. -/
theorem Entry.right_of_finding? (hfits : (Event.ended x).Fits q.epoch)
    (hy : x.finding? = some y) : x.Right := by
  cases x with
  | judged item p id reply => exact hfits.2
  | rejected | refused | late | dropped => cases hy

/-- A step adds no finding but the verdict that it tells. -/
theorem Move.mem_findings (h : Move q l q') (hq : q.Valid) (hy : y ∈ q'.findings.snapshot) :
    y ∈ q.findings.snapshot ∨ ∃ x, q.event? l = some (.ended x) ∧ x.finding? = some y := by
  rw [h.effect.findings, Findings.mem_recordAll hq.isSorted] at hy
  refine hy.imp_right ?_
  rintro ⟨-, hfind⟩
  obtain ⟨x, hx, hxy⟩ := List.mem_filterMap.mp (List.mem_of_find?_eq_some hfind)
  obtain ⟨e, he, hx⟩ := List.mem_flatMap.mp hx
  cases e with
  | ended z =>
    obtain rfl : x = z := by simpa [Event.entries] using hx
    exact ⟨x, Option.mem_toList.mp he, hxy⟩
  | put | asked => cases hx

/-- A step that obeys the oracle finds nothing that the oracle does not say. -/
theorem Reliable.step (h : Reliable o q) (hstep : q.stepUnder o l = some q') :
    Reliable o q' := by
  obtain ⟨hobeys, hstep⟩ := step_of_stepUnder hstep
  have hmove := step_move hstep
  refine ⟨hmove.valid h.valid, hmove.served hobeys h.served, fun y hy => ?_⟩
  rcases hmove.mem_findings h.valid hy with hold | ⟨x, hx, hxy⟩
  · exact h.sound y hold
  · have hright := Entry.right_of_finding? (hmove.fits h.valid hx) hxy
    rw [Entry.finding?_eq hright (hmove.told hobeys h.served hx)] at hxy
    rw [Oracle.finding?_key hxy]
    exact hxy

theorem Reliable.steps (h : Reliable o q) (hsteps : Steps (stepUnder o) q ls q') :
    Reliable o q' :=
  hsteps.invariant (fun hm hstep => hm.step hstep) h

theorem Reliable.beginCall (h : Reliable o q) (c : Call) : Reliable o (q.beginCall c) := by
  refine ⟨valid_beginCall h.valid c, ?_, ?_⟩
  · cases c with
    | analyzeAll keys => cases keys <;> exact h.served
    | enqueue | drain | shutdown => exact h.served
  · cases c with
    | analyzeAll keys => cases keys <;> exact h.sound
    | enqueue | drain | shutdown => exact h.sound

theorem reliable_ofSizes (o : Oracle) (capacity workers : Nat) :
    Reliable o (ofSizes capacity workers) where
  valid := valid_fresh capacity workers Findings.isSorted_empty
  served := served_of_idle (held_fresh capacity workers .empty)
  sound := nofun

/-! ## Between two scans -/

/-- Nobody wants anything of the queue but that it stops, and what it is still busy with was
given up. -/
structure Quiet (q : Queue) : Prop where
  unfinished : q.unfinished = []
  unoffered : q.caller.offer? = none

theorem quiet_ofSizes (capacity workers : Nat) : Quiet (ofSizes capacity workers) where
  unfinished := by
    have hheld : (ofSizes capacity workers).held = [] := held_fresh capacity workers .empty
    rw [Queue.unfinished, hheld]
    rfl
  unoffered := rfl

theorem Quiet.shutdown (h : Quiet q) : Quiet (q.beginCall .shutdown) := ⟨h.unfinished, rfl⟩

/-- What the queue still does between two scans leaves the findings alone. -/
theorem Quiet.move (h : Quiet q) (hmove : Move q l q') (hq : q.Valid)
    (hcall : ∀ c, l ≠ .call c) (htimeout : l ≠ .timeout) :
    Quiet q' ∧ ∀ y, y ∈ q'.findings.snapshot ↔ y ∈ q.findings.snapshot := by
  have hoffer : l ≠ .offer := by
    rintro rfl
    cases hmove with
    | offer _ hnext =>
      rw [h.unoffered] at hnext
      cases hnext
  have hputs := puts_of_ne_offer q hoffer
  have heffect := hmove.effect
  have hepoch := hmove.epoch_eq htimeout
  refine ⟨⟨heffect.unfinished_eq_nil hputs hepoch h.unfinished, ?_⟩, fun y => ⟨fun hy => ?_, ?_⟩⟩
  · rcases hmove.caller_eq hcall htimeout hoffer with hc | ⟨-, hc⟩
    · rw [hc]
      exact h.unoffered
    · rw [hc]
      rfl
  · refine (hmove.mem_findings hq hy).resolve_right ?_
    rintro ⟨x, hx, hxy⟩
    -- A verdict in time would be on an item that is not finished.
    have hfits := hmove.fits hq hx
    have hcurrent : x.item.epoch = q.epoch := by
      cases x with
      | judged item p id reply => exact hfits.1
      | rejected | refused | late | dropped => cases hxy
    have hmem : x.item ∈ (q.channel : Multiset Item) + q.held := by
      have hitems := heffect.items
      rw [hputs, Multiset.coe_nil, add_zero, hx] at hitems
      rw [hitems]
      exact Multiset.mem_add.mpr (.inr (Multiset.mem_coe.mpr (List.mem_singleton_self _)))
    have hstale := List.filter_eq_nil_iff.mp h.unfinished x.item (by simpa using hmem)
    exact hstale (by simpa using hcurrent)
  · exact fun hy => hmove.findings_mono.subset hy

/-! ## A scan -/

/-- The call that has `keys` analyzed has begun at `q₀`, and nobody has interfered with it. -/
structure Analysis (o : Oracle) (keys : List String) (q₀ q : Queue) : Prop where
  reliable : Reliable o q₀
  unfinished : q₀.unfinished = []
  run : ∃ ls, Steps (stepUnder o) (q₀.beginCall (.analyzeAll keys)) ls q ∧
    (∀ l ∈ ls, ∀ c, l ≠ .call c) ∧ ∀ l ∈ ls, l ≠ .timeout

/-- A call to a quiet queue begins an analysis. -/
theorem Analysis.begun (hq : Reliable o q) (hquiet : Quiet q) (keys : List String) :
    Analysis o keys q (q.beginCall (.analyzeAll keys)) :=
  ⟨hq, hquiet.unfinished, [], .refl, nofun, nofun⟩

/-- An analysis goes on as long as nothing else is asked for and time does not run out. -/
theorem Analysis.step (h : Analysis o keys q₀ q) (hstep : q.stepUnder o l = some q')
    (hcall : ∀ c, l ≠ .call c) (htimeout : l ≠ .timeout) : Analysis o keys q₀ q' := by
  obtain ⟨ls, hrun, huncalled, htimely⟩ := h.run
  refine ⟨h.reliable, h.unfinished, ls ++ [l], .tail hrun hstep, ?_, ?_⟩
  · intro k hk
    rcases List.mem_append.mp hk with hk | hk
    · exact huncalled k hk
    · rw [List.mem_singleton.mp hk]
      exact hcall
  · intro k hk
    rcases List.mem_append.mp hk with hk | hk
    · exact htimely k hk
    · rw [List.mem_singleton.mp hk]
      exact htimeout

theorem Analysis.feeding (h : Analysis o keys q₀ q) :
    Feeding q₀.epoch q₀.submissions keys q := by
  obtain ⟨ls, hrun, huncalled, htimely⟩ := h.run
  exact (feeding_of_steps h.reliable.valid (steps_of_stepUnder hrun) huncalled htimely).1

theorem Analysis.reliable_now (h : Analysis o keys q₀ q) : Reliable o q := by
  obtain ⟨ls, hrun, -, -⟩ := h.run
  exact (h.reliable.beginCall _).steps hrun

/-- A scan withdraws no finding. -/
theorem Analysis.findings_mono (h : Analysis o keys q₀ q) :
    ∀ y ∈ q₀.findings.snapshot, y ∈ q.findings.snapshot := by
  obtain ⟨ls, hrun, -, -⟩ := h.run
  intro y hy
  rw [((Effect.of_beginCall q₀ _).trans (effect_of_steps (steps_of_stepUnder hrun))).findings]
  exact (Findings.mem_recordAll h.reliable.valid.isSorted).mpr (.inl hy)

/-- A scan that has come to its end has found what the service says of the keys. -/
theorem Analysis.mem_findings (h : Analysis o keys q₀ q)
    (hfinished : q.caller = .returned .finished) : y ∈ q.findings.snapshot ↔
      y ∈ q₀.findings.snapshot ∨ (y.key ∈ keys ∧ o.finding? y.key = some y) := by
  obtain ⟨ls, hrun, huncalled, -⟩ := h.run
  have hcompleted : Completed q₀ keys ls q :=
    ⟨h.reliable.valid, steps_of_stepUnder hrun, huncalled, hfinished⟩
  rw [hcompleted.mem_findings hrun h.reliable.served, h.unfinished, List.map_nil, List.nil_append]
  constructor
  · exact Or.imp_right And.right
  · rintro (hold | ⟨hkey, hy⟩)
    · exact .inl hold
    · -- What is known of the key already is what the service says of it.
      by_cases hknown : q₀.findings.contains y.key = true
      · obtain ⟨z, hz, hzkey⟩ := Findings.contains_iff.mp hknown
        have hsound := h.reliable.sound z hz
        rw [hzkey, hy] at hsound
        rw [Option.some.inj hsound]
        exact .inl hz
      · exact .inr ⟨by simpa using hknown, hkey, hy⟩

/-- After a scan that has come to its end, nothing is left of it. -/
theorem Analysis.quiet (h : Analysis o keys q₀ q) (hfinished : q.caller = .returned .finished) :
    Quiet q := by
  rcases h.feeding.caller with ⟨_, hc⟩ | hc | ⟨-, hchannel, hheld⟩
  · rw [hfinished] at hc
    cases hc
  · rw [hfinished] at hc
    cases hc
  · refine ⟨?_, ?_⟩
    · rw [Queue.unfinished, hchannel, hheld]
      rfl
    · rw [hfinished]
      rfl

/-- A scan whose time has passed leaves nothing behind that will be finished. -/
theorem Analysis.cancelled (h : Analysis o keys q₀ q) (hstep : q.step .timeout = some q') :
    Quiet q' ∧ Reliable o q' ∧ q'.findings = q.findings := by
  have hreliable := h.reliable_now
  have hnow : Reliable o q' := by
    refine hreliable.step (l := .timeout) ?_
    rw [stepUnder, if_pos (show q.obeys o .timeout = true from rfl)]
    exact hstep
  cases step_move hstep with
  | cancel => exact ⟨⟨unfinished_of_valid_cancel hreliable.valid, rfl⟩, hnow, rfl⟩
  | abandon hc =>
    rcases h.feeding.caller with ⟨_, hc'⟩ | hc' | ⟨hc', -⟩ <;> rw [hc] at hc' <;> cases hc'

end Queue

end PackageGate
