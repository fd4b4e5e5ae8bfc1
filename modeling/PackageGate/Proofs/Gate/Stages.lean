import PackageGate.Proofs.Gate.Decision
import PackageGate.Proofs.Queue.Cancellation
import PackageGate.Proofs.Walk.Cascade
import PackageGate.Proofs.Explorer.History

/-!
# The stages of a scan

In each of its stages the gate waits for one thing only: an answer about the newest version,
the walk of the root, the queue's call, or the exit of the workers. The thing that it waits for
is there, so the gate is never left waiting for something that cannot happen.

- `Queue.Tended`: a queue in which nobody leaves an item behind without waiting for it.
- `Gate.Staged`, `Gate.staged_of_steps`: what the gate waits for is there, in all stages.
- `Gate.Staged.exists_stop`, `Gate.Staged.stops`: stopping the queue takes the gate and the
  workers alone, and comes to an end.
-/

namespace PackageGate

/-! ## The queue between its calls -/

namespace Queue

variable {q q' : Queue} {l : Label}

/-- Only a call changes whether the channel is open. -/
theorem Move.isOpen_eq (h : Move q l q') (hcall : ∀ c, l ≠ .call c) : q'.isOpen = q.isOpen := by
  cases h with
  | call => exact absurd rfl (hcall _)
  | @reported w item p id reply =>
    rcases judge_eq q item p reply with hj | ⟨_, hj⟩ <;> rw [hj] <;> rfl
  | _ => rfl

/-- The caller may ask for something. -/
structure Callable (q : Queue) : Prop where
  isOpen : q.isOpen = true
  caller : q.caller = .idle ∨ ∃ e, q.caller = .returned e

theorem Callable.analyzeAll (h : q.Callable) (keys : List String) :
    (q.beginCall (.analyzeAll keys)).isOpen = true ∧
      (q.beginCall (.analyzeAll keys)).caller.Awaits := by
  cases keys with
  | nil => exact ⟨h.isOpen, .inr rfl⟩
  | cons key keys => exact ⟨h.isOpen, .inl ⟨_, rfl⟩⟩

/-- A caller that wants nothing stays where it is. -/
theorem Callable.move (h : q.Callable) (hmove : Move q l q') (hcall : ∀ c, l ≠ .call c)
    (htimeout : l ≠ .timeout) : q'.Callable := by
  have hoffer : l ≠ .offer := by
    rintro rfl
    cases hmove with
    | offer _ hnext => rcases h.caller with hc | ⟨e, hc⟩ <;> simp [hc, Caller.offer?] at hnext
  refine ⟨(hmove.isOpen_eq hcall).trans h.isOpen, ?_⟩
  rcases hmove.caller_eq hcall htimeout hoffer with hc | ⟨-, hc⟩
  · rw [hc]
    exact h.caller
  · exact .inr ⟨_, hc⟩

/-- The queue was new once, and whoever has put keys into it since has waited for them. -/
def Tended (q : Queue) : Prop :=
  ∃ capacity workers ks, Steps step (fresh capacity workers .empty) ks q ∧
    ∀ key, .call (.enqueue key) ∉ ks

theorem tended_ofSizes (capacity workers : Nat) : (ofSizes capacity workers).Tended :=
  ⟨capacity, workers, [], .refl, by simp⟩

/-- A queue stays tended as long as nobody puts a key without waiting. -/
theorem Tended.step (h : q.Tended) (hl : ∀ key, l ≠ .call (.enqueue key))
    (hstep : q.step l = some q') : q'.Tended := by
  obtain ⟨capacity, workers, ks, hks, hnone⟩ := h
  refine ⟨capacity, workers, ks ++ [l], .tail hks hstep, fun key hkey => ?_⟩
  rcases List.mem_append.mp hkey with hkey | hkey
  · exact hnone key hkey
  · exact hl key (List.mem_singleton.mp hkey).symm

theorem Tended.beginCall (h : q.Tended) (hq : q.Callable) {c : Call}
    (hc : ∀ key, c ≠ .enqueue key) : (q.beginCall c).Tended := by
  refine h.step (l := .call c) ?_ ?_
  · rintro key hkey
    cases hkey
    exact hc key rfl
  · rcases hq.caller with hcaller | ⟨e, hcaller⟩ <;> simp [Queue.step, hcaller, hq.isOpen]

theorem Tended.valid (h : q.Tended) : q.Valid := by
  obtain ⟨capacity, workers, ks, hks, -⟩ := h
  exact valid_of_steps hks (valid_fresh capacity workers Findings.isSorted_empty)

/-- Where nobody waits, everything that is still in the queue belongs to an older epoch. -/
theorem Tended.outdated (h : q.Tended) (hcaller : ¬q.caller.Awaits) :
    ∀ item ∈ q.channel ++ q.held, item.epoch < q.epoch := by
  have hvalid := h.valid
  obtain ⟨capacity, workers, ks, hks, hnone⟩ := h
  have hfresh : (fresh capacity workers .empty).unfinished = [] := by
    rw [unfinished, held_fresh]
    rfl
  have hleft := (unfinished_of_steps hks (valid_fresh capacity workers Findings.isSorted_empty)
    (by rintro key ⟨⟩) (.inr hfresh) hnone).2.resolve_left hcaller
  intro item hitem
  have hne : item.epoch ≠ q.epoch := by
    simpa using List.filter_eq_nil_iff.mp hleft item hitem
  exact lt_of_le_of_ne (hvalid.epoch_le item hitem) hne

end Queue

/-! ## What the gate waits for -/

namespace Gate

variable {g g' : Gate} {l : Label} {ks ls : List Label} {s : Scan}
  {r : Except Failure (List Session)}

/-- What the queue is asked to do in a phase. -/
def Phase.Engages (q : Queue) : Phase → Prop
  | .resolving _ | .looking _ | .walking _ _ _ => q.Callable
  | .analyzing _ _ _ => q.isOpen = true ∧ (q.caller.Awaits ∨ q.caller = .returned .finished)
  | .closing _ => Closing q
  | .confirming _ _ | .installing _ | .ended _ => True

/-- What the gate waits for in its phase is there. -/
structure Staged (g : Gate) : Prop where
  tended : g.queue.Tended
  engaged : g.phase.Engages g.queue
  walking : ∀ s p i, g.phase = .walking s p i → ∃ w, g.explorer.walks[i]? = some w ∧ w.Standing

/-- The steps of the tasks leave every walk standing. -/
theorem standing_of_step {e e' : Explorer} {l : Explorer.Label} {i : Nat}
    (hfree : isFreeMove l = true) (hstep : e.step l = some e')
    (h : ∃ w, e.walks[i]? = some w ∧ w.Standing) : ∃ w, e'.walks[i]? = some w ∧ w.Standing := by
  obtain ⟨v, hv, hstanding⟩ := h
  cases (Explorer.step_move hstep).seen i with
  | aside hwalks => exact ⟨v, hwalks.trans hv, hstanding⟩
  | @step k w w' hl hw hk hw' =>
    obtain rfl : w = v := Option.some.inj (hw.symm.trans hv)
    refine ⟨w', hw', hstanding.step ?_ hk⟩
    rintro rfl
    rw [hl] at hfree
    cases hfree
  | @remember t p m w u w' hl _ _ hw hu hk hw' =>
    -- An answer from the memo is a request and its answer in one step.
    obtain rfl : w = v := Option.some.inj (hw.symm.trans hv)
    have hsent : u.Standing := hstanding.step (l := .request t) (by simp) hu
    exact ⟨w', hw', hsent.step (l := .answer t (.ok m)) (by simp) hk⟩

/-- A step of the queue by itself leaves it with what it is asked to do. -/
theorem Phase.Engages.step {p : Phase} {q q' : Queue} {l : Queue.Label} (h : p.Engages q)
    (hfree : isFreeStep l = true) (hstep : q.step l = some q') : p.Engages q' := by
  have hmove := Queue.step_move hstep
  obtain ⟨hcall, htimeout⟩ := free_of_isFreeStep hfree
  cases p with
  | resolving | looking | walking => exact Queue.Callable.move h hmove hcall htimeout
  | analyzing =>
    exact ⟨(hmove.isOpen_eq hcall).trans h.1, hmove.awaits hcall htimeout h.2⟩
  | closing => exact Closing.move h hfree hstep
  | confirming | installing | ended => trivial

theorem Staged.of_decided (htended : g.queue.Tended) (h : g.phase.isDecided = true) :
    Staged g := by
  refine ⟨htended, ?_, ?_⟩
  · cases hphase : g.phase with
    | confirming | installing | ended => trivial
    | resolving | looking | walking | analyzing | closing => simp [hphase, Phase.isDecided] at h
  · rintro s p i hphase
    simp [hphase, Phase.isDecided] at h

/-- The end of a scan finds the queue ready for the next call. -/
theorem Staged.of_settle (htended : g.queue.Tended) (hcallable : g.queue.Callable) (s : Scan)
    (result : Except Failure Session) : Staged (g.settle s result) := by
  obtain ⟨ns, history, ⟨root, rest, -, h⟩ | ⟨scanned, h, -⟩⟩ := settle_cases g s result
  · rw [h]
    exact ⟨htended, hcallable, by rintro _ _ _ ⟨⟩⟩
  · rw [h]
    refine ⟨htended.beginCall hcallable (c := .shutdown) ?_, ⟨rfl, .inl rfl⟩, ?_⟩
    · rintro key ⟨⟩
    · rintro s p i ⟨⟩

/-- Every move leads to a stage in which there is what the gate waits for. -/
theorem Staged.move (h : Staged g) (hmove : Move g l g') : Staged g' := by
  have hengaged := h.engaged
  cases hmove with
  | explore hfree hx =>
    exact ⟨h.tended, hengaged, fun s p i hp => standing_of_step hfree hx (h.walking s p i hp)⟩
  | analyze hfree hq =>
    refine ⟨h.tended.step (fun key => (free_of_isFreeStep hfree).1 _) hq, ?_, h.walking⟩
    exact hengaged.step hfree hq
  | tick => exact ⟨h.tended, hengaged, h.walking⟩
  | lookUp hp =>
    rw [hp] at hengaged
    exact ⟨h.tended, hengaged, by rintro _ _ _ ⟨⟩⟩
  | @walk _ s p memo hp =>
    have hcallable : g.queue.Callable := by
      rcases hp with ⟨hp, -⟩ | ⟨hp, -⟩ <;> rw [hp] at hengaged <;> exact hengaged
    refine ⟨h.tended, hcallable, ?_⟩
    intro s' p' i hphase
    cases hphase
    exact ⟨_, List.getElem?_concat_length, .ofRoot p⟩
  | @arrive s p i w t hp =>
    rw [hp] at hengaged
    obtain ⟨hopen, hawaits⟩ := Queue.Callable.analyzeAll hengaged (w.settle t).flatten
    refine ⟨h.tended.beginCall hengaged (c := .analyzeAll _) ?_, ⟨hopen, .inl hawaits⟩, ?_⟩
    · rintro key ⟨⟩
    · rintro s p i ⟨⟩
  | @complete s tree keys hp hreturned =>
    rw [hp] at hengaged
    exact .of_settle h.tended ⟨hengaged.1, .inr ⟨_, hreturned⟩⟩ _ _
  | @fail _ s x q e _ hscan hq =>
    rcases hq with ⟨rfl, hnot⟩ | ⟨⟨tree, keys, hp⟩, hq⟩
    · -- The queue has not been called for this scan, so the caller is free.
      refine of_settle (g := { g with explorer := x }) h.tended ?_ _ _
      cases hphase : g.phase with
      | resolving | looking | walking =>
        rw [hphase] at hengaged
        exact hengaged
      | analyzing s' tree keys =>
        rw [hphase] at hscan
        obtain rfl : s' = s := Option.some.inj hscan
        exact absurd hphase (hnot tree keys)
      | closing | confirming | installing | ended => simp [hphase, Phase.scan?] at hscan
    · -- The call has been given up, and the channel is still open.
      rw [hp] at hengaged
      have hmove := Queue.step_move hq
      refine of_settle (g := { g with explorer := x, queue := q })
        (h.tended.step (l := .timeout) (by simp) hq) ?_ _ _
      refine ⟨(hmove.isOpen_eq (by simp)).trans hengaged.1, .inr ?_⟩
      cases hmove with
      | abandon => exact ⟨_, rfl⟩
      | cancel => exact ⟨_, rfl⟩
  | decide =>
    exact .of_decided ((decide_beside g _).queue ▸ h.tended) (decide_isDecided g _)
  | follow =>
    exact .of_decided ((follow_beside g _ _ _).queue ▸ h.tended) (follow_isDecided g _ _ _)
  | install => exact .of_decided h.tended rfl

/-! ## Stopping the queue -/

/-- Whether a step is one that stopping the queue takes. -/
def Label.isStopping : Label → Bool
  | .resume | .analyze .closed => true
  | .analyze l => l.isOwn
  | _ => false

theorem isStopping_of_isOwn {k : Queue.Label} (h : k.isOwn = true) :
    (Label.analyze k).isStopping = true ∧ isFreeStep k = true := by
  cases k with
  | listen | take | leave | abort => exact ⟨rfl, rfl⟩
  | call | offer | settle | timeout | closed | submitted | reported => cases h

/-- Stopping the queue takes the gate and the workers alone: each of them lets go of what it
has, takes what is left, or exits. -/
theorem Staged.exists_stop (h : Staged g) (hphase : g.phase = .closing r) :
    ∃ l, l.isStopping = true ∧ (g.step l).isSome := by
  have hengaged := h.engaged
  rw [hphase] at hengaged
  obtain ⟨hopen, hcaller | hrest⟩ := hengaged
  · have hown : ∀ {k : Queue.Label}, k.isOwn = true → (g.queue.step k).isSome →
        ∃ l : Label, l.isStopping = true ∧ (g.step l).isSome := by
      intro k hk hstep
      obtain ⟨hstopping, hfree⟩ := isStopping_of_isOwn hk
      exact ⟨.analyze k, hstopping, by simp only [step, hfree, if_true, Option.isSome_map, hstep]⟩
    by_cases hexited : ∀ t ∈ g.queue.workers, t = .exited
    · refine ⟨.analyze .closed, rfl, ?_⟩
      have hall : g.queue.workers.all (· = .exited) = true :=
        List.all_eq_true.mpr fun t ht => decide_eq_true (hexited t ht)
      simp only [step, isFreeStep, if_true, Option.isSome_map, Queue.step, hcaller, hall,
        Option.isSome_some]
    · by_cases hheld : g.queue.held = []
      · have hworker : ∃ t ∈ g.queue.workers, t ≠ .exited := by simpa using hexited
        obtain ⟨k, hk, hstep⟩ := Queue.exists_turn hworker hheld (.inr hopen)
        exact hown hk hstep
      · -- What is still in work is outdated, and its worker sees that.
        obtain ⟨item, hitem⟩ := List.exists_mem_of_ne_nil _ hheld
        obtain ⟨t, ht, hbusy⟩ := List.mem_filterMap.mp hitem
        obtain ⟨w, hw⟩ := List.mem_iff_getElem?.mp ht
        have hlt := h.tended.outdated (by simp [hcaller, Queue.Caller.Awaits]) item
          (List.mem_append_right _ hitem)
        exact hown rfl (Queue.isSome_abort hw hbusy (Nat.ne_of_lt hlt))
  · exact ⟨.resume, rfl, by simp [step, hphase, Queue.ending?, hrest.returned]⟩

/-- Stopping the queue is done after no more steps than there is work for caller and workers. -/
theorem Staged.stops (h : Staged g) (hphase : g.phase = .closing r) (hks : Steps step g ks g')
    (hstopping : ∀ l ∈ ks, l.isStopping = true) :
    (g'.phase = .closing r ∧ ks.length + g'.queue.work ≤ g.queue.work) ∨
      g'.phase.isDecided = true ∧ g'.queue.AtRest ∧ ks.length ≤ g.queue.work + 1 := by
  induction hks with
  | refl => exact .inl ⟨hphase, by simp⟩
  | @tail ks m l u hm hstep ih =>
    have ih := ih fun k hk => hstopping k (List.mem_append_left _ hk)
    have hl := hstopping l (List.mem_append_right _ List.mem_cons_self)
    have hstaged : Staged m := hm.invariant (fun hn hstep => hn.move (step_move hstep)) h
    rw [List.length_append, List.length_singleton]
    cases step_move hstep with
    | @analyze k q hfree hq =>
      -- A step of the queue uses up some work, and a queue at rest takes none.
      obtain ⟨hcall, htimeout⟩ := free_of_isFreeStep hfree
      rcases ih with ⟨hp, hle⟩ | ⟨-, hrest, -⟩
      · have hlt := (Queue.step_move hq).work_lt hcall htimeout
        refine .inl ⟨hp, ?_⟩
        show ks.length + 1 + q.work ≤ g.queue.work
        omega
      · rw [hrest.step_eq_none] at hq
        cases hq
    | @decide scanned hp hreturned =>
      rcases ih with ⟨-, hle⟩ | ⟨hdecided, -⟩
      · -- The call to stop has returned, so all workers have exited.
        have hengaged := hstaged.engaged
        rw [hp] at hengaged
        have hrest : m.queue.AtRest := by
          rcases hengaged.2 with hc | hrest
          · rw [hreturned] at hc
            cases hc
          · exact hrest
        have hqueue := (decide_beside m scanned).queue
        exact .inr ⟨decide_isDecided m scanned, hqueue ▸ hrest, by omega⟩
      · rw [hp] at hdecided
        cases hdecided
    | complete hp => rcases ih with ⟨hp', -⟩ | ⟨hdecided, -⟩ <;> simp_all [Phase.isDecided]
    | fail hgives => cases l <;> simp_all [Label.givesUp, Label.isStopping]
    | explore | tick | lookUp | arrive | follow | install => cases hl
    | walk hp => rcases hp with ⟨-, rfl⟩ | ⟨-, _, rfl⟩ <;> cases hl

/-! ## Runs -/

variable {request : Request} {settings : Settings} {memo : Option Memo}

/-- A request that names no roots is decided at once. -/
theorem start_isDecided (h : ∀ root rest, request.command.rootPackages ≠ .ok (root :: rest)) :
    (start request settings memo).phase.isDecided = true := by
  unfold start
  cases hroots : request.command.rootPackages with
  | error why => rfl
  | ok roots =>
    cases roots with
    | nil => exact handOver_isDecided _ _
    | cons root rest => exact absurd hroots (h root rest)

theorem staged_start (request : Request) (settings : Settings) (memo : Option Memo) :
    Staged (start request settings memo) := by
  have htended : (start request settings memo).queue.Tended := by
    rw [start_queue]
    exact Queue.tended_ofSizes _ _
  by_cases hroots : ∃ root rest, request.command.rootPackages = .ok (root :: rest)
  · obtain ⟨root, rest, hroots⟩ := hroots
    refine ⟨htended, ?_, ?_⟩
    · rw [start_of_roots hroots]
      exact ⟨rfl, .inl rfl⟩
    · rw [start_of_roots hroots]
      rintro s p i ⟨⟩
  · push Not at hroots
    exact .of_decided htended (start_isDecided hroots)

/-- In every state of a run, what the gate waits for is there. -/
theorem staged_of_steps {g : Gate} (h : Steps step (start request settings memo) ls g) :
    Staged g :=
  h.invariant (fun hm hstep => hm.move (step_move hstep)) (staged_start request settings memo)

end Gate

end PackageGate
