import PackageGate.Proofs.Gate.Stages

/-!
# Virtual time

In virtual time the clock moves only where nothing can go on without the outside: no task, no
worker and no caller has anything left to do but to wait for answers. Nothing else holds the
clock back. Whether anything can go on is decided by trying the steps that could be possible.

- `Gate.Still`: nothing goes on but what the outside does; `Gate.still_iff`: it is decided by
  trying `Gate.candidates`.
- `Gate.stepVirtual`: the machine in virtual time. It knows of no deadline.
- `Gate.Staged.not_still_of_ready`: where the gate can go on by itself, something does.
- `Gate.Staged.proceeds_of_due`: where the time of a scan has run out, the scan goes on or ends.
- `Gate.steps_of_stepVirtual`: so the runs in virtual time are runs of the gate, whose clock stops
  at every deadline.
-/

namespace PackageGate

/-! ## Steps that could be possible -/

namespace Queue

variable {q q' : Queue} {l : Label}

/-- The steps of caller and workers that need no answer, for each worker that there is. -/
def candidates (q : Queue) : List Label :=
  [.offer, .settle, .closed] ++
    (List.range q.workers.length).flatMap fun w => [.listen w, .take w, .leave w, .abort w]

/-- Whether a step needs an answer of the service, or is not one of caller and workers alone. -/
def Label.isForeign : Label → Bool
  | .call _ | .timeout | .submitted _ _ | .reported _ _ => true
  | _ => false

theorem mem_candidates (h : q.step l = some q') (hl : l.isForeign = false) :
    l ∈ q.candidates := by
  have hworker : ∀ {w : Nat} {s : Worker}, q.workers[w]? = some s →
      ∀ {k : Label}, k ∈ [.listen w, .take w, .leave w, .abort w] → k ∈ q.candidates := by
    intro w s hw k hk
    have hrange : w ∈ List.range q.workers.length :=
      List.mem_range.mpr (List.getElem?_eq_some_iff.mp hw).1
    exact List.mem_append_right _ (List.mem_flatMap.mpr ⟨w, hrange, hk⟩)
  cases step_move h with
  | offer | settle | closed => exact List.mem_append_left _ (by simp)
  | listen hw | discard hw | reject hw | submit hw | leave hw | abort hw =>
    exact hworker hw (by simp)
  | call | abandon | cancel | submitted | unsubmitted | reported => cases hl

end Queue

namespace Walk

/-- A task that takes a step is there. -/
theorem exists_task {w w' : Walk} {l : Label} {t : Nat} (h : w.step l = some w')
    (hl : l = .start t ∨ l = .request t ∨ l = .join t ∨ l = .finish t ∨ l = .discard t) :
    ∃ u ∈ w.tasks, u.id = t := by
  cases htask : w.task? t with
  | some u => exact ⟨u, task?_eq_some htask⟩
  | none =>
    have hrun : w.running? t = none := by
      rw [running?, htask]
      rfl
    rcases hl with rfl | rfl | rfl | rfl | rfl <;> simp [step, hrun, htask] at h

end Walk

namespace Explorer

variable {e e' : Explorer} {l : Label}

/-- The steps of the tasks that need no answer, for each task that there is. -/
def candidates (e : Explorer) : List Label :=
  e.walks.zipIdx.flatMap fun (w, i) => w.tasks.flatMap fun u =>
    [.walk i (.start u.id), .walk i (.request u.id), .walk i (.join u.id), .walk i (.finish u.id),
      .walk i (.discard u.id), .recall i u.id]

/-- Whether a step brings an answer, or gives a walk up. -/
def Label.isForeign : Label → Bool
  | .walk _ (.answer _ _) | .walk _ .cancel => true
  | _ => false

theorem mem_candidates (h : e.step l = some e') (hl : l.isForeign = false) :
    l ∈ e.candidates := by
  have htask : ∀ {i t : Nat} {w w' : Walk} {k : Walk.Label}, e.walks[i]? = some w →
      w.step k = some w' →
      (k = .start t ∨ k = .request t ∨ k = .join t ∨ k = .finish t ∨ k = .discard t) →
      ∀ {j : Label}, j ∈ [Label.walk i (.start t), .walk i (.request t), .walk i (.join t),
        .walk i (.finish t), .walk i (.discard t), .recall i t] → j ∈ e.candidates := by
    intro i t w w' k hw hk ht j hj
    obtain ⟨u, hu, rfl⟩ := Walk.exists_task hk ht
    exact List.mem_flatMap.mpr ⟨(w, i), List.mem_zipIdx_iff_getElem?.mpr hw,
      List.mem_flatMap.mpr ⟨u, hu, hj⟩⟩
  cases step_move h with
  | start hw hk => exact htask hw hk (.inl rfl) (by simp)
  | request hw hk => exact htask hw hk (.inr (.inl rfl)) (by simp)
  | remember hw _ _ hk => exact htask hw hk (.inr (.inl rfl)) (by simp)
  | join hw hk => exact htask hw hk (.inr (.inr (.inl rfl))) (by simp)
  | finish hw hk => exact htask hw hk (.inr (.inr (.inr (.inl rfl)))) (by simp)
  | discard hw hk => exact htask hw hk (.inr (.inr (.inr (.inr rfl)))) (by simp)
  | answer | cancel => cases hl

end Explorer

namespace Gate

variable {g g' : Gate} {l : Label} {ls : List Label} {s : Scan} {r : Except Failure (List Session)}

/-- Whether a step is one that the outside has no part in: it brings no answer, and no time
passes with it. -/
def Label.isInner : Label → Bool
  | .resolve | .arrive | .resume | .expire => true
  | .explore l => !l.isForeign
  | .analyze l => !l.isForeign
  | .latest _ | .confirm _ | .install _ | .tick _ => false

/-- Nothing goes on but what the outside does. -/
def Still (g : Gate) : Prop := ∀ l, l.isInner = true → g.step l = none

/-- The steps without the outside that could be possible. -/
def candidates (g : Gate) : List Label :=
  [.resolve, .arrive, .resume, .expire] ++ g.explorer.candidates.map .explore ++
    g.queue.candidates.map .analyze

theorem mem_candidates (h : g.step l = some g') (hl : l.isInner = true) : l ∈ g.candidates := by
  cases l with
  | resolve | arrive | resume | expire =>
    exact List.mem_append_left _ (List.mem_append_left _ (by simp))
  | explore k =>
    simp only [step] at h
    split at h
    · obtain ⟨x, hx, -⟩ := Option.map_eq_some_iff.mp h
      have hk : k.isForeign = false := by simpa [Label.isInner] using hl
      exact List.mem_append_left _ (List.mem_append_right _
        (List.mem_map_of_mem (Explorer.mem_candidates hx hk)))
    · cases h
  | analyze k =>
    simp only [step] at h
    split at h
    · obtain ⟨q, hq, -⟩ := Option.map_eq_some_iff.mp h
      have hk : k.isForeign = false := by simpa [Label.isInner] using hl
      exact List.mem_append_right _ (List.mem_map_of_mem (Queue.mem_candidates hq hk))
    · cases h
  | latest | confirm | install | tick => cases hl

theorem isInner_of_mem_candidates (h : l ∈ g.candidates) : l.isInner = true := by
  have hgate : ∀ l ∈ [Label.resolve, .arrive, .resume, .expire], l.isInner = true := by decide
  have hcaller : ∀ k ∈ [Queue.Label.offer, .settle, .closed], k.isForeign = false := by decide
  simp only [candidates, Explorer.candidates, Queue.candidates, List.mem_append, List.mem_map,
    List.mem_flatMap] at h
  rcases h with (h | ⟨k, ⟨x, -, u, -, hk⟩, rfl⟩) | ⟨k, hk | ⟨w, -, hk⟩, rfl⟩
  · exact hgate l h
  · simp only [List.mem_cons, List.not_mem_nil, or_false] at hk
    rcases hk with rfl | rfl | rfl | rfl | rfl | rfl <;> rfl
  · simp only [Label.isInner, hcaller k hk, Bool.not_false]
  · simp only [List.mem_cons, List.not_mem_nil, or_false] at hk
    rcases hk with rfl | rfl | rfl | rfl <;> rfl

/-- Whether anything goes on is decided by trying. -/
theorem still_iff : g.Still ↔ ∀ l ∈ g.candidates, g.step l = none := by
  constructor
  · exact fun h l hl => h l (isInner_of_mem_candidates hl)
  · intro h l hl
    by_contra hne
    obtain ⟨g', hg'⟩ := Option.ne_none_iff_exists'.mp hne
    exact hne (h l (mem_candidates hg' hl))

instance (g : Gate) : Decidable g.Still := decidable_of_iff _ still_iff.symm

/-- The machine in virtual time: the clock moves, by one, where nothing can go on without the
outside and the run is not over. -/
def stepVirtual (g : Gate) : Label → Option Gate
  | .tick d =>
    if d = 1 ∧ g.Still ∧ g.result? = none then some { g with now := g.now + d } else none
  | l => g.step l

/-! ## Where something goes on -/

/-- Whether a step is one of the gate, or of the call that it waits for. -/
def Label.isOwn : Label → Bool
  | .resolve | .arrive | .resume | .expire | .analyze .offer | .analyze .settle => true
  | _ => false

/-- The gate goes on, or the call that it waits for. -/
def Proceeds (g : Gate) : Prop := ∃ l, l.isOwn = true ∧ (g.step l).isSome

theorem not_still_of_step (hl : l.isInner = true) (h : (g.step l).isSome) : ¬g.Still := by
  intro hstill
  rw [hstill l hl] at h
  cases h

theorem Proceeds.not_still (h : g.Proceeds) : ¬g.Still := by
  obtain ⟨l, hl, hstep⟩ := h
  refine not_still_of_step ?_ hstep
  cases l with
  | resolve | arrive | resume | expire => rfl
  | analyze k =>
    cases k with
    | offer | settle => rfl
    | call | timeout | closed | listen | take | leave | submitted | reported | abort => cases hl
  | latest | explore | confirm | install | tick => cases hl

theorem isInner_of_isStopping (h : l.isStopping = true) : l.isInner = true := by
  cases l with
  | resume => rfl
  | analyze k =>
    cases k with
    | closed | listen | take | leave | abort => rfl
    | call | offer | settle | timeout | submitted | reported => cases h
  | resolve | latest | explore | arrive | expire | confirm | install | tick => cases h

theorem proceeds_of_settle (h : (g.queue.step .settle).isSome) : g.Proceeds :=
  ⟨.analyze .settle, rfl, by simp only [step, isFreeStep, if_true, Option.isSome_map, h]⟩

/-- Where the gate can go on by itself, something does. -/
theorem Staged.not_still_of_ready (h : Staged g) (hready : g.isReady = true) : ¬g.Still := by
  have hengaged := h.engaged
  unfold isReady at hready
  split at hready
  · rename_i s hphase
    exact Proceeds.not_still ⟨.resolve, rfl, by simp [step, hphase]⟩
  · rename_i s p i hphase
    obtain ⟨w, hw, -⟩ := h.walking s p i hphase
    obtain ⟨result, hresult⟩ := Option.isSome_iff_exists.mp hready
    exact Proceeds.not_still ⟨.arrive, rfl, by simp [step, hphase, hw, hresult]⟩
  · rename_i s tree keys hphase
    rw [hphase] at hengaged
    obtain ⟨e, he⟩ := Option.isSome_iff_exists.mp hready
    rcases hengaged.2 with (⟨_, hc⟩ | hc) | hc
    · simp [Queue.ending?, hc] at he
    · simp [Queue.ending?, hc] at he
    · exact Proceeds.not_still ⟨.resume, rfl, by simp [step, hphase, Queue.ending?, hc]⟩
  · rename_i r hphase
    obtain ⟨l, hl, hstep⟩ := h.exists_stop hphase
    exact not_still_of_step (isInner_of_isStopping hl) hstep
  · cases hready

/-- A call that the gate waits for goes on, or is given up, when its time has run out. -/
theorem Staged.proceeds_of_call (h : Staged g) {tree : Tree} {keys : List String}
    (hphase : g.phase = .analyzing s tree keys) (hdue : s.deadline.isExpired g.now = true) :
    g.Proceeds := by
  have hengaged := h.engaged
  rw [hphase] at hengaged
  have hexpire : (g.queue.step .timeout).isSome → g.Proceeds := fun hstep =>
    ⟨.expire, rfl, by simp only [step, hphase, hdue, if_true, Option.isSome_map, hstep]⟩
  -- A call can be given up unless all that it waits for is done; then it goes on.
  rcases hengaged.2 with (⟨rest, hc⟩ | hc) | hc
  · exact hexpire (by simp [Queue.step, hc])
  · by_cases hpending : g.queue.pending = 0
    · exact proceeds_of_settle (by simp [Queue.step, hc, hpending])
    · exact hexpire (by simp [Queue.step, hc, hpending])
  · exact ⟨.resume, rfl, by simp [step, hphase, Queue.ending?, hc]⟩

/-- Where the time of a scan has run out, the scan goes on or ends, whatever its stage. -/
theorem Staged.proceeds_of_due (h : Staged g) (hscan : g.phase.scan? = some s)
    (hdue : s.deadline.instant ≤ g.now) : g.Proceeds := by
  have hexpired : s.deadline.isExpired g.now = true := decide_eq_true hdue
  cases hphase : g.phase with
  | resolving s' => exact ⟨.resolve, rfl, by simp [step, hphase]⟩
  | looking s' =>
    rw [hphase] at hscan
    obtain rfl : s' = s := Option.some.inj hscan
    exact ⟨.expire, rfl, by simp [step, hphase, hexpired]⟩
  | walking s' p i =>
    rw [hphase] at hscan
    obtain rfl : s' = s := Option.some.inj hscan
    obtain ⟨w, hw, hstanding⟩ := h.walking s' p i hphase
    rcases hstanding.ends with ⟨r, hr⟩ | ⟨w', hw'⟩
    · exact ⟨.arrive, rfl, by simp [step, hphase, hw, Explorer.result?_eq hw, hr]⟩
    · exact ⟨.expire, rfl, by simp [step, hphase, hexpired, Explorer.step, hw, hw']⟩
  | analyzing s' tree keys =>
    rw [hphase] at hscan
    obtain rfl : s' = s := Option.some.inj hscan
    exact h.proceeds_of_call hphase hexpired
  | closing | confirming | installing | ended =>
    rw [hphase] at hscan
    cases hscan

/-! ## Where time passes -/

theorem deadline?_eq (g : Gate) : g.deadline? = g.phase.scan?.map (·.deadline.instant) := by
  unfold deadline? Phase.scan?
  cases g.phase <;> rfl

/-- Where time passes, no deadline has come. -/
theorem Still.tick (h : g.Still) (hstaged : Staged g) (hresult : g.result? = none) :
    g.step (.tick 1) = some { g with now := g.now + 1 } := by
  have hready : g.isReady = false := by
    by_contra hne
    exact hstaged.not_still_of_ready (Bool.not_eq_false _ ▸ hne) h
  have hended : ∀ e, g.phase ≠ .ended e := by
    rintro e hphase
    simp [result?, hphase] at hresult
  have hdeadline : ∀ d, g.deadline? = some d → g.now + 1 ≤ d := by
    intro d hd
    rw [deadline?_eq] at hd
    obtain ⟨s, hscan, rfl⟩ := Option.map_eq_some_iff.mp hd
    by_contra hdue
    exact (hstaged.proceeds_of_due hscan (Nat.not_lt.mp hdue)).not_still h
  simp only [Gate.step, hready, Bool.false_eq_true, if_false]
  split
  · exact absurd ‹_› (hended _)
  · rename_i d hd _
    exact if_pos (hdeadline d hd)
  · rfl

/-- Time passes only where nothing else does. -/
theorem still_of_tick {d : Nat} (h : g.stepVirtual (.tick d) = some g') : g.Still := by
  simp only [stepVirtual] at h
  split at h
  · exact ‹_ ∧ _ ∧ _›.2.1
  · cases h

/-- A step in virtual time is one of the gate: no deadline has to hold the clock back. -/
theorem step_of_stepVirtual (hstaged : Staged g) (h : g.stepVirtual l = some g') :
    g.step l = some g' := by
  cases l with
  | tick d =>
    simp only [stepVirtual] at h
    split at h
    · rename_i htick
      obtain ⟨rfl, hstill, hresult⟩ := htick
      rw [hstill.tick hstaged hresult, h]
    · cases h
  | resolve | latest | explore | arrive | analyze | resume | expire | confirm | install => exact h

variable {request : Request} {settings : Settings} {memo : Option Memo}

/-- A run in virtual time is a run of the gate. -/
theorem steps_of_stepVirtual (h : Steps stepVirtual (start request settings memo) ls g) :
    Steps step (start request settings memo) ls g := by
  induction h with
  | refl => exact .refl
  | tail _ hstep ih => exact .tail ih (step_of_stepVirtual (staged_of_steps ih) hstep)

end Gate

end PackageGate
