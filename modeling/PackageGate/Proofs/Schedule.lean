import PackageGate.Proofs.Steps
import PackageGate.Simulation.Schedule

/-!
# Runs under a schedule

A schedule picks one order among all in which the steps of a machine are possible. So what it comes
to is what some run of the machine comes to, and what is shown of every run holds of it.

- `Schedule.Reaches`: a machine has come from one state to another by its own steps.
- `Schedule.reaches_run`: so it has under every schedule, whoever answers its calls.
-/

namespace PackageGate.Simulation.Schedule

variable {σ ℓ κ ω : Type} {m : Machine σ ℓ κ ω} {s s' t : Schedule σ ℓ κ ω}

/-- Steps of the machine lead from the state of one schedule to that of another. -/
def Reaches (m : Machine σ ℓ κ ω) (s s' : Schedule σ ℓ κ ω) : Prop :=
  ∃ ls, Steps m.step s.state ls s'.state

theorem Reaches.trans (h : Reaches m s s') (h' : Reaches m s' t) : Reaches m s t := by
  obtain ⟨as, has⟩ := h
  obtain ⟨bs, hbs⟩ := h'
  exact ⟨as ++ bs, has.trans hbs⟩

variable [BEq κ]

/-- Sending calls is no step of the machine. -/
theorem state_reconcile (m : Machine σ ℓ κ ω) (s : Schedule σ ℓ κ ω) :
    (reconcile m s).state = s.state := by
  refine List.foldlRecOn (motive := fun t : Schedule σ ℓ κ ω => t.state = s.state) _ _ rfl ?_
  intro t ht c _
  exact ht

theorem reaches_take? {pending : List (Pending ℓ κ)} {l : ℓ}
    (h : take? m { s with pending } l = some s') : Reaches m s s' := by
  obtain ⟨state, hstep, rfl⟩ := Option.map_eq_some_iff.mp h
  refine ⟨[l], ?_⟩
  rw [state_reconcile]
  exact .single hstep

theorem reaches_answer? (h : answer? m s = some s') : Reaches m s s' := by
  obtain ⟨due, -, h⟩ := Option.bind_eq_some_iff.mp h
  by_cases hdue : s.now < due
  · rw [if_pos hdue] at h
    cases h
  · rw [if_neg hdue] at h
    obtain ⟨p, -, h⟩ := Option.bind_eq_some_iff.mp h
    obtain ⟨l, -, h⟩ := Option.bind_eq_some_iff.mp h
    exact reaches_take? h

theorem reaches_expire? (h : expire? m s = some s') : Reaches m s s' := by
  obtain ⟨⟨deadline, l⟩, -, h⟩ := Option.bind_eq_some_iff.mp h
  by_cases hdeadline : s.now < deadline
  · simp only [if_pos hdeadline] at h
    cases h
  · simp only [if_neg hdeadline] at h
    exact reaches_take? h

/-- What the machine does by itself is a step. -/
theorem reaches_act? (h : act? m s = some s') : Reaches m s s' := by
  rw [act?, Option.orElse_eq_or] at h
  rcases Option.or_eq_some_iff.mp h with h | ⟨-, h⟩
  · exact reaches_answer? h
  · obtain ⟨l, -, h⟩ := List.exists_of_findSome?_eq_some h
    exact reaches_take? h

/-- The passing of time is a step of the machine. -/
def HasClock (m : Machine σ ℓ κ ω) : Prop :=
  ∀ s d s', m.elapse s d = some s' → ∃ l, m.step s l = some s'

/-- What the scheduler does next, the machine can do. -/
theorem reaches_next? {horizon : Option Nat} (hclock : HasClock m)
    (h : next? m horizon s = some s') : Reaches m s s' := by
  rw [next?, Option.orElse_eq_or, Option.orElse_eq_or] at h
  rcases Option.or_eq_some_iff.mp h with h | ⟨-, h⟩
  · exact reaches_act? h
  rcases Option.or_eq_some_iff.mp h with h | ⟨-, h⟩
  · exact reaches_expire? h
  -- nothing can be done now, so the time of the next answer or deadline comes
  obtain ⟨time, -, h⟩ := Option.bind_eq_some_iff.mp h
  by_cases hlate : (horizon.any (· < time) || decide (time ≤ s.now)) = true
  · rw [if_pos hlate] at h
    cases h
  · rw [if_neg hlate] at h
    obtain ⟨state, helapse, rfl⟩ := Option.map_eq_some_iff.mp h
    obtain ⟨l, hstep⟩ := hclock _ _ _ helapse
    exact ⟨[l], .single hstep⟩

/-- What a schedule comes to, some run of the machine comes to. -/
theorem reaches_run (hclock : HasClock m) (isFinished : σ → Bool) (horizon : Option Nat)
    (fuel : Nat) (s : Schedule σ ℓ κ ω) : Reaches m s (run m isFinished horizon fuel s) := by
  induction fuel generalizing s with
  | zero => exact ⟨[], .refl⟩
  | succ fuel ih =>
    unfold run
    split
    · exact ⟨[], .refl⟩
    · split
      · rename_i s' hnext
        exact (reaches_next? hclock hnext).trans (ih s')
      · exact ⟨[], .refl⟩

end PackageGate.Simulation.Schedule
