import Mathlib.Algebra.GroupWithZero.Nat
import Mathlib.Data.List.Induction
import Mathlib.Data.List.Perm.Basic

/-!
# Runs of a machine

A machine is a partial step function on states and labels. A run takes one
possible step after another, in whatever order they are possible.

- `Steps step s ls u`: the steps `ls` lead from `s` to `u`.
- `Steps.trans`, `Steps.split`: runs are put together and cut at any place.
- `Steps.invariant`: what every step keeps, every run keeps.
- `Steps.mono`: a run of a machine is one of a machine that takes more steps.
- `steps_iff_foldlM`: a run is computed by folding the step function.
- `gather`: what is told of the steps of a run, in order; `mem_gather`: each of it is
  told of one step.
- `sum_map_set`: what a sum over several members makes of the step of one.
-/

namespace PackageGate

/-- The steps `ls`, taken one after another, lead from `s` to the last state. -/
inductive Steps {σ ℓ : Type} (step : σ → ℓ → Option σ) (s : σ) : List ℓ → σ → Prop
  | refl : Steps step s [] s
  | tail {ls : List ℓ} {m : σ} {l : ℓ} {u : σ} :
    Steps step s ls m → step m l = some u → Steps step s (ls ++ [l]) u

namespace Steps

variable {σ ℓ : Type} {step : σ → ℓ → Option σ} {s m u v : σ} {l : ℓ} {as bs ls : List ℓ}

theorem single (h : step s l = some u) : Steps step s [l] u := by
  show Steps step s ([] ++ [l]) u
  exact .tail .refl h

theorem trans (h₁ : Steps step s as m) (h₂ : Steps step m bs u) : Steps step s (as ++ bs) u := by
  induction h₂ with
  | refl => simpa using h₁
  | tail _ hstep ih =>
    rw [← List.append_assoc]
    exact .tail ih hstep

theorem nil_inv (h : Steps step s [] u) : u = s := by
  generalize hls : ([] : List ℓ) = ls at h
  cases h with
  | refl => rfl
  | tail => simp at hls

theorem tail_inv (h : Steps step s (ls ++ [l]) u) :
    ∃ m, Steps step s ls m ∧ step m l = some u := by
  generalize hls : ls ++ [l] = ks at h
  cases h with
  | refl => simp at hls
  | @tail ks' m l' _ hm hstep =>
    obtain ⟨rfl, hl⟩ := List.append_inj' hls rfl
    obtain rfl : l = l' := by simpa using hl
    exact ⟨m, hm, hstep⟩

/-- A run is cut in two at any place of its labels. -/
theorem split (h : Steps step s (as ++ bs) u) : ∃ m, Steps step s as m ∧ Steps step m bs u := by
  induction bs using List.reverseRecOn generalizing u with
  | nil => exact ⟨u, by simpa using h, .refl⟩
  | append_singleton bs l ih =>
    rw [← List.append_assoc] at h
    obtain ⟨n, hn, hstep⟩ := tail_inv h
    obtain ⟨m, hm, hmn⟩ := ih hn
    exact ⟨m, hm, .tail hmn hstep⟩

theorem cons_inv (h : Steps step s (l :: ls) u) : ∃ m, step s l = some m ∧ Steps step m ls u := by
  have h : Steps step s (([] ++ [l]) ++ ls) u := h
  obtain ⟨m, hm, hmu⟩ := split h
  obtain ⟨n, hn, hstep⟩ := tail_inv hm
  rw [nil_inv hn] at hstep
  exact ⟨m, hstep, hmu⟩

/-- The labels of a run determine where it ends. -/
theorem det (h₁ : Steps step s ls u) (h₂ : Steps step s ls v) : u = v := by
  induction h₁ generalizing v with
  | refl => exact (nil_inv h₂).symm
  | tail _ hstep ih =>
    obtain ⟨m, hm, hstep'⟩ := tail_inv h₂
    rw [ih hm, hstep'] at hstep
    exact (Option.some.inj hstep).symm

/-- What every step keeps, every run keeps. -/
theorem invariant {P : σ → Prop} (hstep : ∀ {s l u}, P s → step s l = some u → P u)
    (h : Steps step s ls u) (hs : P s) : P u := by
  induction h with
  | refl => exact hs
  | tail _ h ih => exact hstep ih h

/-- A run of a machine is one of every machine that takes the same steps, and more. -/
theorem mono {step' : σ → ℓ → Option σ} (h : Steps step s ls u)
    (hstep : ∀ {s l u}, step s l = some u → step' s l = some u) : Steps step' s ls u := by
  induction h with
  | refl => exact .refl
  | tail _ h ih => exact .tail ih (hstep h)

end Steps

variable {σ ℓ : Type} {step : σ → ℓ → Option σ}

/-- A run is computed by folding the step function over its labels. -/
theorem steps_iff_foldlM {s u : σ} {ls : List ℓ} :
    Steps step s ls u ↔ ls.foldlM step s = some u := by
  constructor
  · intro h
    induction h with
    | refl => rfl
    | tail _ hstep ih => simp [List.foldlM_append, ih, hstep]
  · intro h
    induction ls generalizing s with
    | nil =>
      obtain rfl : s = u := by simpa using h
      exact .refl
    | cons l ls ih =>
      rw [List.foldlM_cons] at h
      obtain ⟨m, hm, hmu⟩ := Option.bind_eq_some_iff.mp h
      exact (Steps.single hm).trans (ih hmu)

/-! ## What is told of a run -/

variable {ε : Type} {note : σ → ℓ → Option ε} {s m u : σ} {l : ℓ} {as ls : List ℓ}

/-- What `note` tells of the steps of a run from `s`, in order. -/
def gather (step : σ → ℓ → Option σ) (note : σ → ℓ → Option ε) (s : σ) : List ℓ → List ε
  | [] => []
  | l :: ls =>
    match step s l with
    | some u => (note s l).toList ++ gather step note u ls
    | none => []

theorem gather_append (h : Steps step s as m) (bs : List ℓ) :
    gather step note s (as ++ bs) = gather step note s as ++ gather step note m bs := by
  induction as generalizing s with
  | nil =>
    rw [h.nil_inv]
    rfl
  | cons l as ih =>
    obtain ⟨n, hstep, hrest⟩ := h.cons_inv
    rw [List.cons_append, gather, gather, hstep]
    show (note s l).toList ++ gather step note n (as ++ bs) = _
    rw [ih hrest, ← List.append_assoc]

theorem gather_concat (h : Steps step s ls m) (hstep : step m l = some u) :
    gather step note s (ls ++ [l]) = gather step note s ls ++ (note m l).toList := by
  rw [gather_append h]
  simp only [gather, hstep, List.append_nil]

/-- Everything that is told of a run is told of one of its steps. -/
theorem mem_gather {x : ε} (h : Steps step s ls u) : x ∈ gather step note s ls ↔
    ∃ as l bs m, ls = as ++ l :: bs ∧ Steps step s as m ∧ note m l = some x := by
  constructor
  · intro hx
    induction h with
    | refl => cases hx
    | @tail ls m l u hm hstep ih =>
      rw [gather_concat hm hstep] at hx
      rcases List.mem_append.mp hx with hx | hx
      · obtain ⟨as, k, bs, n, rfl, hn, hk⟩ := ih hx
        exact ⟨as, k, bs ++ [l], n, by simp, hn, hk⟩
      · exact ⟨ls, l, [], m, rfl, hm, Option.mem_toList.mp hx⟩
  · rintro ⟨as, l, bs, m, rfl, hm, hx⟩
    obtain ⟨m', hm', hrest⟩ := h.split
    obtain rfl := hm.det hm'
    obtain ⟨n, hstep, -⟩ := hrest.cons_inv
    rw [gather_append hm, gather, hstep, hx]
    exact List.mem_append_right _ List.mem_cons_self

/-! ## Machines with several members -/

/-- Another element in one place changes a sum by the difference of both. -/
theorem sum_map_set {α : Type} (f : α → Nat) {xs : List α} {i : Nat} {x : α} (h : xs[i]? = some x)
    (y : α) : ((xs.set i y).map f).sum + f x = (xs.map f).sum + f y := by
  obtain ⟨hi, rfl⟩ := List.getElem?_eq_some_iff.mp h
  have hset := ((List.set_perm_cons_eraseIdx hi y).map f).sum_nat
  have hget := ((List.getElem_cons_eraseIdx_perm hi).map f).sum_nat
  rw [List.map_cons, List.sum_cons] at hset hget
  omega

end PackageGate
