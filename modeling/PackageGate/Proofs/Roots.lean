import Mathlib.Data.List.Perm.Basic
import PackageGate.InstallCommand
import PackageGate.Proofs.Keys

/-!
# The roots of a command

- `InstallCommand.forall₂_rootPackages`: every package argument is read by itself, in order.
- `InstallCommand.nonblank_of_rootPackages`: no root has a blank name.
- `InstallCommand.rootPackages_perm`: the package arguments in another order name the same
  roots in another order.
-/

namespace PackageGate

/-- A list is read element by element. -/
theorem mapM_eq_ok {ε α β : Type} {f : α → Except ε β} {xs : List α} {ys : List β} :
    xs.mapM f = .ok ys ↔ List.Forall₂ (fun x y => f x = .ok y) xs ys := by
  induction xs generalizing ys with
  | nil =>
    rw [List.mapM_nil, List.forall₂_nil_left_iff]
    exact ⟨fun h => (Except.ok.inj h).symm, fun h => congrArg Except.ok h.symm⟩
  | cons x xs ih =>
    rw [List.mapM_cons, List.forall₂_cons_left_iff]
    cases hx : f x with
    | error e => exact ⟨nofun, fun ⟨_, _, h, _⟩ => nomatch h⟩
    | ok y =>
      cases hxs : xs.mapM f with
      | error e =>
        refine ⟨nofun, ?_⟩
        rintro ⟨y', ys', -, hys', -⟩
        rw [← ih, hxs] at hys'
        cases hys'
      | ok zs =>
        have hzs := ih.mp hxs
        constructor
        · intro h
          cases h
          exact ⟨y, zs, rfl, hzs, rfl⟩
        · rintro ⟨y', ys', hy', hys', rfl⟩
          cases hy'
          rw [← ih, hxs] at hys'
          cases hys'
          rfl

namespace Package

theorem nonblank_of_ofSpec {spec : String} {p : Package} (h : ofSpec spec = .ok p) :
    Text.isBlankText p.name = false := by
  unfold ofSpec at h
  split at h
  · cases h
  · rename_i name version _
    cases hmake : make (String.ofList name) (String.ofList version) with
    | error e =>
      rw [hmake] at h
      cases h
    | ok q =>
      rw [hmake] at h
      cases h
      exact (nonblank_of_make hmake).2.2

theorem nonblank_of_ofRequirement {requirement : String} {p : Package}
    (h : ofRequirement requirement = .ok p) : Text.isBlankText p.name = false := by
  unfold ofRequirement at h
  dsimp only at h
  split at h
  · cases h
  · generalize hmake : make _ _ = made at h
    cases made with
    | error e => cases h
    | ok q =>
      cases h
      exact (nonblank_of_make hmake).2.2

end Package

namespace InstallCommand

variable {c c' : InstallCommand} {roots : List Package}

/-- Every package argument is read by itself, in order. -/
theorem forall₂_rootPackages : c.rootPackages = .ok roots ↔
    List.Forall₂ (fun arg root => readPackage c.manager.ecosystem arg = .ok root)
      c.packageArguments roots :=
  mapM_eq_ok

theorem nonblank_of_readPackage {e : Ecosystem} {arg : String} {root : Package}
    (h : readPackage e arg = .ok root) : Text.isBlankText root.name = false := by
  unfold readPackage at h
  split at h
  · exact Package.nonblank_of_ofSpec h
  · exact Package.nonblank_of_ofRequirement h

/-- No root has a blank name. -/
theorem nonblank_of_rootPackages (h : c.rootPackages = .ok roots) :
    ∀ root ∈ roots, Text.isBlankText root.name = false := by
  have hread := forall₂_rootPackages.mp h
  generalize c.packageArguments = args at hread
  clear h
  induction hread with
  | nil => exact nofun
  | cons hroot _ ih => exact List.forall_mem_cons.mpr ⟨nonblank_of_readPackage hroot, ih⟩

/-- The package arguments in another order name the same roots in another order. -/
theorem rootPackages_perm (hmanager : c'.manager = c.manager)
    (hargs : c.packageArguments.Perm c'.packageArguments) (h : c.rootPackages = .ok roots) :
    ∃ roots', c'.rootPackages = .ok roots' ∧ roots.Perm roots' := by
  obtain ⟨roots', hread, hperm⟩ := List.perm_comp_forall₂ hargs.symm (forall₂_rootPackages.mp h)
  rw [← hmanager] at hread
  exact ⟨roots', forall₂_rootPackages.mpr hread, hperm.symm⟩

end InstallCommand

end PackageGate
