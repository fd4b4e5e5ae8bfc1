import Mathlib.Data.List.Basic
import PackageGate.InstallCommand

/-!
# What the arguments of a command are

The guard reads the arguments of an install command from left to right. An argument behind a flag
that takes a value belongs to this flag, whatever it looks like; of the others, those that start
with a dash are flags, and the rest name packages.

- `InstallCommand.Arranged`: every argument has its role.
- `InstallCommand.existsUnique_arranged`: the arguments of a command have exactly one role each.
- `InstallCommand.packageArguments_eq`: the guard looks at the arguments whose role it is to name
  packages, in order.
-/

namespace PackageGate

/-- No flag that takes a value has one in its name. -/
theorem Manager.not_mem_of_mem_valueFlags {m : Manager} {flag : String} (h : flag ∈ m.valueFlags) :
    '=' ∉ flag.toList := by
  have hall : ∀ flag ∈ m.valueFlags, '=' ∉ flag.toList := by cases m <;> decide
  exact hall flag h

namespace InstallCommand

/-- What an argument is to the guard. -/
inductive Role
  | flag
  /-- It belongs to the flag before it. -/
  | value
  | package
deriving DecidableEq

/-- The arguments have these roles. -/
structure Arranged (m : Manager) (args : List String) (roles : List Role) : Prop where
  length_eq : roles.length = args.length
  /-- A value follows a flag that takes one, and that is not a value itself. -/
  value_iff : ∀ i < args.length, roles[i]? = some .value ↔
    ∃ (j : Nat) (flag : String), i = j + 1 ∧ args[j]? = some flag ∧ roles[j]? = some .flag ∧
      flag ∈ m.valueFlags
  flag_iff : ∀ (i : Nat) (arg : String), args[i]? = some arg →
    (roles[i]? = some .flag ↔ roles[i]? ≠ some .value ∧ arg.toList.head? = some '-')

/-- The roles of arguments of which the first belongs to a flag before it if it is `taken`. -/
def rolesFrom (m : Manager) : (taken : Bool) → List String → List Role
  | _, [] => []
  | true, _ :: rest => .value :: rolesFrom m false rest
  | false, arg :: rest =>
    if isFlag arg then .flag :: rolesFrom m (m.valueFlags.contains arg) rest
    else .package :: rolesFrom m false rest

/-- The arguments that name packages, where the arguments have these roles. -/
def packagesIn (roles : List Role) (args : List String) : List String :=
  ((args.zip roles).filter (·.2 = .package)).map Prod.fst

variable {m : Manager} {args rest : List String} {roles roles' : List Role} {arg flag : String}
  {i : Nat} {taken : Bool}

/-- Whether the next argument is a flag's value, the manager's list says: the names there hold no
equals sign. -/
theorem takesValue_eq (m : Manager) (flag : String) :
    takesValue m flag = m.valueFlags.contains flag := by
  rw [takesValue, Bool.and_eq_right_iff_imp]
  intro h
  simpa using Manager.not_mem_of_mem_valueFlags (List.contains_iff_mem.mp h)

/-! ## The roles -/

/-- Whether the argument behind `arg` belongs to it. -/
theorem rolesFrom_cons (m : Manager) (taken : Bool) (arg : String) (rest : List String) :
    ∃ role, rolesFrom m taken (arg :: rest) =
        role :: rolesFrom m (role == .flag && m.valueFlags.contains arg) rest ∧
      (role = .value ↔ taken = true) ∧ (role = .flag ↔ role ≠ .value ∧ isFlag arg = true) := by
  cases taken with
  | true => exact ⟨.value, rfl, by simp, by simp⟩
  | false =>
    rw [rolesFrom]
    cases hflag : isFlag arg with
    | true => exact ⟨.flag, rfl, by simp, by simp⟩
    | false => exact ⟨.package, rfl, by simp, by simp⟩

theorem length_rolesFrom (m : Manager) (taken : Bool) (args : List String) :
    (rolesFrom m taken args).length = args.length := by
  induction args generalizing taken with
  | nil => cases taken <;> rfl
  | cons arg rest ih =>
    obtain ⟨role, hroles, -⟩ := rolesFrom_cons m taken arg rest
    rw [hroles, List.length_cons, List.length_cons, ih]

/-- The first argument belongs to the flag before it if it is taken. -/
theorem value_iff_zero (h : 0 < args.length) :
    (rolesFrom m taken args)[0]? = some .value ↔ taken = true := by
  cases args with
  | nil => cases h
  | cons arg rest =>
    obtain ⟨role, hroles, hvalue, -⟩ := rolesFrom_cons m taken arg rest
    rw [hroles, List.getElem?_cons_zero, Option.some_inj, hvalue]

/-- A later argument is a value exactly behind a flag that takes one. -/
theorem value_iff_succ (h : i + 1 < args.length) :
    (rolesFrom m taken args)[i + 1]? = some .value ↔ ∃ flag, args[i]? = some flag ∧
      (rolesFrom m taken args)[i]? = some .flag ∧ flag ∈ m.valueFlags := by
  induction args generalizing taken i with
  | nil => cases h
  | cons arg rest ih =>
    obtain ⟨role, hroles, -⟩ := rolesFrom_cons m taken arg rest
    rw [hroles, List.getElem?_cons_succ]
    have hrest : i < rest.length := Nat.lt_of_succ_lt_succ h
    cases i with
    | zero =>
      rw [value_iff_zero hrest]
      simp
    | succ i =>
      rw [ih hrest]
      simp

/-- What is no value is a flag exactly if it starts with a dash. -/
theorem flag_iff_rolesFrom (h : args[i]? = some arg) : (rolesFrom m taken args)[i]? = some .flag ↔
    (rolesFrom m taken args)[i]? ≠ some .value ∧ arg.toList.head? = some '-' := by
  induction args generalizing taken i with
  | nil => cases h
  | cons first rest ih =>
    obtain ⟨role, hroles, -, hflag⟩ := rolesFrom_cons m taken first rest
    rw [hroles]
    cases i with
    | zero =>
      obtain rfl : first = arg := Option.some.inj h
      simpa [isFlag] using hflag
    | succ i => exact ih h

/-- Read from left to right, the arguments get roles as they should. -/
theorem arranged_rolesFrom (m : Manager) (args : List String) :
    Arranged m args (rolesFrom m false args) where
  length_eq := length_rolesFrom m false args
  value_iff i hi := by
    cases i with
    | zero =>
      rw [value_iff_zero hi]
      simp
    | succ i =>
      rw [value_iff_succ hi]
      simp
  flag_iff i arg hi := flag_iff_rolesFrom hi

example : rolesFrom .npm false ["--tag", "--registry", "left-pad", "-D"] =
    [.flag, .value, .package, .flag] := by decide

/-- An argument that is a value in both cases, or in none, has the same role. -/
theorem Arranged.getElem?_eq (h : Arranged m args roles) (h' : Arranged m args roles')
    (hvalue : roles[i]? = some .value ↔ roles'[i]? = some .value) : roles[i]? = roles'[i]? := by
  by_cases hi : i < args.length
  · have harg : args[i]? = some args[i] := List.getElem?_eq_getElem hi
    have hflag : roles[i]? = some .flag ↔ roles'[i]? = some .flag := by
      rw [h.flag_iff i _ harg, h'.flag_iff i _ harg, ne_eq, ne_eq, hvalue]
    obtain ⟨role, hrole⟩ : ∃ role, roles[i]? = some role :=
      ⟨_, List.getElem?_eq_getElem (h.length_eq ▸ hi)⟩
    obtain ⟨role', hrole'⟩ : ∃ role, roles'[i]? = some role :=
      ⟨_, List.getElem?_eq_getElem (h'.length_eq ▸ hi)⟩
    rw [hrole, hrole', Option.some_inj, Option.some_inj] at hvalue hflag
    rw [hrole, hrole']
    cases role <;> cases role' <;> simp at hvalue hflag ⊢
  · rw [List.getElem?_eq_none (h.length_eq ▸ Nat.le_of_not_lt hi),
      List.getElem?_eq_none (h'.length_eq ▸ Nat.le_of_not_lt hi)]

theorem Arranged.value_of_value (h : Arranged m args roles) (h' : Arranged m args roles')
    (hbefore : ∀ j, i = j + 1 → roles[j]? = roles'[j]?) (hi : roles[i]? = some .value) :
    roles'[i]? = some .value := by
  have hlt : i < args.length := h.length_eq ▸ (List.getElem?_eq_some_iff.mp hi).1
  obtain ⟨j, flag, hj, hflag, hrole, hmem⟩ := (h.value_iff i hlt).mp hi
  exact (h'.value_iff i hlt).mpr ⟨j, flag, hj, hflag, hbefore j hj ▸ hrole, hmem⟩

/-- There is only one way to give the arguments their roles. -/
theorem Arranged.unique (h : Arranged m args roles) (h' : Arranged m args roles') :
    roles = roles' := by
  refine List.ext_getElem? fun i => ?_
  -- induction on the place: the one before it decides whether it is a value
  induction i with
  | zero => exact h.getElem?_eq h' ⟨h.value_of_value h' nofun, h'.value_of_value h nofun⟩
  | succ i ih =>
    have hbefore : ∀ j, i + 1 = j + 1 → roles[j]? = roles'[j]? := by
      rintro j ⟨⟩
      exact ih
    exact h.getElem?_eq h'
      ⟨h.value_of_value h' hbefore, h'.value_of_value h fun j hj => (hbefore j hj).symm⟩

/-- The arguments of a command have exactly one role each. -/
theorem existsUnique_arranged (m : Manager) (args : List String) :
    ∃! roles, Arranged m args roles :=
  ⟨_, arranged_rolesFrom m args, fun _ h => h.unique (arranged_rolesFrom m args)⟩

/-! ## The packages -/

/-- What the guard takes for packages has that role. -/
theorem packagesAmong_eq (m : Manager) (args : List String) :
    packagesAmong m args = packagesIn (rolesFrom m false args) args := by
  induction args using packagesAmong.induct m with
  | case1 => rfl
  | case2 arg hflag =>
    rw [packagesAmong, rolesFrom, if_pos hflag, if_pos hflag]
    rfl
  | case3 arg hflag =>
    rw [packagesAmong, rolesFrom, if_neg hflag, if_neg hflag]
    rfl
  -- The flag takes the argument behind it along.
  | case4 arg next rest hflag htakes ih =>
    rw [packagesAmong, rolesFrom, if_pos hflag, if_pos hflag, if_pos htakes, ih,
      ← takesValue_eq, htakes]
    rfl
  | case5 arg next rest hflag htakes ih =>
    rw [packagesAmong, rolesFrom, if_pos hflag, if_pos hflag, if_neg htakes, ih,
      ← takesValue_eq, eq_false_of_ne_true htakes]
    rfl
  | case6 arg next rest hflag ih =>
    rw [packagesAmong, rolesFrom, if_neg hflag, if_neg hflag, ih]
    rfl

variable {c : InstallCommand} {roots : List Package}

/-- A command that names packages installs them. -/
theorem isInstall_of_rootPackages (h : c.rootPackages = .ok roots) (hroots : roots ≠ []) :
    c.isInstall = true := by
  by_contra hinstall
  rw [rootPackages, packageArguments, if_neg hinstall] at h
  cases h
  exact hroots rfl

/-- The guard looks at the arguments of an install command whose role it is to name packages. -/
theorem packageArguments_eq (hinstall : c.isInstall = true)
    (h : Arranged c.manager c.args roles) : c.packageArguments = packagesIn roles c.args := by
  rw [packageArguments, if_pos hinstall, packagesAmong_eq,
    h.unique (arranged_rolesFrom c.manager c.args)]

end InstallCommand

end PackageGate
