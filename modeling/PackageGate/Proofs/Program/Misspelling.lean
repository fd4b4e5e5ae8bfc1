import PackageGate.Proofs.Program.ExitCode
import PackageGate.Proofs.Roots
import PackageGate.Proofs.Spelling

/-!
# Package arguments that cannot be read

An argument that names no package is the caller's mistake, and the exit code for such mistakes says
so. It is given only where the writing itself is at fault. What is written as a package should be,
but with a blank name, or with a name or a version that is too long, ends the program like a failure
of its own.

- `InstallCommand.Misspells`: the arguments whose writing is at fault.
- `InstallCommand.Cuts`, `Package.Unfit`: the name and the version in an argument, and those that
  make no package.
- `Program.fails_for_argument`: what the exit code says of the first argument that cannot be read.
- `Program.excuses_blank_name`: a blank name is not blamed.
-/

namespace PackageGate

/-- What a list fails with is told of its first element that cannot be read. -/
theorem exists_of_mapM_eq_error {ε α β : Type} {f : α → Except ε β} {xs : List α} {e : ε}
    (h : xs.mapM f = .error e) : ∃ before x after, xs = before ++ x :: after ∧
      (∀ y ∈ before, ∃ b, f y = .ok b) ∧ f x = .error e := by
  induction xs with
  | nil => cases h
  | cons x xs ih =>
    rw [List.mapM_cons] at h
    cases hx : f x with
    | error e' =>
      rw [hx] at h
      cases h
      exact ⟨[], x, xs, rfl, nofun, hx⟩
    | ok b =>
      rw [hx] at h
      have hrest : xs.mapM f = .error e := by
        cases hxs : xs.mapM f with
        | error e' =>
          rw [hxs] at h
          cases h
          rfl
        | ok bs =>
          rw [hxs] at h
          cases h
      obtain ⟨before, y, after, rfl, hbefore, hy⟩ := ih hrest
      exact ⟨x :: before, y, after, rfl, List.forall_mem_cons.mpr ⟨⟨b, hx⟩, hbefore⟩, hy⟩

/-- A name and a version that make no package: the name is blank, or one of them is too long. -/
def Package.Unfit (name version : String) : Prop :=
  Text.isBlankText name = true ∨ nameLimit < name.utf8ByteSize ∨
    versionLimit < version.utf8ByteSize

/-- Where no package can be made, name and version are unfit. -/
theorem Package.unfit_of_make {name version : String} {why : Invalid}
    (h : make name version = .error why) : Unfit name version := by
  by_contra hfit
  simp only [Unfit, not_or, Bool.not_eq_true, not_lt] at hfit
  have hmake : make name version = .ok ⟨name, version⟩ :=
    make_self_iff (p := ⟨name, version⟩) |>.mpr hfit
  rw [h] at hmake
  cases hmake

namespace InstallCommand

/-- The writing of a package argument is at fault: it has a flaw, or, where requirements are
written, it does not begin with a name. -/
def Misspells : Ecosystem → String → Prop
  | .npm, arg => ∃ flaw, Package.IsMalformed arg.toList flaw
  | .pypi, arg => ∀ c ∈ (Text.trim arg.toList).head?, Requirement.isNameChar c = false

/-- The argument is cut into this name and this version. -/
def Cuts : Ecosystem → (arg name version : String) → Prop
  | .npm, arg, name, version => Package.specParts arg.toList = .ok (name.toList, version.toList)
  | .pypi, arg, name, version =>
    name.toList = (Text.trim arg.toList).takeWhile Requirement.isNameChar ∧
      version.toList = Requirement.pin (Text.trim (Requirement.dropExtras
        ((Text.trim arg.toList).dropWhile Requirement.isNameChar)))

end InstallCommand

namespace Program

open CommandLine (Arguments)

variable {argv : List String} {read : String → Config.Source} {env : String → Option String}
  {args : Arguments} {file : Option Config.File} {c : Config} {e : Ecosystem}
  {arg name version : String} {why : Package.SpecError}

/-! ## What an argument is blamed for -/

/-- What the failure `why` of the argument `arg` says of it, with the exit code that it has. -/
inductive Blames (e : Ecosystem) (arg : String) (why : Package.SpecError) : Prop
  | blamed : InstallCommand.Misspells e arg → BlamesSpec why.failure →
    exitCode (.error why.failure) = 2 → Blames e arg why
  | excused {name version : String} : ¬InstallCommand.Misspells e arg →
    InstallCommand.Cuts e arg name version → Package.Unfit name version →
    ¬BlamesSpec why.failure → exitCode (.error why.failure) = 3 → Blames e arg why

theorem Blames.of_misspells (h : InstallCommand.Misspells e arg) (text : String)
    (flaw : Package.Malformed) : Blames e arg (.malformed text flaw) :=
  .blamed h ⟨[], text, flaw.reason, rfl⟩ rfl

/-- An argument that is spelled well is blamed for the name or the version in it. -/
theorem Blames.of_unfit (h : ¬InstallCommand.Misspells e arg)
    (hcuts : InstallCommand.Cuts e arg name version)
    (hmake : (Package.make name version).mapError .invalid = .error why) : Blames e arg why := by
  cases hmade : Package.make name version with
  | ok p =>
    rw [hmade] at hmake
    cases hmake
  | error cause =>
    rw [hmade] at hmake
    cases hmake
    refine .excused h hcuts (Package.unfit_of_make hmade) ?_ rfl
    rintro ⟨contexts, spec, reason, hfailure⟩
    cases hfailure

/-- A specification of npm's that is refused is blamed for its spelling, or for a name or a version
that makes no package. -/
theorem blames_of_ofSpec (h : Package.ofSpec arg = .error why) : Blames .npm arg why := by
  unfold Package.ofSpec at h
  cases hparts : Package.specParts arg.toList with
  | error flaw =>
    simp only [hparts] at h
    cases h
    have hmisspelt : InstallCommand.Misspells .npm arg :=
      ⟨flaw, Package.specParts_eq_error.mp hparts⟩
    exact .of_misspells hmisspelt arg flaw
  | ok parts =>
    simp only [hparts] at h
    refine .of_unfit ?_ ?_ h
    · rintro ⟨flaw, hflaw⟩
      rw [Package.specParts_eq_error.mpr hflaw] at hparts
      cases hparts
    · rw [InstallCommand.Cuts, String.toList_ofList, String.toList_ofList, hparts]

/-- A requirement is misspelled exactly if there is no name in front. -/
theorem misspells_pypi_iff : InstallCommand.Misspells .pypi arg ↔
    (Text.trim arg.toList).takeWhile Requirement.isNameChar = [] := by
  rw [InstallCommand.Misspells]
  cases Text.trim arg.toList with
  | nil => simp
  | cons c cs => cases hc : Requirement.isNameChar c <;> simp [hc]

theorem blames_of_ofRequirement (h : Package.ofRequirement arg = .error why) :
    Blames .pypi arg why := by
  unfold Package.ofRequirement at h
  dsimp only at h
  split at h
  · rename_i hname
    cases h
    exact .of_misspells (misspells_pypi_iff.mpr hname) _ _
  · rename_i hname
    exact .of_unfit (misspells_pypi_iff.not.mpr hname)
      ⟨String.toList_ofList, String.toList_ofList⟩ h

theorem blames_of_readPackage (h : InstallCommand.readPackage e arg = .error why) :
    Blames e arg why := by
  cases e with
  | npm => exact blames_of_ofSpec h
  | pypi => exact blames_of_ofRequirement h

/-! ## Runs -/

/-- Where the configuration resolves and a package argument cannot be read, the plan fails for that
argument. -/
theorem plan_of_unreadable (hlocate : Config.locate args.options.config read = .ok file)
    (hresolve : Config.resolve args.options.overrides file env = .ok c)
    (hfails : args.command.rootPackages = .error why) :
    (plan args read env).2 = .error why.failure := by
  have hwith : planWith args file env = Plan.of (request args) c := by
    rw [planWith, hresolve]
    rfl
  rw [plan, hlocate]
  show planWith args file env = _
  rw [hwith, Plan.of, show (request args).command.rootPackages = _ from hfails]

/-- A program without a plan starts nothing, and ends with the code of its failure. -/
theorem Run.of_unplanned {e : Failure} (hread : CommandLine.read argv = .ok args)
    (hplan : (plan args read env).2 = .error e) (r : Run argv read env) :
    r.result? = some (.error e) ∧ r.invocations = [] ∧ r.code = exitCode (.error e) := by
  cases r with
  | stopped stop hread' =>
    rw [hread] at hread'
    cases hread'
  | unplanned args' e' hread' hplan' =>
    cases hread.symm.trans hread'
    cases hplan.symm.trans hplan'
    exact ⟨rfl, rfl, rfl⟩
  | carriedOut args' plan' ls g result hread' hplan' =>
    cases hread.symm.trans hread'
    rw [hplan] at hplan'
    cases hplan'

/-- **Only the writing of a package argument is blamed.** Where the configuration of a command is
there, but not all its package arguments can be read, the program ends for the first of these
without having started anything. It ends as for an invalid argument if this argument is misspelled,
and as for a failure of its own if it is written as a package should be, but with a name or a
version that none may have. -/
theorem fails_for_argument (hread : CommandLine.read argv = .ok args)
    (hlocate : Config.locate args.options.config read = .ok file)
    (hresolve : Config.resolve args.options.overrides file env = .ok c)
    (hfails : args.command.rootPackages = .error why) :
    Nonempty (Run argv read env) ∧
    ∃ before arg after, args.command.packageArguments = before ++ arg :: after ∧
      (∀ x ∈ before, ∃ p,
        InstallCommand.readPackage args.command.manager.ecosystem x = .ok p) ∧
      InstallCommand.readPackage args.command.manager.ecosystem arg = .error why ∧
      Blames args.command.manager.ecosystem arg why ∧
      ∀ r : Run argv read env, r.result? = some (.error why.failure) ∧ r.invocations = [] ∧
        r.code = exitCode (.error why.failure) := by
  have hplan := plan_of_unreadable hlocate hresolve hfails
  obtain ⟨before, arg, after, hsplit, hbefore, harg⟩ := exists_of_mapM_eq_error hfails
  exact ⟨⟨.unplanned args _ hread hplan⟩, before, arg, after, hsplit, hbefore, harg,
    blames_of_readPackage harg, Run.of_unplanned hread hplan⟩

/-- A scope without a name is blamed, also behind a package that can be read. -/
theorem fails_for_argument_scoped :
    InstallCommand.Misspells .npm "@bad" ∧
    ∃ r : Run ["npm", "install", "left-pad@1", "@bad"] (fun _ => .missing) fun _ => none,
      r.invocations = [] ∧ r.code = 2 := by
  have hread : CommandLine.read ["npm", "install", "left-pad@1", "@bad"] =
      .ok ⟨{}, .npm, "install", ["left-pad@1", "@bad"]⟩ := rfl
  have hfails : (InstallCommand.mk .npm "install" ["left-pad@1", "@bad"]).rootPackages =
      .error (.malformed "@bad" .scopeWithoutName) := by decide +kernel
  have hflaw : Package.specParts "@bad".toList = .error .scopeWithoutName := by decide
  have hlocate : Config.locate none (fun _ => .missing) = .ok none := rfl
  have hresolve : ∃ c, Config.resolve {} none (fun _ => none) = .ok c := ⟨_, rfl⟩
  obtain ⟨c, hresolve⟩ := hresolve
  obtain ⟨⟨r⟩, -, -, -, -, -, -, -, hruns⟩ := fails_for_argument hread hlocate hresolve hfails
  obtain ⟨-, hinvocations, hcode⟩ := hruns r
  exact ⟨⟨_, Package.specParts_eq_error.mp hflaw⟩, r, hinvocations, hcode⟩

/-- A blank name is not blamed: as the package argument of a command it ends the program with the
code of a failure of its own. -/
theorem excuses_blank_name :
    CommandLine.read ["npm", "install", " "] = .ok ⟨{}, .npm, "install", [" "]⟩ ∧
    Config.locate none (fun _ => .missing) = .ok none ∧
    (∃ c, Config.resolve {} none (fun _ => none) = .ok c) ∧
    (InstallCommand.mk .npm "install" [" "]).rootPackages = .error (.invalid .blankName) ∧
    ¬BlamesSpec (Package.SpecError.invalid .blankName).failure ∧
    ∃ r : Run ["npm", "install", " "] (fun _ => .missing) fun _ => none,
      r.result? = some (.error (Package.SpecError.invalid .blankName).failure) ∧ r.code = 3 := by
  have hread : CommandLine.read ["npm", "install", " "] = .ok ⟨{}, .npm, "install", [" "]⟩ := rfl
  have hfails : (InstallCommand.mk .npm "install" [" "]).rootPackages =
      .error (.invalid .blankName) := by decide +kernel
  have hplan : (plan ⟨{}, .npm, "install", [" "]⟩ (fun _ => .missing) fun _ => none).2 =
      .error (Package.SpecError.invalid .blankName).failure :=
    plan_of_unreadable rfl rfl hfails
  refine ⟨hread, rfl, ⟨_, rfl⟩, hfails, ?_, .unplanned _ _ hread hplan, rfl, rfl⟩
  rintro ⟨contexts, spec, reason, hfailure⟩
  cases hfailure

end Program

end PackageGate
