import PackageGate.Proofs.Gate.Endings
import PackageGate.Proofs.Schedule
import PackageGate.Simulation.Host

/-!
# The exit code of the program

Scripts read nothing of a run but its exit code. Three paths lead to it: the command line gives no
command, there is no plan for it, or the plan is carried out by a run of the gate, in which
registry, service, user and package manager answer as they like.

- `Program.Run`: a run of the program, on any of these paths.
- `Program.TellsTruth`: what its exit code says of it.
- `Program.tells_truth`: every run keeps that.
- `Program.Plan.follow?`: what a plan comes to by given steps, and `Program.Run.exists_of_follow`:
  the run that takes them.
- `Simulation.Host.exists_run`: a run on a simulated machine is one of them.
-/

namespace PackageGate.Program

open Gate (Label shownNotice)

/-- A run of the program with the arguments `argv`, on a machine whose files `read` reads and whose
environment variables `env` looks up. -/
inductive Run (argv : List String) (read : String → Config.Source) (env : String → Option String)
  | stopped (stop : CommandLine.Stop) : CommandLine.read argv = .error stop → Run argv read env
  | unplanned (args : CommandLine.Arguments) (e : Failure) : CommandLine.read argv = .ok args →
    (Program.plan args read env).2 = .error e → Run argv read env
  /-- The gate takes the steps `ls` and ends. -/
  | carriedOut (args : CommandLine.Arguments) (plan : Plan) (ls : List Label) (g : Gate)
    (result : Except Failure Outcome) : CommandLine.read argv = .ok args →
    (Program.plan args read env).2 = .ok plan → Steps Gate.step plan.gate ls g →
    g.phase = .ended result → Run argv read env

namespace Run

variable {argv : List String} {read : String → Config.Source} {env : String → Option String}

/-- The exit code of a run. -/
def code : Run argv read env → Int
  | stopped stop _ => (stopCode stop).code
  | unplanned _ e _ _ => exitCode (.error e)
  | carriedOut _ _ _ _ result _ _ _ _ => exitCode result

/-- What a run with a command comes to. -/
def result? : Run argv read env → Option (Except Failure Outcome)
  | stopped _ _ => none
  | unplanned _ e _ _ => some (.error e)
  | carriedOut _ _ _ _ result _ _ _ _ => some result

/-- The steps of the gate. -/
def labels : Run argv read env → List Label
  | carriedOut _ _ ls _ _ _ _ _ _ => ls
  | _ => []

/-- What the user is told. -/
def notices : Run argv read env → List Notice
  | carriedOut _ _ _ g _ _ _ _ _ => g.notices
  | _ => []

/-- The programs that are started, with their arguments. -/
def invocations : Run argv read env → List (String × List String)
  | carriedOut _ _ _ g _ _ _ _ _ => g.invocations
  | _ => []

/-- What the program puts on standard output. Where there is a command, that is left to the package
manager. -/
def output : Run argv read env → String
  | stopped stop _ => stopOutput stop
  | _ => ""

/-- Help or the version was asked for, and is printed. -/
def Informs (r : Run argv read env) : Prop :=
  (CommandLine.read argv = .error .help ∧ r.output = Console.helpText) ∨
    (CommandLine.read argv = .error .version ∧ r.output = Console.versionText)

/-- It is a dry run that has come to its end: the command is shown and nothing is started. -/
def Shows (r : Run argv read env) : Prop :=
  ∃ args, CommandLine.read argv = .ok args ∧ args.options.isDryRun = true ∧
    shownNotice (request args) ∈ r.notices ∧ r.invocations = []

/-- The package manager is run with the command, and ends with `code`. -/
def Installs (r : Run argv read env) (code : Int) : Prop :=
  ∃ args, CommandLine.read argv = .ok args ∧ r.invocations = [(request args).invocation] ∧
    .install (.ok code) ∈ r.labels

end Run

variable {argv : List String} {read : String → Config.Source} {env : String → Option String}
  {args : CommandLine.Arguments} {plan : Plan}

/-- A malformed package argument is at the bottom of a failure, whatever was being done. -/
def BlamesSpec (e : Failure) : Prop :=
  ∃ contexts spec reason, e = ⟨contexts, .fault (.invalidSpec spec reason)⟩

/-- What the exit code says of a run. -/
structure TellsTruth (r : Run argv read env) : Prop where
  zero : r.code = 0 → r.Informs ∨ r.Shows ∨ r.Installs 0
  blocked : ∀ o, r.result? = some (.ok o) → o.finalState = .blocked →
    r.code = 1 ∧ r.invocations = []
  exited : ∀ program (code : UInt8),
    .install (Execution.result program (.ok (.exited code))) ∈ r.labels → r.code = code.toNat
  killed : ∀ program, .install (Execution.result program (.ok .killed)) ∈ r.labels → r.code = 1
  refused : ∀ why, CommandLine.read argv = .error (.refused why) → r.code = 2
  failed : ∀ e, r.result? = some (.error e) →
    (r.code = 2 ∨ r.code = 3) ∧ (r.code = 2 ↔ BlamesSpec e)

/-! ## Plans -/

theorem exists_start_of (request : Request) (c : Config) (h : Plan.of request c = .ok plan) :
    ∃ settings memo, plan.gate = Gate.start request settings memo := by
  unfold Plan.of at h
  split at h
  · cases h
  · rename_i hroots
    cases h
    refine ⟨{}, none, ?_⟩
    show (Gate.initial request {} none).passThrough = Gate.start request {} none
    unfold Gate.start
    rw [hroots]
  · cases hurl : c.requiredServiceUrl with
    | error e =>
      rw [hurl] at h
      cases h
    | ok url =>
      rw [hurl] at h
      cases h
      exact ⟨c.settings, some .empty, rfl⟩

/-- A plan begins like every run of the gate. -/
theorem exists_start (h : (Program.plan args read env).2 = .ok plan) :
    ∃ settings memo, plan.gate = Gate.start (request args) settings memo := by
  unfold Program.plan at h
  split at h
  · cases h
  · rename_i file _
    cases hconfig : Config.resolve args.options.overrides file env with
    | error e =>
      simp only [planWith, hconfig] at h
      cases h
    | ok c =>
      simp only [planWith, hconfig] at h
      exact exists_start_of (request args) c h

/-! ## Failures -/

/-- A failure ends the program with 2 or 3, and with 2 exactly when it blames a package argument. -/
theorem exitCode_error (e : Failure) :
    (exitCode (.error e) = 2 ∨ exitCode (.error e) = 3) ∧
      (exitCode (.error e) = 2 ↔ BlamesSpec e) := by
  obtain ⟨contexts, cause⟩ := e
  -- the code is a matter of the cause alone: contexts only say what was being done
  by_cases hspec : ∃ spec reason, cause = .fault (.invalidSpec spec reason)
  · obtain ⟨spec, reason, rfl⟩ := hspec
    exact ⟨.inl rfl, iff_of_true rfl ⟨contexts, spec, reason, rfl⟩⟩
  · have hcode : exitCode (.error ⟨contexts, cause⟩) = 3 := by
      have hnot : Failure.isInvalidSpec ⟨contexts, cause⟩ = false := by
        unfold Failure.isInvalidSpec
        split
        · exact absurd ⟨_, _, ‹cause = _›⟩ hspec
        · rfl
      rw [exitCode, Failure.exitCode, hnot]
      rfl
    rw [hcode]
    refine ⟨.inr rfl, iff_of_false (by decide) ?_⟩
    rintro ⟨_, spec, reason, heq⟩
    exact hspec ⟨spec, reason, (Failure.mk.inj heq).2⟩

/-- No failure ends in zero. -/
theorem exitCode_error_ne_zero (e : Failure) : exitCode (.error e) ≠ 0 := by
  rcases (exitCode_error e).1 with hcode | hcode <;> rw [hcode] <;> decide

/-! ## Outcomes -/

/-- A command that was blocked ends in one. -/
theorem exitCode_of_blocked {o : Outcome} (h : o.finalState = .blocked) : exitCode (.ok o) = 1 := by
  simp only [exitCode, Outcome.exitCode, h]
  rfl

/-- A command that ran ends in the manager's code. -/
theorem exitCode_of_ran {o : Outcome} {code : Int} (h : o.finalState = .clean)
    (hcode : o.managerCode = some code) : exitCode (.ok o) = code := by
  simp only [exitCode, Outcome.exitCode, h, hcode]

section Gate

variable {request : Request} {settings : Settings} {memo : Option Memo} {ls : List Label} {g : Gate}
  {result : Except Failure Outcome} {code : Int}

/-- The exit code of the package manager is passed on. -/
theorem exitCode_of_install (h : Steps Gate.step (Gate.start request settings memo) ls g)
    (hend : g.phase = .ended result) (hmem : .install (.ok code) ∈ ls) :
    exitCode result = code := by
  obtain ⟨draft, hresult⟩ := Gate.result_of_install h hend hmem
  have hok : result = .ok { draft with managerCode := some code } := hresult
  have hends := Gate.ends_of_steps h hend
  rw [hok] at hends ⊢
  -- the outcome has a code of the package manager, which leaves one ending
  cases hends with
  | blocked _ hnone | shown _ hnone => cases hnone
  | ran hclean => exact exitCode_of_ran hclean rfl

/-- Zero comes of a dry run, or of a package manager that has ended with zero. -/
theorem cases_of_exitCode_zero (h : Steps Gate.step (Gate.start request settings memo) ls g)
    (hend : g.phase = .ended result) (hzero : exitCode result = 0) :
    (request.isDryRun = true ∧ shownNotice request ∈ g.notices ∧ g.invocations = []) ∨
      (g.invocations = [request.invocation] ∧ .install (.ok 0) ∈ ls) := by
  cases Gate.ends_of_steps h hend with
  | failed e => exact absurd hzero (exitCode_error_ne_zero e)
  | blocked hblocked =>
    rw [exitCode_of_blocked hblocked] at hzero
    cases hzero
  | shown _ _ hinv hdry hnotice => exact .inl ⟨hdry, hnotice, hinv⟩
  | ran hclean hcode hinv hmem =>
    rw [exitCode_of_ran hclean hcode] at hzero
    exact .inr ⟨hinv, hzero ▸ hmem⟩

/-- A blocked install has started nothing. -/
theorem invocations_of_blocked {o : Outcome}
    (h : Steps Gate.step (Gate.start request settings memo) ls g) (hend : g.phase = .ended (.ok o))
    (hblocked : o.finalState = .blocked) : g.invocations = [] := by
  cases Gate.ends_of_steps h hend with
  | blocked _ _ hinv => exact hinv
  | shown hclean | ran hclean =>
    rw [hblocked] at hclean
    cases hclean

end Gate

/-! ## Runs -/

theorem tellsTruth_stopped (stop : CommandLine.Stop)
    (hread : CommandLine.read argv = .error stop) :
    TellsTruth (.stopped stop hread : Run argv read env) where
  zero hzero := by
    cases stop with
    | help => exact .inl (.inl ⟨hread, rfl⟩)
    | version => exact .inl (.inr ⟨hread, rfl⟩)
    | refused => cases hzero
  blocked := nofun
  exited := nofun
  killed := nofun
  refused why hwhy := by
    rw [hread] at hwhy
    cases hwhy
    rfl
  failed := nofun

theorem tellsTruth_unplanned (e : Failure) (hread : CommandLine.read argv = .ok args)
    (hplan : (Program.plan args read env).2 = .error e) :
    TellsTruth (.unplanned args e hread hplan : Run argv read env) where
  zero hzero := absurd hzero (exitCode_error_ne_zero e)
  blocked := nofun
  exited := nofun
  killed := nofun
  refused why hwhy := by
    rw [hread] at hwhy
    cases hwhy
  failed e' he := by
    cases he
    exact exitCode_error e

/-- Where the plan is carried out, the gate's run bears out the code. -/
theorem tellsTruth_carriedOut {ls : List Label} {g : Gate} {result : Except Failure Outcome}
    (hread : CommandLine.read argv = .ok args) (hplan : (Program.plan args read env).2 = .ok plan)
    (hsteps : Steps Gate.step plan.gate ls g) (hend : g.phase = .ended result) :
    TellsTruth (.carriedOut args plan ls g result hread hplan hsteps hend : Run argv read env) := by
  obtain ⟨settings, memo, hstart⟩ := exists_start hplan
  have hsteps' : Steps Gate.step (Gate.start (request args) settings memo) ls g := hstart ▸ hsteps
  refine {
    zero := fun hzero => ?_
    blocked := fun o ho hblocked => ?_
    exited := fun _ _ hmem => exitCode_of_install hsteps' hend hmem
    killed := fun _ hmem => exitCode_of_install hsteps' hend hmem
    refused := fun why hwhy => ?_
    failed := fun e he => ?_ }
  · rcases cases_of_exitCode_zero hsteps' hend hzero with ⟨hdry, hnotice, hinv⟩ | ⟨hinv, hmem⟩
    · exact .inr (.inl ⟨args, hread, hdry, hnotice, hinv⟩)
    · exact .inr (.inr ⟨args, hread, hinv, hmem⟩)
  · obtain rfl : result = .ok o := Option.some.inj ho
    exact ⟨exitCode_of_blocked hblocked, invocations_of_blocked hsteps' hend hblocked⟩
  · rw [hread] at hwhy
    cases hwhy
  · obtain rfl : result = .error e := Option.some.inj he
    exact exitCode_error e

/-- What a plan comes to if its gate can take the steps `ls` to an outcome: the exit code, the state
in the end, and what has been started. -/
def Plan.follow? (plan : Plan) (ls : List Label) :
    Option (Int × Gate.State × List (String × List String)) := do
  let g ← ls.foldlM Gate.step plan.gate
  let outcome ← g.result?.bind (·.toOption)
  return (outcome.exitCode, outcome.finalState, g.invocations)

/-- A plan that comes to an outcome is carried out by a run. -/
theorem Run.exists_of_follow {ls : List Label} {code : Int} {state : Gate.State}
    {started : List (String × List String)} (hread : CommandLine.read argv = .ok args)
    (hplan : (Program.plan args read env).2 = .ok plan)
    (hfollow : plan.follow? ls = some (code, state, started)) :
    ∃ r : Run argv read env, r.code = code ∧ r.invocations = started ∧ r.labels = ls ∧
      ∃ o : Outcome, r.result? = some (.ok o) ∧ o.finalState = state := by
  obtain ⟨g, hg, hrest⟩ := Option.bind_eq_some_iff.mp hfollow
  obtain ⟨o, ho, hseen⟩ := Option.bind_eq_some_iff.mp hrest
  obtain ⟨result, hresult, hok⟩ := Option.bind_eq_some_iff.mp ho
  cases result with
  | error e => cases hok
  | ok o' =>
    cases hok
    cases hseen
    exact ⟨.carriedOut args plan ls g _ hread hplan (steps_iff_foldlM.mpr hg)
      (Gate.result?_eq_some hresult), rfl, rfl, rfl, o, rfl, rfl⟩

/-- **The exit code tells the truth**: zero means that information was printed, that a dry run has
come to its end, or that the package manager has run and succeeded. A blocked install, a refused
command line and a malformed package argument have codes of their own, every other failure has one,
and whatever the package manager ends with is passed on. -/
theorem tells_truth (r : Run argv read env) : TellsTruth r := by
  cases r with
  | stopped stop hread => exact tellsTruth_stopped stop hread
  | unplanned args e hread hplan => exact tellsTruth_unplanned e hread hplan
  | carriedOut args plan ls g result hread hplan hsteps hend =>
    exact tellsTruth_carriedOut hread hplan hsteps hend

/-- A command line that names one package, and asks for one worker. -/
def oneCommand : List String := ["--workers", "1", "npm", "install", "left-pad@1"]

/-- What it is read as, for a dry run or not. -/
def oneArguments (isDryRun : Bool) : CommandLine.Arguments :=
  ⟨{ isDryRun, workers := some 1 }, .npm, "install", ["left-pad@1"]⟩

/-- The environment of a machine where an analysis service is named. -/
def serviceNamed (name : String) : Option String :=
  if name = Config.serviceUrlVariable then some "https://scan.example" else none

/-- The plan for it on a machine without a configuration file. -/
def onePlan (isDryRun : Bool) : Plan :=
  .scan (request (oneArguments isDryRun)) { analysisWorkers := 1 }
    (.ofUrl .npm (Registry.publicUrl .npm)) (.ofUrl "https://scan.example" none)

/-- The package is found malicious. A dry run goes on to show the command, the user declines to have
it installed, or agrees, and the package manager ends with a code of its own. A package argument
that is malformed leaves no plan. -/
theorem tells_truth_guarded :
    (∃ r : Run ("--dry-run" :: oneCommand) (fun _ => .missing) serviceNamed,
      r.code = 0 ∧ r.Shows) ∧
    (∃ r : Run oneCommand (fun _ => .missing) serviceNamed,
      r.labels.getLast? = some (.confirm (.ok "n")) ∧ r.code = 1 ∧ r.invocations = []) ∧
    (∃ r : Run oneCommand (fun _ => .missing) serviceNamed,
      r.invocations = [("npm", ["install", "left-pad@1"])] ∧ r.code = 7) ∧
    ∃ r : Run ["npm", "install", "@types"] (fun _ => .missing) serviceNamed,
      r.code = 2 ∧ r.invocations = [] := by
  have hread : CommandLine.read oneCommand = .ok (oneArguments false) := rfl
  have hreadDry : CommandLine.read ("--dry-run" :: oneCommand) = .ok (oneArguments true) := rfl
  have hplan : ∀ isDryRun, (Program.plan (oneArguments isDryRun) (fun _ => .missing)
      serviceNamed).2 = .ok (onePlan isDryRun) := by decide +kernel
  have hshown : (onePlan true).follow? Gate.agreedRun.dropLast = some (0, .clean, []) := by
    decide +kernel
  have hdeclined : (onePlan false).follow?
      (Gate.agreedRun.dropLast.dropLast ++ [.confirm (.ok "n")]) = some (1, .blocked, []) := by
    decide +kernel
  have hexited : (onePlan false).follow? (Gate.agreedRun.dropLast ++
      [.install (Execution.result "npm" (.ok (.exited 7)))]) =
      some (7, .clean, [("npm", ["install", "left-pad@1"])]) := by
    decide +kernel
  refine ⟨?_, ?_, ?_, ?_⟩
  · obtain ⟨r, hcode, hnone, -⟩ := Run.exists_of_follow hreadDry (hplan true) hshown
    refine ⟨r, hcode, ?_⟩
    rcases (tells_truth r).zero hcode with (⟨hstop, -⟩ | ⟨hstop, -⟩) | hshows | ⟨args, -, hinv, -⟩
    · cases hreadDry.symm.trans hstop
    · cases hreadDry.symm.trans hstop
    · exact hshows
    · rw [hnone] at hinv
      cases hinv
  · obtain ⟨r, -, -, hlabels, o, ho, hblocked⟩ := Run.exists_of_follow hread (hplan false) hdeclined
    exact ⟨r, by rw [hlabels, List.getLast?_concat], (tells_truth r).blocked o ho hblocked⟩
  · obtain ⟨r, -, hinv, hlabels, -⟩ := Run.exists_of_follow hread (hplan false) hexited
    refine ⟨r, hinv, (tells_truth r).exited "npm" 7 ?_⟩
    rw [hlabels]
    exact List.mem_append_right _ List.mem_cons_self
  · obtain ⟨e, hmalformed, hblames⟩ : ∃ e, (Program.plan ⟨{}, .npm, "install", ["@types"]⟩
        (fun _ => .missing) serviceNamed).2 = .error e ∧ BlamesSpec e :=
      ⟨(Package.SpecError.malformed "@types" .scopeWithoutName).failure, by decide +kernel,
        _, _, _, rfl⟩
    refine ⟨.unplanned _ e rfl hmalformed, ?_, rfl⟩
    exact ((tells_truth _).failed e rfl).2.mpr hblames

end PackageGate.Program

namespace PackageGate.Simulation

open Program (Run)

theorem hasClock_gateMachine {ω : Type} (outside : Outside ω) :
    Schedule.HasClock (gateMachine outside) :=
  fun _ d _ h => ⟨.tick d, h⟩

namespace Host

variable (h : Host)

/-- A plan is carried out by a run of the gate. -/
theorem exists_steps_carryOut (plan : Program.Plan) :
    ∃ ls, Steps Gate.step plan.gate ls (h.carryOut plan) := by
  have hrun : ∀ registry service, ∃ ls, Steps Gate.step plan.gate ls
      (Schedule.run (gateMachine (h.outside registry service)) (fun g => g.result?.isSome) none fuel
        (Schedule.start (gateMachine (h.outside registry service)) plan.gate ())).state := by
    intro registry service
    obtain ⟨ls, hls⟩ := Schedule.reaches_run (hasClock_gateMachine (h.outside registry service))
      (fun g => g.result?.isSome) none fuel
      (Schedule.start (gateMachine (h.outside registry service)) plan.gate ())
    -- a schedule begins by sending the calls of the first state
    rw [Schedule.start, Schedule.state_reconcile] at hls
    exact ⟨ls, hls⟩
  cases plan with
  | handOn request => exact hrun default default
  | scan request settings registry service => exact hrun registry service

/-- A run on a simulated machine whose plan is carried out to its end is a run of the program, with
the same exit code and the same output. -/
theorem exists_run {argv : List String}
    (hends : ∀ args plan, CommandLine.read argv = .ok args →
      (Program.plan args h.read h.env).2 = .ok plan → (h.carryOut plan).result?.isSome) :
    ∃ r : Run argv h.read h.env,
      (h.run argv).code = r.code ∧ (h.run argv).output = r.output := by
  cases hread : CommandLine.read argv with
  | error stop =>
    refine ⟨.stopped stop hread, ?_⟩
    rw [run, hread]
    exact ⟨rfl, rfl⟩
  | ok args =>
    cases hplan : (Program.plan args h.read h.env).2 with
    | error e =>
      refine ⟨.unplanned args e hread hplan, ?_⟩
      simp only [run, hread, obey, hplan]
      exact ⟨rfl, rfl⟩
    | ok plan =>
      obtain ⟨result, hresult⟩ := Option.isSome_iff_exists.1 (hends args plan hread hplan)
      obtain ⟨ls, hls⟩ := h.exists_steps_carryOut plan
      have hend := Gate.result?_eq_some hresult
      refine ⟨.carriedOut args plan ls _ result hread hplan hls hend, ?_⟩
      simp only [run, hread, obey, hplan, hresult]
      cases result <;> exact ⟨rfl, rfl⟩

end Host

end PackageGate.Simulation
