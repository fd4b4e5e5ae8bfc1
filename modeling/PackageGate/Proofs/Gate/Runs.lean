import PackageGate.Proofs.Gate.Ledger
import PackageGate.Proofs.Roots

/-!
# Whole runs in a world

A run that has ended has either failed to scan, or it has come to the conclusion that sessions,
findings, the user's answer and the package manager's exit leave it.

- `Gate.Run`: a run of a request in a world.
- `Gate.Run.scanned`: what the end of scanning says of the findings that the run ends with.
- `Gate.Concluded`: what a run comes to once scanning has gone through.
- `Gate.Course.ended`, `Gate.Run.ended`: every run with roots that has ended has failed to scan
  or come to its conclusion.
- `Gate.Alike`: two runs come to the same; `Gate.Concluded.alike`: what makes them so.
-/

namespace PackageGate

/-- Nothing that is asked for while `root` is scanned has a name with an `@` behind the first
character. -/
def World.Plain (v : World) (root : Package) : Prop :=
  ∀ p, v.resolve root = .ok p → ∀ q, v.catalog.Asked p q → '@' ∉ q.name.toList.tail

namespace Gate

/-- The steps `ls` lead to `g`, from the beginning of a run of `request`, which names `roots`. -/
structure Run (v : World) (request : Request) (settings : Settings) (memo : Option Memo)
    (roots : List Package) (ls : List Label) (g : Gate) : Prop where
  rooted : request.command.rootPackages = .ok roots
  remembers : v.Remembers memo
  steps : Steps (stepIn v) (start request settings memo) ls g

variable {v : World} {request request' : Request} {settings : Settings} {memo : Option Memo}
  {root : Package} {roots rest : List Package} {ls ls' : List Label} {g g' g₀ : Gate}
  {late : List Nat} {i : Nat} {sessions sessions' : List Session} {session : Session}
  {flagged : List Finding} {f f' : Findings} {policy : RootFailurePolicy}
  {result result' : Except Failure Outcome} {r : Except Failure (List Session)} {l : Label}

/-! ## What the world fixes of a run -/

theorem resolve_name {p : Package} (h : v.resolve root = .ok p) : p.name = root.name := by
  unfold World.resolve at h
  split at h
  · rename_i p' hdirect
    cases h
    unfold Resolution.direct? at hdirect
    split at hdirect
    · cases hdirect
    · cases hdirect
      rfl
  · unfold Resolution.ofLatest at h
    split at h <;> cases h
    rfl

/-- The roots of a command have names, so the catalog is regular from them on. -/
theorem regular_of_plain (hrooted : request.command.rootPackages = .ok roots)
    (hstable : v.catalog.Stable) (hplain : ∀ root ∈ roots, v.Plain root) :
    ∀ root ∈ roots, ∀ p, v.resolve root = .ok p → v.catalog.Regular p := by
  intro root hroot p hp
  refine Catalog.regular_of_nonblank hstable ?_ (hplain root hroot p hp)
  rw [resolve_name hp]
  exact InstallCommand.nonblank_of_rootPackages hrooted root hroot

theorem ledger_start (hrooted : request.command.rootPackages = .ok (root :: rest))
    (hmemo : v.Remembers memo) : Ledger v (root :: rest) [] (start request settings memo) := by
  rw [start_of_roots hrooted]
  refine ⟨hmemo, Queue.reliable_ofSizes _ _ _, .exploring rfl (book_nil v) ?_
    (Queue.quiet_ofSizes _ _) nofun nofun⟩
  exact fun _ _ hsession => absurd hsession List.not_mem_nil

theorem Run.course (h : Run v request settings memo (root :: rest) ls g) :
    Course request (root :: rest) (start request settings memo) ls g :=
  course_of_steps h.rooted (steps_of_stepIn h.steps)

/-- In every state of a run, what has been entered is what the world says. -/
theorem Run.ledger (h : Run v request settings memo (root :: rest) ls g)
    (hregular : ∀ r ∈ root :: rest, ∀ p, v.resolve r = .ok p → v.catalog.Regular p) :
    Ledger v (root :: rest) (expired (start request settings memo) ls) g := by
  obtain ⟨hrooted, hmemo, hsteps⟩ := h
  induction hsteps with
  | refl => exact ledger_start hrooted hmemo
  | tail hm hstep ih =>
    have hm' := steps_of_stepIn hm
    have hmove := step_moveIn ih.memo (fun _ => ih.page.looking) hstep
    rw [expired, gather_concat hm' (step_of_stepIn hstep).2]
    exact ih.move hmove hregular fun s hs => ((course_of_steps hrooted hm').of_scan hs).1

/-- After the decision the queue is at rest. -/
theorem Course.atRest (h : Course request roots g₀ ls g) (hdecided : g.phase.isDecided = true) :
    g.queue.AtRest := by
  cases h with
  | scanning hscan =>
    cases hphase : g.phase with
    | confirming | installing | ended =>
      rw [hphase] at hscan
      cases hscan
    | _ => simp [hphase, Phase.isDecided] at hdecided
  | closing hp => simp [hp, Phase.isDecided] at hdecided
  | failed _ _ _ _ hrest | asking _ _ _ _ _ _ _ hrest | declined _ _ _ _ _ _ _ _ _ _ _ _ hrest
  | handedOver _ _ _ _ _ hrest => exact hrest

/-- A step after scanning changes no findings, unless the queue has still to settle what it was
called for. -/
theorem MoveIn.same_findings (h : MoveIn v g l g') (hscan : g.phase.scan? = none)
    (hqueue : g.queue.Quiet ∧ g.queue.Valid ∨ g.queue.AtRest) :
    g.expiry? l = none ∧ ∀ y, y ∈ g'.queue.findings.snapshot ↔ y ∈ g.queue.findings.snapshot := by
  cases h with
  | explore | tick | install => exact ⟨rfl, fun _ => Iff.rfl⟩
  | @analyze k q hcall htimeout hstep =>
    refine ⟨rfl, ?_⟩
    have hstep := (Queue.step_of_stepUnder hstep).2
    rcases hqueue with ⟨hquiet, hvalid⟩ | hrest
    · exact (hquiet.move (Queue.step_move hstep) hvalid hcall htimeout).2
    · rw [hrest.step_eq_none] at hstep
      cases hstep
  | decide =>
    rw [(decide_beside g _).queue]
    exact ⟨rfl, fun _ => Iff.rfl⟩
  | follow =>
    rw [(follow_beside g _ _ _).queue]
    exact ⟨rfl, fun _ => Iff.rfl⟩
  | walk _ hs | unresolved _ hs | late hs =>
    rw [Phase.scan?_of_exploring? hs] at hscan
    cases hscan
  | lookUp hp | arrive hp | unfetched hp | complete hp | cancel hp =>
    rw [hp] at hscan
    cases hscan

/-- Between the end of scanning and the decision the queue settles nothing any more, and after
the decision it is at rest. -/
theorem Run.settled (h : Run v request settings memo (root :: rest) ls g)
    (hregular : ∀ r ∈ root :: rest, ∀ p, v.resolve r = .ok p → v.catalog.Regular p)
    (hlate : g.phase = .closing r ∨ g.phase.isDecided = true) :
    g.phase.scan? = none ∧ (g.queue.Quiet ∧ g.queue.Valid ∨ g.queue.AtRest) := by
  rcases hlate with hphase | hdecided
  · have hledger := h.ledger hregular
    exact ⟨by rw [hphase]; rfl, .inl ⟨(hledger.page.of_closing hphase).2, hledger.reliable.valid⟩⟩
  · refine ⟨?_, .inr (h.course.atRest hdecided)⟩
    cases hphase : g.phase with
    | confirming | installing | ended => rfl
    | _ => simp [hphase, Phase.isDecided] at hdecided

/-- What scanning has come to, when it ends. -/
theorem Run.closing (h : Run v request settings memo (root :: rest) ls g)
    (hregular : ∀ r ∈ root :: rest, ∀ p, v.resolve r = .ok p → v.catalog.Regular p)
    (hphase : g.phase = .closing r) :
    Scanned v (root :: rest) settings.policy (expired (start request settings memo) ls)
      g.queue.findings r := by
  have hsettings : g.settings = settings := by
    have hstart := settings_of_steps (steps_of_stepIn h.steps)
    rw [start_of_roots h.rooted] at hstart
    exact hstart
  obtain ⟨hscanned, -⟩ := (h.ledger hregular).page.of_closing hphase
  rwa [hsettings] at hscanned

/-- **What scanning has come to**, it still says of the findings at the end of the run. -/
theorem Run.scanned (h : Run v request settings memo (root :: rest) ls g)
    (hregular : ∀ r ∈ root :: rest, ∀ p, v.resolve r = .ok p → v.catalog.Regular p)
    (hret : ScanReturned (start request settings memo) ls r) :
    Scanned v (root :: rest) settings.policy (expired (start request settings memo) ls)
      g.queue.findings r := by
  obtain ⟨hrooted, hmemo, hsteps⟩ := h
  induction hsteps with
  | refl =>
    obtain ⟨pre, a, hpre, ha, hphase⟩ := hret
    obtain rfl := List.prefix_nil.mp hpre
    obtain rfl := ha.nil_inv
    exact Run.closing ⟨hrooted, hmemo, .refl⟩ hregular hphase
  | @tail ls m l u hm hstep ih =>
    have hm' := steps_of_stepIn hm
    obtain ⟨pre, a, hpre, ha, hphase⟩ := hret
    rcases List.prefix_concat_iff.mp hpre with rfl | hpre
    · -- Scanning ends with the last step.
      have hu := Steps.tail hm hstep
      rw [ha.det (steps_of_stepIn hu)] at hphase
      exact Run.closing ⟨hrooted, hmemo, hu⟩ hregular hphase
    · -- Scanning had ended before, and the steps since then leave the findings as they are.
      have hret : ScanReturned (start request settings memo) ls r := ⟨pre, a, hpre, ha, hphase⟩
      have hrun : Run v request settings memo (root :: rest) ls m := ⟨hrooted, hmemo, hm⟩
      have hledger := hrun.ledger hregular
      have hmove := step_moveIn hledger.memo (fun _ => hledger.page.looking) hstep
      obtain ⟨hscan, hqueue⟩ := hrun.settled hregular (hret.late hm')
      obtain ⟨hexpiry, hsame⟩ := hmove.same_findings hscan hqueue
      rw [expired, gather_concat hm' (step_of_stepIn hstep).2, hexpiry, Option.toList_none,
        List.append_nil]
      exact (ih hret).congr hsame

/-! ## The conclusion -/

/-- How a run ends once scanning has gone through: blocked, shown, or with the manager's end. -/
inductive Verdict (request : Request) (sessions : List Session) (flagged : List Finding)
    (ls : List Label) (g : Gate) : Except Failure Outcome → Prop
  | blocked {o : Outcome} {reply : Except Failure String} : flagged ≠ [] →
    .confirm reply ∈ ls → accepts reply = false → o.finalState = .blocked →
    o.managerCode = none → o.sessions = sessions → o.flagged = flagged → g.invocations = [] →
    Verdict request sessions flagged ls g (.ok o)
  | shown {o : Outcome} : (flagged = [] ∨ ∃ reply, .confirm reply ∈ ls ∧ accepts reply = true) →
    request.isDryRun = true → o.Clears sessions flagged → g.invocations = [] →
    Verdict request sessions flagged ls g (.ok o)
  | installed {o : Outcome} {reply : Except Failure Int} :
    (flagged = [] ∨ ∃ reply, .confirm reply ∈ ls ∧ accepts reply = true) →
    request.isDryRun = false → .install reply ∈ ls → o.Clears sessions flagged →
    g.invocations = [request.invocation] →
    Verdict request sessions flagged ls g (request.installed o reply)

/-- What a run has come to with the sessions `sessions` and the findings `flagged`. -/
structure Concluded (request : Request) (sessions : List Session) (flagged : List Finding)
    (ls : List Label) (g : Gate) (result : Except Failure Outcome) : Prop where
  prompts : g.prompts = if flagged = [] then [] else [flagged]
  verdict : Verdict request sessions flagged ls g result

/-- A command that was handed over has been shown or has come to the manager's end. -/
theorem HandedOver.verdict {o : Outcome} (h : HandedOver request ls o g)
    (hagreed : flagged = [] ∨ ∃ reply, .confirm reply ∈ ls ∧ accepts reply = true)
    (hclears : o.Clears sessions flagged) (hend : g.result? = some result) :
    Verdict request sessions flagged ls g result := by
  have hphase := result?_eq_some hend
  cases h with
  | shown hdry hp hinv =>
    obtain rfl := Phase.ended.inj (hphase.symm.trans hp)
    exact .shown hagreed hdry hclears hinv
  | running _ hp =>
    rw [hphase] at hp
    cases hp
  | ended hdry hreply hp hinv =>
    obtain rfl := Phase.ended.inj (hphase.symm.trans hp)
    exact .installed hagreed hdry hreply hclears hinv

/-- A run with roots that has ended has failed to scan, or has come to its conclusion. -/
theorem Course.ended (h : Course request roots g₀ ls g) (hend : g.result? = some result) :
    (∃ e, ScanReturned g₀ ls (.error e) ∧ result = .error e ∧ g.prompts = [] ∧
      g.invocations = []) ∨
    ∃ sessions, ScanReturned g₀ ls (.ok sessions) ∧
      Concluded request sessions g.queue.findings.snapshot ls g result := by
  have hphase := result?_eq_some hend
  cases h with
  | scanning hs | closing hs | asking _ _ hs => simp [hphase, Phase.scan?] at hs
  | @failed e hret hp _ hu =>
    obtain rfl := Phase.ended.inj (hphase.symm.trans hp)
    exact .inl ⟨e, hret, rfl, hu.prompts, hu.invocations⟩
  | @declined sessions reply o hret _ hp hfs hmc hs hf hne hr hacc hpr hi =>
    obtain rfl := Phase.ended.inj (hphase.symm.trans hp)
    have hreply : Label.confirm reply ∈ ls := by
      rw [← mem_replies, hr]
      exact List.mem_singleton_self _
    exact .inr ⟨sessions, hret, by rw [hpr, if_neg hne],
      .blocked hne hreply hacc hfs hmc hs hf hi⟩
  | @handedOver sessions o hret _ hclears hclear hover =>
    refine .inr ⟨sessions, hret, ?_⟩
    rcases hclear with ⟨hnil, hpr, -⟩ | ⟨hne, hpr, line, hr, hacc⟩
    · exact ⟨by rw [hpr, if_pos hnil], hover.verdict (.inl hnil) hclears hend⟩
    · have hreply : Label.confirm (.ok line) ∈ ls := by
        rw [← mem_replies, hr]
        exact List.mem_singleton_self _
      exact ⟨by rw [hpr, if_neg hne], hover.verdict (.inr ⟨_, hreply, hacc⟩) hclears hend⟩

/-- What a run with roots has come to in the world, once it has ended. -/
theorem Run.ended (h : Run v request settings memo roots ls g) (hroots : roots ≠ [])
    (hstable : v.catalog.Stable) (hplain : ∀ root ∈ roots, v.Plain root)
    (hend : g.result? = some result) :
    (∃ e, Scanned v roots settings.policy (expired (start request settings memo) ls)
        g.queue.findings (.error e) ∧
      result = .error e ∧ g.prompts = [] ∧ g.invocations = []) ∨
    ∃ sessions, ScanReturned (start request settings memo) ls (.ok sessions) ∧
      Scanned v roots settings.policy (expired (start request settings memo) ls)
        g.queue.findings (.ok sessions) ∧
      Concluded request sessions g.queue.findings.snapshot ls g result := by
  have hregular := regular_of_plain h.rooted hstable hplain
  obtain ⟨root, rest, rfl⟩ := List.exists_cons_of_ne_nil hroots
  rcases h.course.ended hend with ⟨e, hret, hfailed⟩ | ⟨sessions, hret, hconcluded⟩
  · exact .inl ⟨e, h.scanned hregular hret, hfailed⟩
  · exact .inr ⟨sessions, hret, h.scanned hregular hret, hconcluded⟩

theorem Run.isSorted (h : Run v request settings memo roots ls g) :
    g.queue.findings.IsSorted := by
  refine isSorted_of_steps (steps_of_stepIn h.steps) ?_
  rw [start_queue]
  exact Findings.isSorted_empty

/-- A run without roots comes to its conclusion at once. -/
theorem concluded_of_rootless (hrooted : request.command.rootPackages = .ok [])
    (h : Steps step (start request settings memo) ls g) (hend : g.result? = some result) :
    Concluded request [] [] ls g result := by
  obtain ⟨hsilent, -, o, hclears, hover⟩ := silent_of_rootless hrooted h
  exact ⟨hsilent.prompts, hover.verdict (.inl rfl) hclears hend⟩

/-! ## Two runs -/

/-- Two results are the same, up to the order of the sessions and of the keys in them. -/
inductive SameResult : Except Failure Outcome → Except Failure Outcome → Prop
  | failed {e : Failure} : SameResult (.error e) (.error e)
  | ended {o o' : Outcome} : o.finalState = o'.finalState → o.flagged = o'.flagged →
    o.managerCode = o'.managerCode → o.exitCode = o'.exitCode →
    (∃ sessions, o.sessions.Perm sessions ∧ List.Forall₂ Session.Agrees sessions o'.sessions) →
    (o.sessions.map (·.requested) = o'.sessions.map (·.requested) →
      List.Forall₂ Session.Agrees o.sessions o'.sessions) → SameResult (.ok o) (.ok o')

/-- Two runs ask the same, both start the manager or neither does, and they end with the same
result. -/
structure Alike (request request' : Request) (g g' : Gate)
    (result result' : Except Failure Outcome) : Prop where
  prompts : g.prompts = g'.prompts
  invocations : (g.invocations = [] ∧ g'.invocations = []) ∨
    (g.invocations = [request.invocation] ∧ g'.invocations = [request'.invocation])
  result : SameResult result result'

/-- The sessions agree root by root: in the same order, where the roots stand in the same order. -/
def SameSessions (sessions sessions' : List Session) : Prop :=
  (∃ ss, sessions.Perm ss ∧ List.Forall₂ Session.Agrees ss sessions') ∧
    (sessions.map (·.requested) = sessions'.map (·.requested) →
      List.Forall₂ Session.Agrees sessions sessions')

theorem sameResult_of_fields {o o' : Outcome} (hstate : o.finalState = o'.finalState)
    (hflagged : o.flagged = o'.flagged) (hcode : o.managerCode = o'.managerCode)
    (hsessions : SameSessions o.sessions o'.sessions) : SameResult (.ok o) (.ok o') := by
  refine .ended hstate hflagged hcode ?_ hsessions.1 hsessions.2
  rw [Outcome.exitCode, Outcome.exitCode, hstate, hcode]

/-- What the user and the package manager answer in the run `ls`, as far as they are asked. -/
structure Answered (reply : Except Failure String) (exit : Except Failure Int)
    (ls : List Label) : Prop where
  confirm : ∀ a, .confirm a ∈ ls → a = reply
  install : ∀ a, .install a ∈ ls → a = exit

/-- The user's answer decides whether an install is agreed to. -/
theorem Answered.agreed {reply : Except Failure String} {exit : Except Failure Int}
    (h : Answered reply exit ls)
    (hagreed : flagged = [] ∨ ∃ a, Label.confirm a ∈ ls ∧ accepts a = true) :
    flagged = [] ∨ accepts reply = true := by
  refine hagreed.imp_right ?_
  rintro ⟨a, hmem, hacc⟩
  rw [← h.confirm a hmem]
  exact hacc

theorem sameResult_of_clears {o o' : Outcome} (h : o.Clears sessions flagged)
    (h' : o'.Clears sessions' flagged) (hsessions : SameSessions sessions sessions') :
    SameResult (.ok o) (.ok o') := by
  refine sameResult_of_fields (h.finalState.trans h'.finalState.symm)
    (h.flagged.trans h'.flagged.symm) (h.managerCode.trans h'.managerCode.symm) ?_
  rw [h.sessions, h'.sessions]
  exact hsessions

/-- The manager's end makes the same of outcomes that are the same. -/
theorem sameResult_installed {o o' : Outcome} (h : o.Clears sessions flagged)
    (h' : o'.Clears sessions' flagged) (hsessions : SameSessions sessions sessions')
    (hmanager : request'.command.manager = request.command.manager)
    (exit : Except Failure Int) :
    SameResult (request.installed o exit) (request'.installed o' exit) := by
  cases exit with
  | error e =>
    rw [Request.installed, Request.installed, hmanager]
    exact .failed
  | ok code =>
    refine sameResult_of_fields (h.finalState.trans h'.finalState.symm)
      (h.flagged.trans h'.flagged.symm) rfl ?_
    show SameSessions o.sessions o'.sessions
    rw [h.sessions, h'.sessions]
    exact hsessions

/-- Verdicts on the same findings are the same, whatever run they come from. -/
theorem Verdict.alike {reply : Except Failure String} {exit : Except Failure Int}
    (h : Verdict request sessions flagged ls g result)
    (h' : Verdict request' sessions' flagged ls' g' result')
    (hmanager : request'.command.manager = request.command.manager)
    (hdry : request'.isDryRun = request.isDryRun) (hsessions : SameSessions sessions sessions')
    (ha : Answered reply exit ls) (ha' : Answered reply exit ls') :
    ((g.invocations = [] ∧ g'.invocations = []) ∨
      (g.invocations = [request.invocation] ∧ g'.invocations = [request'.invocation])) ∧
      SameResult result result' := by
  -- The same answer cannot block the one run and let the other one go on.
  have hrefused : ∀ {a : Except Failure String}, flagged ≠ [] → a = reply → accepts a = false →
      ¬(flagged = [] ∨ accepts reply = true) := by
    rintro a hne rfl hacc (hnil | haccepts)
    · exact hne hnil
    · rw [hacc] at haccepts
      cases haccepts
  cases h with
  | @blocked o a hne hmem hacc hstate hcode hs hf hinv =>
    have hrefuse := hrefused hne (ha.confirm a hmem) hacc
    cases h' with
    | blocked _ _ _ hstate' hcode' hs' hf' hinv' =>
      refine ⟨.inl ⟨hinv, hinv'⟩, sameResult_of_fields (hstate.trans hstate'.symm)
        (hf.trans hf'.symm) (hcode.trans hcode'.symm) ?_⟩
      rw [hs, hs']
      exact hsessions
    | shown hagreed' | installed hagreed' => exact absurd (ha'.agreed hagreed') hrefuse
  | @shown o hagreed hshow hclears hinv =>
    cases h' with
    | blocked hne' hmem' hacc' =>
      exact absurd (ha.agreed hagreed) (hrefused hne' (ha'.confirm _ hmem') hacc')
    | shown _ _ hclears' hinv' =>
      exact ⟨.inl ⟨hinv, hinv'⟩, sameResult_of_clears hclears hclears' hsessions⟩
    | installed _ hshow' =>
      rw [hdry, hshow] at hshow'
      cases hshow'
  | @installed o a hagreed hshow hmem hclears hinv =>
    obtain rfl := ha.install a hmem
    cases h' with
    | blocked hne' hmem' hacc' =>
      exact absurd (ha.agreed hagreed) (hrefused hne' (ha'.confirm _ hmem') hacc')
    | shown _ hshow' =>
      rw [hdry, hshow] at hshow'
      cases hshow'
    | @installed o' a' _ _ hmem' hclears' hinv' =>
      obtain rfl := ha'.install a' hmem'
      refine ⟨.inr ⟨hinv, hinv'⟩, ?_⟩
      exact sameResult_installed hclears hclears' hsessions hmanager a'

/-- **Two runs come to the same** when they have found the same and entered the same sessions,
and the user and the manager answer alike. -/
theorem Concluded.alike {reply : Except Failure String} {exit : Except Failure Int}
    (h : Concluded request sessions flagged ls g result)
    (h' : Concluded request' sessions' flagged ls' g' result')
    (hmanager : request'.command.manager = request.command.manager)
    (hdry : request'.isDryRun = request.isDryRun) (hsessions : SameSessions sessions sessions')
    (ha : Answered reply exit ls) (ha' : Answered reply exit ls') :
    Alike request request' g g' result result' := by
  obtain ⟨hinvocations, hresult⟩ := h.verdict.alike h'.verdict hmanager hdry hsessions ha ha'
  exact ⟨h.prompts.trans h'.prompts.symm, hinvocations, hresult⟩

end Gate

end PackageGate
