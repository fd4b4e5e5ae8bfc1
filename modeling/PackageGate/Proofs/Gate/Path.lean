import Mathlib.Data.List.Chain
import PackageGate.Proofs.Gate.Moves

/-!
# The path of a run through the states

The gate writes down every state that it enters. What it has written is known in each
place where it can stand, whichever way a root has failed or the user has answered, so
the path is legal up to there, and it is complete when the run ends.

- `Gate.scanned`: the states in which some roots are scanned, one after another.
- `Gate.Phase.Path`: the states that lead to a phase.
- `Gate.Move.path`: every move goes on along such a path.
- `Gate.IsLegal`: a path that the table of transitions allows.
- `Gate.keeps_to_path`: the path of every run with roots.
-/

namespace PackageGate

namespace Gate

/-- The states of a run in which the roots `done` have been scanned. -/
def scanned (done : List Package) : List State :=
  .idle :: done.flatMap fun root => [.scanning root.display, .aggregating]

/-- One more root adds its scan and what follows it. -/
theorem scanned_concat (done : List Package) (root : Package) :
    scanned (done ++ [root]) = scanned done ++ [.scanning root.display] ++ [.aggregating] := by
  simp [scanned]

/-- The states in which scanning stops, all roots being through or one having failed. -/
inductive Stopped (roots : List Package) : List State → Prop
  | through : Stopped roots (scanned roots)
  | atOnce {done : List Package} {root : Package} {rest : List Package} :
    done ++ root :: rest = roots → Stopped roots (scanned done ++ [.scanning root.display])

end Gate

/-- The states that follow the scanning in a run with the outcome `o`. -/
inductive Outcome.Decided (o : Outcome) : List Gate.State → Prop
  | clean : o.flagged = [] → o.finalState = .clean → Decided o [.clean]
  | agreed : o.flagged ≠ [] → o.finalState = .clean → Decided o [.flagged, .clean]
  | declined : o.flagged ≠ [] → o.finalState = .blocked → o.managerCode = none →
    Decided o [.flagged, .blocked]

/-- The outcome of a run that has scanned all of `roots`, with the whole path to it. -/
def Outcome.Traced (o : Outcome) (roots : List Package) : Prop :=
  ∃ tail, o.Decided tail ∧ o.transitions = Gate.scanned roots ++ tail

namespace Gate

/-- The states that lead to the scan `s`. -/
structure Scan.Path (roots : List Package) (history : List State) (s : Scan) : Prop where
  roots : s.sessions.map (·.requested) ++ s.root :: s.remaining = roots
  history : history = scanned (s.sessions.map (·.requested)) ++ [.scanning s.root.display]

/-- The states that lead to a phase of a run with `roots`. -/
def Phase.Path (roots : List Package) (history : List State) : Phase → Prop
  | .resolving s | .looking s | .walking s _ _ | .analyzing s _ _ => s.Path roots history
  | .closing (.ok _) => history = scanned roots
  | .closing (.error _) => Stopped roots history
  | .confirming _ flagged => flagged ≠ [] ∧ history = scanned roots ++ [.flagged]
  | .installing o => o.finalState = .clean ∧ o.Traced roots ∧ history = o.transitions
  | .ended (.ok o) => o.Traced roots ∧ history = o.transitions
  | .ended (.error _) =>
    (∃ h, Stopped roots h ∧ history = h ++ [.error]) ∨
      ∃ o : Outcome, o.finalState = .clean ∧ o.Traced roots ∧ history = o.transitions

/-- The gate has come to its phase by a path through the states. -/
def OnPath (roots : List Package) (g : Gate) : Prop := g.phase.Path roots g.history

theorem path_of_scan? {roots : List Package} {history : List State} {p : Phase} {s : Scan}
    (hs : p.scan? = some s) : p.Path roots history ↔ s.Path roots history := by
  cases p with
  | resolving | looking | walking | analyzing =>
    obtain rfl := Option.some.inj hs
    exact Iff.rfl
  | closing | confirming | installing | ended => cases hs

/-! ## Moves along the path -/

variable {roots : List Package} {g g' : Gate} {l : Label}

/-- The gate goes on with the roots that remain when those before are through. -/
theorem OnPath.next {remaining : List Package} {sessions : List Session}
    (hroots : sessions.map (·.requested) ++ remaining = roots)
    (hhistory : g.history = scanned (sessions.map (·.requested))) :
    OnPath roots (g.next remaining sessions) := by
  cases remaining with
  | cons root remaining =>
    refine Scan.Path.mk hroots ?_
    show g.history ++ [.scanning root.display] = _
    rw [hhistory]
  | nil =>
    rw [List.append_nil] at hroots
    rw [hroots] at hhistory
    unfold Gate.next
    dsimp only
    split
    · show Stopped roots g.history
      rw [hhistory]
      exact .through
    · exact hhistory

/-- The end of a scan leads on with the next root, or scanning stops where it is. -/
theorem OnPath.settle {s : Scan} {result : Except Failure Session}
    (h : s.Path roots g.history)
    (hsession : ∀ session, result = .ok session → session.requested = s.root) :
    OnPath roots (g.settle s result) := by
  -- The root is through, whether its scan has succeeded or it is skipped.
  have hthrough : ∀ {h' : Gate} {session : Session}, session.requested = s.root →
      h'.history = g.history ++ [.aggregating] →
      OnPath roots (h'.next s.remaining (s.sessions ++ [session])) := by
    intro h' session hrequested hhistory
    refine .next ?_ ?_
    · rw [List.map_append, List.map_singleton, hrequested, List.append_assoc]
      exact h.roots
    · rw [hhistory, h.history, List.map_append, List.map_singleton, hrequested, scanned_concat]
  unfold Gate.settle
  cases result with
  | ok session => exact hthrough (hsession session rfl) rfl
  | error e =>
    dsimp only
    split
    · show Stopped roots g.history
      rw [h.history]
      exact .atOnce h.roots
    · exact hthrough rfl rfl

/-- Handing the command over keeps to the path of the outcome. -/
theorem OnPath.handOver {o : Outcome} (hclean : o.finalState = .clean) (htraced : o.Traced roots)
    (hhistory : g.history = o.transitions) : OnPath roots (g.handOver o) := by
  rcases handOver_cases g o with ⟨-, n, h⟩ | ⟨-, h⟩ <;> rw [h]
  · exact ⟨htraced, hhistory⟩
  · exact ⟨hclean, htraced, hhistory⟩

/-- A run whose scanning is over ends there, or goes on to a verdict. -/
theorem OnPath.decide {scanned : Except Failure (List Session)} (h : OnPath roots g)
    (hphase : g.phase = .closing scanned) : OnPath roots (g.decide scanned) := by
  unfold OnPath at h
  rw [hphase] at h
  cases scanned with
  | error e => exact .inl ⟨g.history, h, rfl⟩
  | ok sessions =>
    unfold Gate.decide
    dsimp only
    split
    · refine .handOver (getLast_concat _ _) ⟨[.clean], .clean rfl (getLast_concat _ _), ?_⟩ rfl
      show g.history ++ [.clean] = _
      rw [show g.history = Gate.scanned roots from h]
    · rename_i hne
      refine ⟨hne, ?_⟩
      show g.history ++ [.flagged] = _
      rw [show g.history = Gate.scanned roots from h]

/-- The user's answer leads from the findings to the end of the run, or to the install. -/
theorem OnPath.follow {sessions : List Session} {flagged : List Finding}
    {reply : Except Failure String} (h : OnPath roots g)
    (hphase : g.phase = .confirming sessions flagged) :
    OnPath roots (g.follow sessions flagged reply) := by
  unfold OnPath at h
  rw [hphase] at h
  obtain ⟨hne, hhistory⟩ := h
  have hagreed : ((g.advance .clean).draft sessions flagged).Traced roots := by
    refine ⟨[.flagged, .clean], .agreed hne (getLast_concat _ _), ?_⟩
    show g.history ++ [.clean] = _
    rw [hhistory, List.append_assoc]
    rfl
  have hdeclined : ((g.advance .blocked).draft sessions flagged).Traced roots := by
    refine ⟨[.flagged, .blocked], .declined hne (getLast_concat _ _) rfl, ?_⟩
    show g.history ++ [.blocked] = _
    rw [hhistory, List.append_assoc]
    rfl
  show OnPath roots (if accepts reply then _ else _)
  split
  · exact .handOver (getLast_concat _ _) hagreed rfl
  · exact ⟨hdeclined, rfl⟩

/-- Every move keeps to a path. -/
theorem Move.path (hmove : Move g l g') (h : OnPath roots g) : OnPath roots g' := by
  have hscan {s : Scan} (hs : g.phase.scan? = some s) : s.Path roots g.history :=
    (path_of_scan? hs).mp h
  cases hmove with
  | explore | analyze | tick => exact h
  | @lookUp s hphase => exact hscan (s := s) (by rw [hphase]; rfl)
  | @walk _ s _ _ hphase =>
    refine hscan (s := s) ?_
    rcases hphase with ⟨hp, -⟩ | ⟨hp, -⟩ <;> rw [hp] <;> rfl
  | @arrive s _ _ _ _ hphase => exact hscan (s := s) (by rw [hphase]; rfl)
  | @complete s _ _ hphase =>
    refine OnPath.settle (hscan (by rw [hphase]; rfl)) fun session hsession => ?_
    cases hsession
    rfl
  | fail _ hs => exact OnPath.settle (hscan hs) nofun
  | decide hphase => exact h.decide hphase
  | follow hphase => exact h.follow hphase
  | @install draft reply hphase =>
    unfold OnPath at h
    rw [hphase] at h
    obtain ⟨hclean, ⟨tail, hdecided, htransitions⟩, hhistory⟩ := h
    cases reply with
    | ok code =>
      refine ⟨⟨tail, ?_, htransitions⟩, hhistory⟩
      cases hdecided with
      | clean hnil => exact .clean hnil hclean
      | agreed hne => exact .agreed hne hclean
      | declined _ hblocked =>
        rw [hclean] at hblocked
        cases hblocked
    | error e => exact .inr ⟨draft, hclean, ⟨tail, hdecided, htransitions⟩, hhistory⟩

/-- In every state of a run with roots, the gate has kept to a path. -/
theorem onPath_of_steps {request : Request} {settings : Settings} {memo : Option Memo}
    {root : Package} {rest : List Package} {ls : List Label}
    (hroots : request.command.rootPackages = .ok (root :: rest))
    (h : Steps step (start request settings memo) ls g) : OnPath (root :: rest) g := by
  refine h.invariant (fun hg hstep => (step_move hstep).path hg) ?_
  unfold start
  rw [hroots]
  exact .next rfl rfl

/-! ## Legal paths -/

/-- A path that the table of transitions allows, and on which no state that ends a run is left. -/
structure IsLegal (history : List State) : Prop where
  begins : history.head? = some .idle
  leads : history.IsChain fun s t => s.canBecome t = true
  unended : ∀ s ∈ history.dropLast, s.isTerminal = false

/-- From a state that ends a run, no transition is allowed. -/
theorem canBecome_of_isTerminal {s : State} (h : s.isTerminal = true) (t : State) :
    s.canBecome t = false := by
  cases s with
  | idle | scanning | aggregating | flagged => cases h
  | clean | blocked | error => rfl

theorem unended_of_leads {history : List State}
    (h : history.IsChain fun s t => s.canBecome t = true) :
    ∀ s ∈ history.dropLast, s.isTerminal = false := by
  induction history with
  | nil => nofun
  | cons s history ih =>
    cases history with
    | nil => nofun
    | cons t history =>
      obtain ⟨hst, hrest⟩ := List.isChain_cons_cons.mp h
      intro u hu
      rcases List.mem_cons.mp hu with rfl | hu
      · cases hs : u.isTerminal with
        | false => rfl
        | true =>
          rw [canBecome_of_isTerminal hs] at hst
          cases hst
      · exact ih hrest u hu

/-- A legal path goes on with every state that its last one can become. -/
theorem IsLegal.concat {history : List State} {s t : State} (h : IsLegal (history ++ [s]))
    (hst : s.canBecome t = true) : IsLegal (history ++ [s] ++ [t]) := by
  have hleads : (history ++ [s] ++ [t]).IsChain fun s t => s.canBecome t = true := by
    rw [List.append_assoc]
    exact List.isChain_append_cons_cons.mpr ⟨h.leads, hst, .singleton t⟩
  refine ⟨?_, hleads, unended_of_leads hleads⟩
  have hbegins := h.begins
  cases history <;> exact hbegins

/-- One root after another may be scanned, and one more begun. -/
theorem isLegal_scanning (done : List Package) (root : Package) :
    IsLegal (scanned done ++ [.scanning root.display]) := by
  induction done using List.reverseRecOn generalizing root with
  | nil =>
    have hidle : IsLegal ([] ++ [.idle]) := ⟨rfl, .singleton _, nofun⟩
    exact hidle.concat rfl
  | append_singleton done last ih =>
    rw [scanned_concat]
    have hthrough : IsLegal (scanned done ++ [.scanning last.display] ++ [.aggregating]) :=
      (ih last).concat rfl
    exact hthrough.concat rfl

/-- When a root is through, the gate aggregates. -/
theorem exists_scanned {roots : List Package} (h : roots ≠ []) :
    ∃ history, scanned roots = history ++ [.aggregating] ∧
      IsLegal (history ++ [.aggregating]) := by
  obtain ⟨done, root, rfl⟩ : ∃ done root, roots = done ++ [root] :=
    ⟨_, _, (List.dropLast_concat_getLast h).symm⟩
  rw [scanned_concat]
  exact ⟨scanned done ++ [.scanning root.display], rfl, (isLegal_scanning done root).concat rfl⟩

/-- Wherever scanning stops, the path up to there is legal, and so is the error after it. -/
theorem Stopped.isLegal {history : List State} (hroots : roots ≠ []) (h : Stopped roots history) :
    IsLegal history ∧ IsLegal (history ++ [.error]) := by
  cases h with
  | through =>
    obtain ⟨history, hscanned, hlegal⟩ := exists_scanned hroots
    rw [hscanned]
    exact ⟨hlegal, hlegal.concat rfl⟩
  | @atOnce done root =>
    exact ⟨isLegal_scanning done root, (isLegal_scanning done root).concat rfl⟩

/-- The path to every outcome is legal. -/
theorem isLegal_of_traced {o : Outcome} (hroots : roots ≠ []) (h : o.Traced roots) :
    IsLegal o.transitions := by
  obtain ⟨tail, hdecided, htransitions⟩ := h
  obtain ⟨history, hscanned, hlegal⟩ := exists_scanned hroots
  rw [htransitions, hscanned]
  have hflagged : IsLegal (history ++ [.aggregating] ++ [.flagged]) := hlegal.concat rfl
  cases hdecided with
  | clean => exact hlegal.concat rfl
  | agreed =>
    rw [List.append_cons]
    exact hflagged.concat rfl
  | declined =>
    rw [List.append_cons]
    exact hflagged.concat rfl

/-- The gate asks about findings on no way through the roots. -/
theorem flagged_notMem_scanned (roots : List Package) : State.flagged ∉ scanned roots := by
  simp [scanned]

/-- A verdict ends the run in its last state, and was asked for exactly where it says so. -/
theorem ends_of_traced {o : Outcome} (h : o.Traced roots) :
    o.transitions.getLast? = some o.finalState ∧ o.finalState.isTerminal = true ∧
      (o.passedThroughFlagged = true ↔ o.flagged ≠ []) ∧
      (o.finalState = .blocked → o.managerCode = none) := by
  obtain ⟨tail, hdecided, htransitions⟩ := h
  have hnot := flagged_notMem_scanned roots
  rw [Outcome.passedThroughFlagged, htransitions]
  cases hdecided with
  | clean hnil hclean => simp [hnil, hclean, hnot, State.isTerminal]
  | agreed hne hclean => simp [hne, hclean, State.isTerminal]
  | declined hne hblocked hcode => simp [hne, hblocked, hcode, State.isTerminal]

/-- What the path of a run with `roots` is like, in every state of the run. -/
structure KeepsToPath (roots : List Package) (g : Gate) : Prop where
  isLegal : IsLegal g.history
  ended : ∀ result, g.result? = some result →
    ∃ s, g.history.getLast? = some s ∧ s.isTerminal = true
  outcome : ∀ o, g.result? = some (.ok o) → g.history = o.transitions ∧ o.Traced roots ∧
    o.transitions.getLast? = some o.finalState ∧ o.finalState.isTerminal = true ∧
    (o.passedThroughFlagged = true ↔ o.flagged ≠ []) ∧
    (o.finalState = .blocked → o.managerCode = none)

/-- A path through the states is legal. -/
theorem OnPath.isLegal (hroots : roots ≠ []) (h : OnPath roots g) : IsLegal g.history := by
  unfold OnPath at h
  obtain ⟨history, hend, hlegal⟩ := exists_scanned hroots
  have hscan {s : Scan} (hs : s.Path roots g.history) : IsLegal g.history := by
    rw [hs.history]
    exact isLegal_scanning _ s.root
  cases hphase : g.phase with
  | resolving s | looking s | walking s | analyzing s =>
    rw [hphase] at h
    exact hscan h
  | closing scanned =>
    rw [hphase] at h
    cases scanned with
    | ok sessions =>
      rw [show g.history = Gate.scanned roots from h, hend]
      exact hlegal
    | error e => exact (Stopped.isLegal hroots h).1
  | confirming sessions flagged =>
    rw [hphase] at h
    rw [h.2, hend]
    exact hlegal.concat rfl
  | installing o =>
    rw [hphase] at h
    rw [h.2.2]
    exact isLegal_of_traced hroots h.2.1
  | ended result =>
    rw [hphase] at h
    cases result with
    | ok o =>
      rw [h.2]
      exact isLegal_of_traced hroots h.1
    | error e =>
      rcases h with ⟨history, hstopped, hhistory⟩ | ⟨o, -, htraced, hhistory⟩ <;> rw [hhistory]
      · exact (hstopped.isLegal hroots).2
      · exact isLegal_of_traced hroots htraced

/-- A run that has ended is in a state that ends runs. -/
theorem OnPath.ended {result : Except Failure Outcome} (h : OnPath roots g)
    (hend : g.result? = some result) :
    ∃ s, g.history.getLast? = some s ∧ s.isTerminal = true := by
  unfold OnPath at h
  rw [result?_eq_some hend] at h
  cases result with
  | ok o =>
    rw [h.2]
    exact ⟨_, (ends_of_traced h.1).1, (ends_of_traced h.1).2.1⟩
  | error e =>
    rcases h with ⟨history, -, hhistory⟩ | ⟨o, -, htraced, hhistory⟩ <;> rw [hhistory]
    · exact ⟨.error, List.getLast?_concat, rfl⟩
    · exact ⟨_, (ends_of_traced htraced).1, (ends_of_traced htraced).2.1⟩

/-- **Every run is a legal path**: with at least one root, the gate enters its states along the
table of transitions in every run, and an outcome tells the whole of it. -/
theorem keeps_to_path {request : Request} {settings : Settings} {memo : Option Memo}
    {root : Package} {rest : List Package} {ls : List Label}
    (hroots : request.command.rootPackages = .ok (root :: rest))
    (h : Steps step (start request settings memo) ls g) : KeepsToPath (root :: rest) g := by
  have hpath := onPath_of_steps hroots h
  refine ⟨hpath.isLegal (List.cons_ne_nil root rest), fun _ => hpath.ended, fun o hend => ?_⟩
  unfold OnPath at hpath
  rw [result?_eq_some hend] at hpath
  exact ⟨hpath.2, hpath.1, ends_of_traced hpath.1⟩

/-- A command that names two packages, under guard. -/
def goneLeft : Request := ⟨⟨.npm, "install", ["gone@1", "left-pad@1"]⟩, false⟩

/-- A run of it in which the first package cannot be had and is skipped, and the second one is
found malicious. The user declines. -/
def goneLeftRun : List Label :=
  [.resolve, .explore (.walk 0 (.start 0)), .explore (.walk 0 (.request 0)),
    .explore (.walk 0 (.answer 0 (.error (.of (.packageMissing .npm "gone"))))), .arrive,
    .resolve, .explore (.walk 1 (.start 0)), .explore (.walk 1 (.request 0)),
    .explore (.walk 1 (.answer 0 (.ok ⟨"left-pad", "1", []⟩))), .explore (.walk 1 (.finish 0)),
    .arrive, .analyze .offer, .analyze (.listen 0), .analyze (.take 0),
    .analyze (.submitted 0 (.ok "17")),
    .analyze (.reported 0 (.ok (some ⟨some ⟨true, "steals tokens"⟩⟩))), .analyze .settle, .resume,
    .analyze (.listen 0), .analyze (.leave 0), .analyze .closed, .resume, .confirm (.ok "n")]

theorem keeps_to_path_declined : ∃ g o,
    Steps step (start goneLeft { analysisWorkers := 1, policy := .skipRoot } none) goneLeftRun g ∧
    KeepsToPath [⟨"gone", "1"⟩, ⟨"left-pad", "1"⟩] g ∧ g.result? = some (.ok o) ∧
    o.transitions = [.idle, .scanning "gone@1", .aggregating, .scanning "left-pad@1",
      .aggregating, .flagged, .blocked] := by
  have hends : (goneLeftRun.foldlM step
      (start goneLeft { analysisWorkers := 1, policy := .skipRoot } none)).map
      (fun g => g.result?.map fun r => r.toOption.map (·.transitions)) =
      some (some (some [.idle, .scanning "gone@1", .aggregating, .scanning "left-pad@1",
        .aggregating, .flagged, .blocked])) := by
    decide +kernel
  obtain ⟨g, hg, hresult⟩ := Option.map_eq_some_iff.mp hends
  obtain ⟨result, hend, hoption⟩ := Option.map_eq_some_iff.mp hresult
  have hsteps := steps_iff_foldlM.mpr hg
  cases result with
  | error e => cases hoption
  | ok o =>
    exact ⟨g, o, hsteps, keeps_to_path (by decide +kernel) hsteps, hend,
      Option.some.inj hoption⟩

end Gate

end PackageGate
