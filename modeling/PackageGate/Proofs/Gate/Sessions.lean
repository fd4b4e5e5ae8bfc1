import PackageGate.Proofs.Arguments
import PackageGate.Proofs.Gate.Runs
import PackageGate.Proofs.Tree

/-!
# A session for every package argument

A run that ends well has one session for each package that the command names, in order. A session
whose scan went through was entered when the packages of its root's tree had all been analyzed, and
says what had been found of them until then. The findings grow while later roots are scanned; with
a service that always answers alike, this changes nothing of what is known of earlier ones.

- `Gate.Completes`: the session that a state leads to; `Gate.Move.entered_cases`: which sessions a
  step enters, and `Gate.sourced_of_steps`: where all sessions of a run come from.
- `Gate.stepServed`: the steps of the gate with a service that always answers alike, and
  `Gate.Assayed`: what is known of the queue then.
- `Gate.Recounts`: what a session says; `Gate.sessions_match`: the sessions of a run.
-/

namespace PackageGate

namespace Gate

variable {g g' g₀ b : Gate} {l : Label} {ls pre : List Label} {s : Scan} {session : Session}
  {result : Except Failure Session} {i : Nat} {key : String} {oracle : Queue.Oracle}

/-! ## Sessions that are entered -/

/-- The sessions that have been entered so far. -/
def Phase.entered : Phase → List Session
  | .resolving s | .looking s | .walking s _ _ | .analyzing s _ _ => s.sessions
  | .closing (.ok sessions) => sessions
  | _ => []

/-- All packages of a root have been analyzed, and its session is the next one. -/
def Completes (g : Gate) (session : Session) : Prop :=
  ∃ s tree keys, g.phase = .analyzing s tree keys ∧ g.queue.caller = .returned .finished ∧
    session = g.session s tree keys

theorem Phase.entered_of_scan {p : Phase} (h : p.scan? = some s) : p.entered = s.sessions := by
  cases p with
  | resolving | looking | walking | analyzing =>
    cases h
    rfl
  | closing | confirming | installing | ended => cases h

theorem Phase.entered_of_isDecided {p : Phase} (h : p.isDecided = true) : p.entered = [] := by
  cases p with
  | confirming | installing | ended => rfl
  | resolving | looking | walking | analyzing | closing => cases h

theorem entered_settle (g : Gate) (s : Scan) (result : Except Failure Session) :
    (g.settle s result).phase.entered = [] ∨
      (g.settle s result).phase.entered = s.sessions ++ [s.outcome result] := by
  obtain ⟨ns, history, ⟨root, rest, -, h⟩ | ⟨scanned, h, hends⟩⟩ := settle_cases g s result
  · rw [h]
    exact .inr rfl
  · rw [h]
    cases scanned with
    | error e => exact .inl rfl
    | ok sessions =>
      obtain ⟨-, rfl⟩ := hends.of_ok
      exact .inr rfl

/-- A step enters one session at most: that of a root whose packages have all been analyzed, or one
that says that a scan has failed. -/
theorem Move.entered_cases (hmove : Move g l g') :
    g'.phase.entered = g.phase.entered ∨ g'.phase.entered = [] ∨
      ∃ session, g'.phase.entered = g.phase.entered ++ [session] ∧
        (session.isFailed = true ∨ l = .resume ∧ Completes g session) := by
  cases hmove with
  | explore | analyze | tick => exact .inl rfl
  | lookUp hp | arrive hp =>
    rw [hp]
    exact .inl rfl
  | walk hp =>
    left
    rcases hp with ⟨hp, -⟩ | ⟨hp, -⟩ <;> rw [hp] <;> rfl
  | @complete s tree keys hp hreturned =>
    refine .inr ((entered_settle g s _).imp_right fun h => ⟨g.session s tree keys, ?_, .inr ?_⟩)
    · rw [h, hp]
      rfl
    · exact ⟨rfl, s, tree, keys, hp, hreturned, rfl⟩
  | @fail _ s x q e _ hscan =>
    refine .inr ((entered_settle _ s _).imp_right fun h => ⟨s.outcome (.error e), ?_, .inl rfl⟩)
    rw [h, Phase.entered_of_scan hscan]
  | decide => exact .inr (.inl (Phase.entered_of_isDecided (decide_isDecided g _)))
  | follow => exact .inr (.inl (Phase.entered_of_isDecided (follow_isDecided g _ _ _)))
  | install => exact .inr (.inl rfl)

/-- The session number `i` was entered in the run `ls` from `g₀`, with the step that takes the end
of its scan. -/
def Sourced (g₀ : Gate) (ls : List Label) (i : Nat) (session : Session) : Prop :=
  ∃ pre b, pre ++ [.resume] <+: ls ∧ Steps step g₀ pre b ∧ b.phase.entered.length = i ∧
    Completes b session

/-- Every session that did not fail was entered when its packages had been analyzed. -/
theorem sourced_of_steps (h : Steps step g₀ ls g) (h₀ : g₀.phase.entered = [])
    (hi : g.phase.entered[i]? = some session) (hok : session.isFailed = false) :
    Sourced g₀ ls i session := by
  induction h with
  | refl =>
    rw [h₀] at hi
    cases hi
  | @tail ls m l u hm hstep ih =>
    have hmono : Sourced g₀ ls i session → Sourced g₀ (ls ++ [l]) i session := by
      rintro ⟨pre, b, hpre, hb⟩
      exact ⟨pre, b, hpre.trans (List.prefix_append _ _), hb⟩
    rcases (step_move hstep).entered_cases with hsame | hnone | ⟨last, hlast, hwhy⟩
    · exact hmono (ih (hsame ▸ hi))
    · rw [hnone] at hi
      cases hi
    · rw [hlast] at hi
      rcases Nat.lt_trichotomy i m.phase.entered.length with hlt | rfl | hlt
      · rw [List.getElem?_append_left hlt] at hi
        exact hmono (ih hi)
      · rw [List.getElem?_concat_length] at hi
        obtain rfl := Option.some.inj hi
        obtain ⟨rfl, hcompletes⟩ := hwhy.resolve_left (by rw [hok]; exact Bool.false_ne_true)
        exact ⟨ls, m, List.prefix_rfl, hm, rfl, hcompletes⟩
      · rw [List.getElem?_eq_none (by rw [List.length_append]; exact hlt)] at hi
        cases hi

/-! ## The keys of a session -/

/-- Whether the packages of a root are being analyzed. -/
def Phase.isAnalyzing : Phase → Bool
  | .analyzing .. => true
  | _ => false

theorem Phase.ne_analyzing {p : Phase} (h : p.isAnalyzing = false) (s : Scan) (tree : Tree)
    (keys : List String) : p ≠ .analyzing s tree keys := by
  rintro rfl
  cases h

theorem Phase.isAnalyzing_of_isDecided {p : Phase} (h : p.isDecided = true) :
    p.isAnalyzing = false := by
  cases p with
  | confirming | installing | ended => rfl
  | resolving | looking | walking | analyzing | closing => cases h

theorem isAnalyzing_settle (g : Gate) (s : Scan) (result : Except Failure Session) :
    (g.settle s result).phase.isAnalyzing = false := by
  obtain ⟨ns, history, ⟨root, rest, -, h⟩ | ⟨scanned, h, -⟩⟩ := settle_cases g s result
  · rw [h]
    rfl
  · rw [h]
    rfl

/-- The keys that are analyzed are those of the tree. -/
def Keyed (g : Gate) : Prop :=
  ∀ s tree keys, g.phase = .analyzing s tree keys → keys = tree.flatten

/-- A move keeps the keys those of the tree. -/
theorem Keyed.move (h : Keyed g) (hmove : Move g l g') : Keyed g' := by
  intro s tree keys hp
  cases hmove with
  | explore | analyze | tick => exact h s tree keys hp
  | lookUp | walk => cases hp
  | arrive =>
    cases hp
    rfl
  | complete | fail => exact absurd hp (Phase.ne_analyzing (isAnalyzing_settle _ _ _) _ _ _)
  | decide =>
    refine absurd hp (Phase.ne_analyzing ?_ _ _ _)
    exact Phase.isAnalyzing_of_isDecided (decide_isDecided g _)
  | follow =>
    refine absurd hp (Phase.ne_analyzing ?_ _ _ _)
    exact Phase.isAnalyzing_of_isDecided (follow_isDecided g _ _ _)
  | install => cases hp

/-! ## A service that always answers alike -/

/-- Whether a label, where it is an answer of the service, is the oracle's. -/
def servedBy (oracle : Queue.Oracle) (g : Gate) : Label → Bool
  | .analyze l => g.queue.obeys oracle l
  | _ => true

/-- The steps of the gate where the service answers as the oracle says. -/
def stepServed (oracle : Queue.Oracle) (g : Gate) (l : Label) : Option Gate :=
  if g.servedBy oracle l then g.step l else none

theorem step_of_stepServed (h : g.stepServed oracle l = some g') :
    g.servedBy oracle l = true ∧ g.step l = some g' := by
  unfold stepServed at h
  split at h
  · exact ⟨‹_›, h⟩
  · cases h

theorem steps_of_stepServed (h : Steps (stepServed oracle) g₀ ls g) : Steps step g₀ ls g :=
  h.mono fun hstep => (step_of_stepServed hstep).2

/-- What the queue has found the service says, too. Only one scan at a time has items in it that
are not given up. -/
inductive Assayed (oracle : Queue.Oracle) (g : Gate) : Prop
  | quiet : g.phase.isAnalyzing = false → g.queue.Quiet → g.queue.Reliable oracle →
    Assayed oracle g
  | analyzing {s : Scan} {tree : Tree} {keys : List String} {q₀ : Queue} :
    g.phase = .analyzing s tree keys → Queue.Analysis oracle keys q₀ g.queue → Assayed oracle g

/-- What the queue has found the service says, whatever the gate does. -/
theorem Assayed.reliable (h : Assayed oracle g) : g.queue.Reliable oracle := by
  cases h with
  | quiet _ _ hreliable => exact hreliable
  | analyzing _ hanalysis => exact hanalysis.reliable_now

theorem Assayed.of_settle (hquiet : g.queue.Quiet) (hreliable : g.queue.Reliable oracle) (s : Scan)
    (result : Except Failure Session) : Assayed oracle (g.settle s result) := by
  have hnot := isAnalyzing_settle g s result
  obtain ⟨ns, history, ⟨root, rest, -, h⟩ | ⟨scanned, h, -⟩⟩ := settle_cases g s result
  · rw [h] at hnot ⊢
    exact .quiet hnot hquiet hreliable
  · rw [h] at hnot ⊢
    exact .quiet hnot hquiet.shutdown (hreliable.beginCall .shutdown)

theorem Assayed.of_decided (hdecided : g'.phase.isDecided = true) (hbeside : Beside g g')
    (hquiet : g.queue.Quiet) (hreliable : g.queue.Reliable oracle) : Assayed oracle g' :=
  .quiet (Phase.isAnalyzing_of_isDecided hdecided) (hbeside.queue ▸ hquiet)
    (hbeside.queue ▸ hreliable)

theorem Assayed.of_not_analyzing (h : Assayed oracle g)
    (hnot : g.phase.isAnalyzing = false) : g.queue.Quiet := by
  cases h with
  | quiet _ hquiet => exact hquiet
  | analyzing hp => exact absurd hp (Phase.ne_analyzing hnot _ _ _)

/-- During an analysis the queue is at its keys, and nobody interferes. -/
theorem Assayed.of_analyzing {tree : Tree} {keys : List String} (h : Assayed oracle g)
    (hp : g.phase = .analyzing s tree keys) : ∃ q₀, Queue.Analysis oracle keys q₀ g.queue := by
  cases h with
  | quiet hnot => exact absurd hp (Phase.ne_analyzing hnot _ _ _)
  | analyzing hp' hanalysis =>
    rw [hp] at hp'
    cases hp'
    exact ⟨_, hanalysis⟩

/-- A move with the service's answers finds nothing that the service does not say. -/
theorem Assayed.move (h : Assayed oracle g) (hserved : g.servedBy oracle l = true)
    (hmove : Move g l g') : Assayed oracle g' := by
  cases hmove with
  | explore | tick =>
    cases h with
    | quiet hnot hquiet hreliable => exact .quiet hnot hquiet hreliable
    | analyzing hp hanalysis => exact .analyzing hp hanalysis
  | @analyze k q hfree hq =>
    obtain ⟨hcall, htimeout⟩ := free_of_isFreeStep hfree
    have hq' : g.queue.stepUnder oracle k = some q := by
      rw [Queue.stepUnder, if_pos (show g.queue.obeys oracle k = true from hserved), hq]
    cases h with
    | quiet hnot hquiet hreliable =>
      exact .quiet hnot (hquiet.move (Queue.step_move hq) hreliable.valid hcall htimeout).1
        (hreliable.step hq')
    | analyzing hp hanalysis => exact .analyzing hp (hanalysis.step hq' hcall htimeout)
  | lookUp hp => exact .quiet rfl (h.of_not_analyzing (by rw [hp]; rfl)) h.reliable
  | walk hp =>
    refine .quiet rfl (h.of_not_analyzing ?_) h.reliable
    rcases hp with ⟨hp, -⟩ | ⟨hp, -⟩ <;> rw [hp] <;> rfl
  | arrive hp =>
    have hquiet := h.of_not_analyzing (by rw [hp]; rfl)
    exact .analyzing rfl (.begun h.reliable hquiet _)
  | complete hp hreturned =>
    obtain ⟨q₀, hanalysis⟩ := h.of_analyzing hp
    exact .of_settle (hanalysis.quiet hreturned) hanalysis.reliable_now _ _
  | @fail _ s x q e _ hscan hqueue =>
    rcases hqueue with ⟨rfl, hnot⟩ | ⟨⟨tree, keys, hp⟩, hq⟩
    · have hquiet : g.queue.Quiet := by
        refine h.of_not_analyzing ?_
        cases hp : g.phase with
        | analyzing s' tree keys =>
          rw [hp] at hscan
          cases hscan
          exact absurd hp (hnot tree keys)
        | resolving | looking | walking | closing | confirming | installing | ended => rfl
      exact .of_settle (g := { g with explorer := x }) hquiet h.reliable s _
    · obtain ⟨q₀, hanalysis⟩ := h.of_analyzing hp
      obtain ⟨hquiet, hreliable, -⟩ := hanalysis.cancelled hq
      exact .of_settle (g := { g with explorer := x, queue := q }) hquiet hreliable s _
  | decide hp =>
    exact .of_decided (decide_isDecided g _) (decide_beside g _)
      (h.of_not_analyzing (by rw [hp]; rfl)) h.reliable
  | follow hp =>
    exact .of_decided (follow_isDecided g _ _ _) (follow_beside g _ _ _)
      (h.of_not_analyzing (by rw [hp]; rfl)) h.reliable
  | install hp => exact .quiet rfl (h.of_not_analyzing (by rw [hp]; rfl)) h.reliable

/-- When all packages of a root have been analyzed, it is found of them what the service says. -/
theorem Assayed.contains_iff (h : Assayed oracle b) (hcompletes : Completes b session)
    (hkey : key ∈ session.analyzedKeys) :
    b.queue.findings.contains key = true ↔ (oracle.finding? key).isSome = true := by
  obtain ⟨s, tree, keys, hp, hreturned, rfl⟩ := hcompletes
  obtain ⟨q₀, hanalysis⟩ := h.of_analyzing hp
  rw [Findings.contains_iff, Option.isSome_iff_exists]
  constructor
  · rintro ⟨y, hy, rfl⟩
    exact ⟨y, h.reliable.sound y hy⟩
  · rintro ⟨y, hy⟩
    obtain rfl := Queue.Oracle.finding?_key hy
    exact ⟨y, (hanalysis.mem_findings hreturned).mpr (.inr ⟨hkey, hy⟩), rfl⟩

variable {request : Request} {settings : Settings} {memo : Option Memo} {root : Package}
  {rest : List Package} {sessions : List Session} {flagged : List Finding} {o : Outcome}

/-- In a run that the service answers all findings are the service's, and the scans have the queue
to themselves. -/
theorem assayed_of_steps (hroots : request.command.rootPackages = .ok (root :: rest))
    (h : Steps (stepServed oracle) (start request settings memo) ls g) : Assayed oracle g := by
  refine h.invariant (P := Assayed oracle) ?_ ?_
  · intro g l g' hg hstep
    obtain ⟨hserved, hstep⟩ := step_of_stepServed hstep
    exact hg.move hserved (step_move hstep)
  · rw [start_of_roots hroots]
    exact .quiet rfl (Queue.quiet_ofSizes _ _) (Queue.reliable_ofSizes _ _ _)

/-- In a run the keys that are analyzed are those of the tree at hand. -/
theorem keyed_of_steps (hroots : request.command.rootPackages = .ok (root :: rest))
    (h : Steps step (start request settings memo) ls g) : Keyed g := by
  refine h.invariant (P := Keyed) (fun hg hstep => hg.move (step_move hstep)) ?_
  rw [start_of_roots hroots]
  exact nofun

/-! ## What a session says -/

/-- The session number `i` of a run says what had been found of the packages of its root when they
had all been analyzed. In the end the run has found what is `flagged`. -/
structure Recounts (g₀ : Gate) (ls : List Label) (i : Nat) (session : Session)
    (flagged : List Finding) : Prop where
  head_eq : ∃ p, session.resolved = some p ∧ session.analyzedKeys.head? = some p.key
  nodup : session.analyzedKeys.Nodup
  flaggedKeys_eq : ∃ pre b s tree, pre ++ [.resume] <+: ls ∧ Steps step g₀ pre b ∧
    b.phase = .analyzing s tree session.analyzedKeys ∧ s.root = session.requested ∧
    s.sessions.length = i ∧ b.queue.caller = .returned .finished ∧
    session.flaggedKeys = session.analyzedKeys.filter b.queue.findings.contains
  flagged_of_mem : ∀ key ∈ session.flaggedKeys, key ∈ flagged.map (·.key)
  status_iff : session.status = .flagged ↔ session.flaggedKeys ≠ []

/-- A session is flagged exactly if one of its keys is. -/
theorem status_session (g : Gate) (s : Scan) (tree : Tree) (keys : List String) :
    (g.session s tree keys).status = .flagged ↔ (g.session s tree keys).flaggedKeys ≠ [] := by
  rw [session, Session.completed]
  cases keys.filter g.queue.findings.contains <;> simp

/-- What has been found in a run is still known at its end. -/
theorem contains_of_earlier (h : Steps step g₀ ls g) (hpre : pre <+: ls) (hb : Steps step g₀ pre b)
    (hkey : b.queue.findings.contains key = true) : g.queue.findings.contains key = true := by
  obtain ⟨after, rfl⟩ := hpre
  obtain ⟨m, hm, hafter⟩ := h.split
  obtain rfl := hm.det hb
  exact Findings.contains_mono (findings_mono_of_steps hafter) hkey

/-- A session that was entered in a run says what had been found by then. -/
theorem Sourced.recounts (hroots : request.command.rootPackages = .ok (root :: rest))
    (h : Steps step (start request settings memo) ls g)
    (hsourced : Sourced (start request settings memo) ls i session) :
    Recounts (start request settings memo) ls i session g.queue.findings.snapshot := by
  obtain ⟨pre, b, hpre, hb, hi, s, tree, keys, hp, hreturned, rfl⟩ := hsourced
  have hkeys : keys = tree.flatten := keyed_of_steps hroots hb s tree keys hp
  have hlength : s.sessions.length = i := by
    rw [← hi, hp]
    rfl
  refine {
    head_eq := ⟨tree.package, rfl, ?_⟩
    nodup := ?_
    flaggedKeys_eq := ⟨pre, b, s, tree, hpre, hb, hp, rfl, hlength, hreturned, rfl⟩
    flagged_of_mem := fun key hkey => ?_
    status_iff := status_session b s tree keys }
  · show keys.head? = some tree.package.key
    rw [hkeys, Tree.head?_flatten]
  · show keys.Nodup
    rw [hkeys]
    exact Tree.nodup_flatten tree
  · have hfound := contains_of_earlier h ((List.prefix_append _ _).trans hpre) hb
      (List.mem_filter.mp hkey).2
    obtain ⟨y, hy, hykey⟩ := Findings.contains_iff.mp hfound
    exact List.mem_map.mpr ⟨y, hy, hykey⟩

/-- With a service that always answers alike, a session tells the findings on its keys that the run
has in the end. -/
theorem Sourced.flaggedKeys_eq (hroots : request.command.rootPackages = .ok (root :: rest))
    (h : Steps (stepServed oracle) (start request settings memo) ls g)
    (hsourced : Sourced (start request settings memo) ls i session) :
    session.flaggedKeys =
      session.analyzedKeys.filter (g.queue.findings.snapshot.map (·.key)).contains := by
  have hsteps := steps_of_stepServed h
  obtain ⟨pre, b, hpre, hb, -, hcompletes⟩ := hsourced
  have hpre' : pre <+: ls := (List.prefix_append _ _).trans hpre
  have hassayed : Assayed oracle b := by
    obtain ⟨after, rfl⟩ := hpre'
    obtain ⟨m, hm, -⟩ := h.split
    rw [← (steps_of_stepServed hm).det hb]
    exact assayed_of_steps hroots hm
  have hknown : ∀ key ∈ session.analyzedKeys, b.queue.findings.contains key =
      (g.queue.findings.snapshot.map (·.key)).contains key := by
    intro key hkey
    rw [Bool.eq_iff_iff, List.contains_iff_mem, List.mem_map]
    constructor
    · exact fun hfound => Findings.contains_iff.mp (contains_of_earlier hsteps hpre' hb hfound)
    · rintro ⟨y, hy, rfl⟩
      -- The finding may have come from a later root; the service said the same before.
      rw [hassayed.contains_iff hcompletes hkey, (assayed_of_steps hroots h).reliable.sound y hy]
      rfl
  have hflagged : session.flaggedKeys = session.analyzedKeys.filter b.queue.findings.contains := by
    obtain ⟨s, tree, keys, -, -, rfl⟩ := hcompletes
    rfl
  rw [hflagged]
  exact List.filter_congr hknown

theorem Verdict.of_ok (h : Verdict request sessions flagged ls g (.ok o)) :
    o.sessions = sessions ∧ o.flagged = flagged := by
  generalize hresult : (.ok o : Except Failure Outcome) = result at h
  cases h with
  | blocked _ _ _ _ _ hsessions hflagged =>
    cases hresult
    exact ⟨hsessions, hflagged⟩
  | shown _ _ hclears =>
    cases hresult
    exact ⟨hclears.sessions, hclears.flagged⟩
  | @installed o' reply _ _ _ hclears =>
    cases reply with
    | error e => cases hresult
    | ok code =>
      cases hresult
      exact ⟨hclears.sessions, hclears.flagged⟩

/-- **Every package argument gets its session, and nothing else does.** The arguments of a command
have one role each; those that name packages are the roots of the sessions, in order. A session that
did not fail begins with the key of the version that was scanned, repeats no key, and tells those
that had been found when its scan was at its end. With a service that always answers alike, these
are the ones that are found in the end. -/
theorem sessions_match (request : Request) (settings : Settings) (memo : Option Memo)
    {root : Package} {rest : List Package}
    (hroots : request.command.rootPackages = .ok (root :: rest)) {ls : List Label} {g : Gate}
    {o : Outcome} (h : Steps step (start request settings memo) ls g)
    (hend : g.result? = some (.ok o)) :
    (∃! roles, InstallCommand.Arranged request.command.manager request.command.args roles) ∧
    (∀ roles, InstallCommand.Arranged request.command.manager request.command.args roles →
      List.Forall₂
        (fun arg session => InstallCommand.readPackage request.command.manager.ecosystem arg =
          .ok session.requested)
        (InstallCommand.packagesIn roles request.command.args) o.sessions) ∧
    (∀ i session, o.sessions[i]? = some session → session.isFailed = false →
      Recounts (start request settings memo) ls i session o.flagged) ∧
    ∀ oracle, Steps (stepServed oracle) (start request settings memo) ls g →
      ∀ session ∈ o.sessions, session.isFailed = false →
        session.flaggedKeys = session.analyzedKeys.filter (o.flagged.map (·.key)).contains := by
  have hcourse := course_of_steps hroots h
  rcases hcourse.ended hend with ⟨e, -, hfailed, -⟩ | ⟨sessions, hret, hconcluded⟩
  · cases hfailed
  obtain ⟨rfl, hflagged⟩ := hconcluded.verdict.of_ok
  have hsourced : ∀ i session, o.sessions[i]? = some session → session.isFailed = false →
      Sourced (start request settings memo) ls i session := by
    intro i session hi hok
    obtain ⟨pre, a, hpre, ha, hphase⟩ := hret
    have hentered : a.phase.entered = o.sessions := by
      rw [hphase]
      rfl
    have hbefore : (start request settings memo).phase.entered = [] := by
      rw [start_of_roots hroots]
      rfl
    obtain ⟨pre', b, hpre', hb⟩ := sourced_of_steps ha hbefore (hentered ▸ hi) hok
    exact ⟨pre', b, hpre'.trans hpre, hb⟩
  rw [hflagged]
  refine ⟨InstallCommand.existsUnique_arranged _ _, fun roles harranged => ?_, ?_, ?_⟩
  · have hread := InstallCommand.forall₂_rootPackages.mp hroots
    rw [← hcourse.sessions_eq h hret, List.forall₂_map_right_iff] at hread
    rwa [← InstallCommand.packageArguments_eq (InstallCommand.isInstall_of_rootPackages hroots
      (List.cons_ne_nil _ _)) harranged]
  · exact fun i session hi hok => (hsourced i session hi hok).recounts hroots h
  · intro oracle hserved session hmem hok
    obtain ⟨i, hi⟩ := List.mem_iff_getElem?.mp hmem
    exact (hsourced i session hi hok).flaggedKeys_eq hroots hserved

/-- A command with a flag that takes a value, which looks like a flag itself, and two packages. -/
def taggedRoots : Request :=
  ⟨⟨.npm, "install", ["--tag", "--registry", "left-pad@1", "right-pad@2"]⟩, false⟩

/-- A service that calls every package malicious. -/
def alarmed : Queue.Oracle :=
  ⟨fun _ => .ok "17", fun _ => .ok (some ⟨some ⟨true, "steals tokens"⟩⟩)⟩

/-- The steps of the scan number `i`, of the package `p` without dependencies. -/
def alarmedScan (i : Nat) (p : Package) : List Label :=
  [.resolve, .explore (.walk i (.start 0)), .explore (.walk i (.request 0)),
    .explore (.walk i (.answer 0 (.ok ⟨p.name, p.version, []⟩))), .explore (.walk i (.finish 0)),
    .arrive, .analyze .offer, .analyze (.listen 0), .analyze (.take 0),
    .analyze (.submitted 0 (alarmed.submit p)), .analyze (.reported 0 (alarmed.report "17")),
    .analyze .settle, .resume]

/-- A run of the command in which the user agrees. -/
def taggedRun : List Label :=
  alarmedScan 0 ⟨"left-pad", "1"⟩ ++ alarmedScan 1 ⟨"right-pad", "2"⟩ ++
    [.analyze (.listen 0), .analyze (.leave 0), .analyze .closed, .resume, .confirm (.ok "y"),
      .install (.ok 0)]

/-- The sessions of the two packages, of which each tells what is found of its own. -/
def taggedSessions : List Session :=
  [.completed ⟨"left-pad", "1"⟩ ⟨"left-pad", "1"⟩ ["left-pad@1"] ["left-pad@1"],
    .completed ⟨"right-pad", "2"⟩ ⟨"right-pad", "2"⟩ ["right-pad@2"] ["right-pad@2"]]

/-- Both packages are found malicious, the second one after the session of the first was entered. -/
theorem sessions_match_tagged : ∃ g o,
    Steps (stepServed alarmed) (start taggedRoots { analysisWorkers := 1 } none) taggedRun g ∧
    g.result? = some (.ok o) ∧ o.sessions = taggedSessions ∧
    o.flagged.map (·.key) = ["left-pad@1", "right-pad@2"] ∧
    List.Forall₂ (fun arg session => InstallCommand.readPackage .npm arg = .ok session.requested)
      ["left-pad@1", "right-pad@2"] o.sessions ∧
    (∀ i session, taggedSessions[i]? = some session →
      Recounts (start taggedRoots { analysisWorkers := 1 } none) taggedRun i session o.flagged) ∧
    ∀ session ∈ taggedSessions,
      session.flaggedKeys = session.analyzedKeys.filter (o.flagged.map (·.key)).contains := by
  have hroots : taggedRoots.command.rootPackages =
      .ok [⟨"left-pad", "1"⟩, ⟨"right-pad", "2"⟩] := by decide +kernel
  have hrun : ((taggedRun.foldlM (stepServed alarmed)
      (start taggedRoots { analysisWorkers := 1 } none)).bind fun g =>
        g.result?.bind fun result => result.toOption.map fun o =>
          (o.sessions, o.flagged.map (·.key))) =
      some (taggedSessions, ["left-pad@1", "right-pad@2"]) := by
    decide +kernel
  obtain ⟨g, hg, hresult⟩ := Option.bind_eq_some_iff.mp hrun
  obtain ⟨result, hend, houtcome⟩ := Option.bind_eq_some_iff.mp hresult
  obtain ⟨o, ho, hseen⟩ := Option.map_eq_some_iff.mp houtcome
  obtain ⟨hsessions, hflagged⟩ := Prod.mk.inj hseen
  obtain rfl : result = .ok o := by
    cases result with
    | error e => cases ho
    | ok o' => rw [Option.some.inj ho]
  have hserved := steps_iff_foldlM.mpr hg
  obtain ⟨-, hpaired, hrecounts, hfixed⟩ := sessions_match taggedRoots { analysisWorkers := 1 } none
    hroots (steps_of_stepServed hserved) hend
  have hunfailed : ∀ session ∈ taggedSessions, session.isFailed = false := by decide
  rw [hsessions] at hrecounts hfixed
  refine ⟨g, o, hserved, hend, hsessions, hflagged, ?_, fun i session hi => ?_,
    fun session hmem => ?_⟩
  · exact hpaired _ (InstallCommand.arranged_rolesFrom .npm _)
  · exact hrecounts i session hi (hunfailed session (List.mem_of_getElem? hi))
  · exact hfixed alarmed hserved session hmem (hunfailed session hmem)

end Gate

end PackageGate
