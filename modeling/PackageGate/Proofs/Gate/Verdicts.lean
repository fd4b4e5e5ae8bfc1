import PackageGate.Proofs.Gate.Decision
import PackageGate.Proofs.Queue.Feeding

/-!
# No verdict is lost

Every session of a root that did not fail goes back to a stretch of the run in which
that root was scanned. In this stretch all packages of the session were submitted, and
every malicious verdict on one of them was recorded before the stretch ended. The
findings of the stretch are still there when the gate decides.

- `Gate.Scanning`: a stretch of a run in which one root is scanned.
- `Gate.Analyzed`: the stretch behind a session; `Gate.traced_of_steps`: every session
  that did not fail has one.
- `Gate.Reported`: the report on a package that was submitted in a stretch.
- `Gate.no_verdict_lost`: what this means for an install that goes on.
-/

namespace PackageGate

namespace Gate

/-- The scan `s` has begun in the state `a`, and the steps `ls` were taken while it was going
on. -/
inductive Scanning (s : Scan) (a : Gate) : List Label → Gate → Prop
  | begins : a.phase = .resolving s → Scanning s a [] a
  | goes {ls : List Label} {m : Gate} {l : Label} {g : Gate} : Scanning s a ls m →
    step m l = some g → g.phase.scan? = some s → Scanning s a (ls ++ [l]) g

variable {s : Scan} {a b g g' g₀ m : Gate} {ls xs ys : List Label} {l : Label}

theorem Scanning.steps (h : Scanning s a ls b) : Steps step a ls b := by
  induction h with
  | begins => exact .refl
  | goes _ hstep _ ih => exact .tail ih hstep

theorem Scanning.scan?_eq (h : Scanning s a ls b) : b.phase.scan? = some s := by
  cases h with
  | begins hp =>
    rw [hp]
    rfl
  | goes _ _ hscan => exact hscan

theorem Scanning.tail_inv (h : Scanning s a (ls ++ [l]) b) :
    ∃ m, Scanning s a ls m ∧ step m l = some b := by
  generalize hks : ls ++ [l] = ks at h
  cases h with
  | begins => simp at hks
  | goes hm hstep =>
    obtain ⟨rfl, hl⟩ := List.append_inj' hks rfl
    obtain rfl : l = _ := by simpa using hl
    exact ⟨_, hm, hstep⟩

/-- A stretch is cut in two at any place. -/
theorem Scanning.split (h : Scanning s a (xs ++ ys) b) :
    ∃ m, Scanning s a xs m ∧ Steps step m ys b := by
  induction ys using List.reverseRecOn generalizing b with
  | nil =>
    rw [List.append_nil] at h
    exact ⟨b, h, .refl⟩
  | append_singleton ys l ih =>
    rw [← List.append_assoc] at h
    obtain ⟨n, hn, hstep⟩ := h.tail_inv
    obtain ⟨m, hm, hmn⟩ := ih hn
    exact ⟨m, hm, .tail hmn hstep⟩

/-- The end of a scan leaves the scan. -/
theorem settle_scan?_ne (g : Gate) (s : Scan) (result : Except Failure Session) :
    (g.settle s result).phase.scan? ≠ some s := by
  obtain ⟨ns, history, ⟨root, rest, -, h⟩ | ⟨scanned, h, -⟩⟩ := settle_cases g s result
  · rw [h]
    intro hscan
    -- The next scan has one session more.
    have hsessions : s.sessions ++ [s.outcome result] = s.sessions := by
      have hs : (⟨root, .after g.now g.settings.scanTimeout, rest,
          s.sessions ++ [s.outcome result]⟩ : Scan) = s := Option.some.inj hscan
      exact congrArg Scan.sessions hs
    simp at hsessions
  · rw [h]
    exact nofun

/-! ## The queue while a root is scanned -/

/-- What the scan that began at `a` has done to the queue so far. -/
structure Fed (a g : Gate) : Prop where
  accounted : g.queue.Accounted
  epoch_eq : g.queue.epoch = a.queue.epoch
  submissions : a.queue.submissions <+: g.queue.submissions
  feeding : ∀ s tree keys, g.phase = .analyzing s tree keys →
    Queue.Feeding a.queue.epoch a.queue.submissions keys g.queue

/-- While a scan goes on, only its keys are put into the queue. -/
theorem Fed.move (h : Fed a g) (hscan : g.phase.scan? = some s) (hmove : Move g l g')
    (hscan' : g'.phase.scan? = some s) : Fed a g' := by
  have haccounted := hmove.accounted h.accounted
  cases hmove with
  | explore => exact ⟨h.accounted, h.epoch_eq, h.submissions, h.feeding⟩
  | tick => exact ⟨h.accounted, h.epoch_eq, h.submissions, h.feeding⟩
  | @analyze m q hfree hq =>
    have hmove := Queue.step_move hq
    obtain ⟨hcall, htimeout⟩ := free_of_isFreeStep hfree
    refine ⟨haccounted, (hmove.epoch_eq htimeout).trans h.epoch_eq,
      h.submissions.trans hmove.submissions_mono, ?_⟩
    intro s tree keys hp
    exact (h.feeding s tree keys hp).move h.accounted hmove hcall htimeout
  | lookUp => exact ⟨h.accounted, h.epoch_eq, h.submissions, nofun⟩
  | walk => exact ⟨h.accounted, h.epoch_eq, h.submissions, nofun⟩
  | @arrive s' resolved i w t =>
    -- Here the feeding begins: the tree has come in, and the queue is called with its keys.
    have hfeeding : Queue.Feeding a.queue.epoch a.queue.submissions (w.settle t).flatten
        (g.queue.beginCall (.analyzeAll (w.settle t).flatten)) :=
      .of_beginCall h.epoch_eq h.submissions
    refine ⟨haccounted, hfeeding.epoch_eq, hfeeding.submissions, ?_⟩
    intro s tree keys hp
    cases hp
    exact hfeeding
  -- The end of a scan goes on with another root or with none.
  | @complete s' tree keys hp =>
    rw [hp] at hscan
    obtain rfl : s' = s := Option.some.inj hscan
    exact absurd hscan' (settle_scan?_ne _ _ _)
  | @fail _ s' x q e _ hsome =>
    rw [hsome] at hscan
    obtain rfl : s' = s := Option.some.inj hscan
    exact absurd hscan' (settle_scan?_ne _ _ _)
  | decide hp | follow hp | install hp =>
    rw [hp] at hscan
    cases hscan

theorem Scanning.fed (h : Scanning s a ls b) (ha : a.queue.Accounted) : Fed a b := by
  induction h with
  | begins hp =>
    refine ⟨ha, rfl, List.prefix_rfl, ?_⟩
    intro s' tree keys hp'
    rw [hp] at hp'
    cases hp'
  | goes hm hstep hscan ih => exact ih.move hm.scan?_eq (step_move hstep) hscan

/-! ## Reports -/

/-- In the steps `ls` from `a`, a worker submits `p`, which it has taken under the key `key`,
and the service answers it with the report `r`. -/
def Reported (a : Gate) (ls : List Label) (key : String) (p : Package) (r : Report) : Prop :=
  ∃ before between after w epoch id m n,
    ls = (before ++ [.analyze (.take w)]) ++ between ++
      .analyze (.reported w (.ok (some r))) :: after ∧
    Steps step a (before ++ [.analyze (.take w)]) m ∧
    m.queue.workers[w]? = some (.submitting ⟨key, epoch⟩ p) ∧
    Steps step m between n ∧ n.queue.workers[w]? = some (.reporting ⟨key, epoch⟩ p id)

theorem step_analyze {m : Queue.Label} (h : step g (.analyze m) = some g') :
    ∃ q, Queue.Move g.queue m q ∧ g' = { g with queue := q } := by
  simp only [step] at h
  split at h
  · obtain ⟨q, hq, rfl⟩ := Option.map_eq_some_iff.mp h
    exact ⟨q, Queue.step_move hq, rfl⟩
  · cases h

/-- A worker that has just taken an item and is submitting it has one of the current epoch. -/
theorem epoch_eq_of_take {w : Nat} {item : Queue.Item} {p : Package}
    (hstep : step g (.analyze (.take w)) = some g')
    (hw : g'.queue.workers[w]? = some (.submitting item p)) : item.epoch = g'.queue.epoch := by
  have hset : ∀ {q : Queue} {t : Queue.Worker}, (q.setWorker w t).workers[w]? =
      some (.submitting item p) → t = .submitting item p := by
    intro q t ht
    have hlt : w < q.workers.length := by
      have := (List.getElem?_eq_some_iff.mp ht).1
      simpa [Queue.setWorker] using this
    have ht' : (q.workers.set w t)[w]? = some (.submitting item p) := ht
    rw [List.getElem?_set_self hlt] at ht'
    exact Option.some.inj ht'
  obtain ⟨q, hmove, rfl⟩ := step_analyze hstep
  cases hmove with
  | discard => cases hset hw
  | reject => cases hset hw
  | submit _ _ hepoch =>
    cases hset hw
    exact hepoch

/-- A malicious verdict on a package that was submitted while a root was scanned is recorded
before the scan goes on. -/
theorem Scanning.recorded {key : String} {p : Package} {r : Report} {v : Verdict}
    (h : Scanning s a ls b) (ha : a.queue.Accounted) (hr : Reported a ls key p r)
    (hv : r.verdict? p = some v) (hmal : v.isMalicious = true) :
    b.queue.findings.contains key := by
  obtain ⟨before, between, after, w, epoch, id, m, n, rfl, hm, hwm, hmn, hwn⟩ := hr
  -- The report is not the first step, so there is a state before it, and one after it.
  obtain ⟨n', hn', hafter⟩ := h.split
  obtain ⟨u, hu, hrest⟩ := hafter.cons_inv
  obtain ⟨m', hm', hbetween⟩ := hn'.split
  have hmeq : m' = m := hm'.steps.det hm
  have hneq : n' = n := hn'.steps.det (hm.trans hmn)
  subst hmeq hneq
  have hepoch : epoch = n'.queue.epoch := by
    obtain ⟨k, -, hstep⟩ := hm'.tail_inv
    have htaken : epoch = m'.queue.epoch := epoch_eq_of_take hstep hwm
    rw [htaken, (hm'.fed ha).epoch_eq, (hn'.fed ha).epoch_eq]
  have hfound : u.queue.findings.contains key := by
    obtain ⟨q, hmove, rfl⟩ := step_analyze hu
    exact hmove.recorded hwn hepoch hv hmal
  exact Findings.contains_mono (findings_mono_of_steps hrest) hfound

/-! ## The scan behind a session -/

/-- In the run `ls` from `g₀`, the root number `i` has been scanned with the result `session`:
after `before`, the steps `scan` belong to its scan, and at their end all keys of the session
have been analyzed and the gate goes on. -/
structure AnalyzedBy (g₀ : Gate) (ls : List Label) (i : Nat) (session : Session)
    (before scan : List Label) (a b : Gate) : Prop where
  stretch : before ++ scan ++ [.resume] <+: ls
  reached : Steps step g₀ before a
  scanning : ∃ s, Scanning s a scan b ∧ s.root = session.requested ∧ s.sessions.length = i
  drained : (∃ s tree, b.phase = .analyzing s tree session.analyzedKeys) ∧
    b.queue.caller = .returned .finished

/-- There is a stretch of the run behind the session. -/
def Analyzed (g₀ : Gate) (ls : List Label) (i : Nat) (session : Session) : Prop :=
  ∃ before scan a b, AnalyzedBy g₀ ls i session before scan a b

theorem Analyzed.mono {i : Nat} {session : Session} (h : Analyzed g₀ xs i session)
    (hpre : xs <+: ys) : Analyzed g₀ ys i session := by
  obtain ⟨before, scan, a, b, hab⟩ := h
  exact ⟨before, scan, a, b, hab.stretch.trans hpre, hab.reached, hab.scanning, hab.drained⟩

/-- Every session that did not fail has a stretch behind it. -/
def AllAnalyzed (g₀ : Gate) (ls : List Label) (sessions : List Session) : Prop :=
  ∀ i session, sessions[i]? = some session → session.isFailed = false → Analyzed g₀ ls i session

theorem AllAnalyzed.mono {sessions : List Session} (h : AllAnalyzed g₀ xs sessions)
    (hpre : xs <+: ys) : AllAnalyzed g₀ ys sessions :=
  fun i session hi hok => (h i session hi hok).mono hpre

theorem AllAnalyzed.concat {sessions : List Session} {session : Session}
    (h : AllAnalyzed g₀ ls sessions)
    (hlast : session.isFailed = false → Analyzed g₀ ls sessions.length session) :
    AllAnalyzed g₀ ls (sessions ++ [session]) := by
  intro i session' hi hok
  by_cases hlt : i < sessions.length
  · rw [List.getElem?_append_left hlt] at hi
    exact h i session' hi hok
  · rw [List.getElem?_append_right (not_lt.mp hlt)] at hi
    obtain ⟨hzero, hsession⟩ := List.getElem?_eq_some_iff.mp hi
    have hi' : i = sessions.length := by
      rw [List.length_singleton] at hzero
      omega
    subst hi'
    have hsession : session = session' := by simpa using hi
    subst hsession
    exact hlast hok

/-- Where the sessions of a run come from. -/
structure Traced (g₀ : Gate) (ls : List Label) (g : Gate) : Prop where
  /-- The scan that is going on has a beginning, and the sessions before it are analyzed. -/
  scanning : ∀ s, g.phase.scan? = some s → AllAnalyzed g₀ ls s.sessions ∧
    ∃ before scan a, ls = before ++ scan ∧ Steps step g₀ before a ∧ Scanning s a scan g
  returned : ∀ sessions, g.phase = .closing (.ok sessions) → AllAnalyzed g₀ ls sessions

theorem Traced.of_decided (h : g.phase.isDecided = true) : Traced g₀ ls g := by
  cases hphase : g.phase with
  | confirming | installing | ended =>
    constructor
    · intro s hs
      rw [hphase] at hs
      cases hs
    · intro sessions hp
      rw [hphase] at hp
      cases hp
  | _ => simp [hphase, Phase.isDecided] at h

/-- A step in the background, or within a scan, goes on with what is going on. -/
theorem Traced.goes (h : Traced g₀ ls g) (hstep : step g l = some g')
    (hscan : g'.phase.scan? = g.phase.scan?)
    (hphase : ∀ r, g'.phase = .closing r → g.phase = .closing r) :
    Traced g₀ (ls ++ [l]) g' := by
  have hpre : ls <+: ls ++ [l] := List.prefix_append _ _
  constructor
  · intro s hs
    obtain ⟨hall, before, scan, a, rfl, ha, hab⟩ := h.scanning s (hscan ▸ hs)
    exact ⟨hall.mono hpre, before, scan ++ [l], a, List.append_assoc _ _ _, ha,
      .goes hab hstep hs⟩
  · intro sessions hp
    exact (h.returned sessions (hphase _ hp)).mono hpre

/-- The end of a scan adds its session to the analyzed ones. -/
theorem Traced.of_settle {result : Except Failure Session} {h : Gate}
    (hsteps : Steps step g₀ ls (h.settle s result)) (hall : AllAnalyzed g₀ ls s.sessions)
    (hlast : ∀ session, result = .ok session → Analyzed g₀ ls s.sessions.length session) :
    Traced g₀ ls (h.settle s result) := by
  have hall' : AllAnalyzed g₀ ls (s.sessions ++ [s.outcome result]) := by
    refine hall.concat fun hok => ?_
    cases result with
    | ok session => exact hlast session rfl
    | error e => cases hok
  obtain ⟨ns, history, ⟨root, rest, -, hg⟩ | ⟨scanned, hg, hends⟩⟩ := settle_cases h s result
  · rw [hg] at hsteps ⊢
    constructor
    · intro s' hs'
      obtain rfl := Option.some.inj hs'
      exact ⟨hall', ls, [], _, (List.append_nil _).symm, hsteps, .begins rfl⟩
    · exact nofun
  · rw [hg]
    constructor
    · exact nofun
    · intro sessions hp
      obtain rfl : scanned = .ok sessions := Phase.closing.inj hp
      obtain ⟨-, rfl⟩ := hends.of_ok
      exact hall'

/-- A move keeps a stretch behind every session. -/
theorem Traced.move (h : Traced g₀ ls g) (hsteps : Steps step g₀ ls g)
    (hstep : step g l = some g') : Traced g₀ (ls ++ [l]) g' := by
  have hpre : ls <+: ls ++ [l] := List.prefix_append _ _
  have hsteps' := Steps.tail hsteps hstep
  cases step_move hstep with
  | explore | analyze | tick => exact h.goes hstep rfl fun _ hp => hp
  | lookUp hp | arrive hp => exact h.goes hstep (by rw [hp]; rfl) nofun
  | walk hp =>
    refine h.goes hstep ?_ nofun
    rcases hp with ⟨hp, -⟩ | ⟨hp, -⟩ <;> rw [hp] <;> rfl
  | @complete s tree keys hp hreturned =>
    -- The stretch that is traced for the new session ends with this step.
    obtain ⟨hall, before, scan, a, rfl, ha, hab⟩ := h.scanning s (by rw [hp]; rfl)
    refine .of_settle hsteps' (hall.mono hpre) fun session hsession => ?_
    cases hsession
    exact ⟨before, scan, a, g, List.prefix_rfl, ha, ⟨s, hab, rfl, rfl⟩, ⟨s, tree, hp⟩, hreturned⟩
  | @fail _ s x q e _ hscan =>
    obtain ⟨hall, -⟩ := h.scanning s hscan
    exact .of_settle hsteps' (hall.mono hpre) nofun
  | decide => exact .of_decided (decide_isDecided g _)
  | follow => exact .of_decided (follow_isDecided g _ _ _)
  | install => exact .of_decided rfl

variable {request : Request} {settings : Settings} {memo : Option Memo} {root : Package}
  {rest : List Package}

/-- Every session of a run that did not fail has been analyzed in a stretch of the run. -/
theorem traced_of_steps (hroots : request.command.rootPackages = .ok (root :: rest))
    (h : Steps step (start request settings memo) ls g) :
    Traced (start request settings memo) ls g := by
  induction h with
  | refl =>
    have hphase : (start request settings memo).phase =
        .resolving ⟨root, .after 0 settings.scanTimeout, rest, []⟩ := by
      rw [start_of_roots hroots]
    constructor
    · intro s hs
      rw [hphase] at hs
      obtain rfl := Option.some.inj hs
      exact ⟨nofun, [], [], _, rfl, .refl, .begins hphase⟩
    · intro sessions hp
      rw [hphase] at hp
      cases hp
  | tail hsteps hstep ih => exact ih.move hsteps hstep

theorem accounted_of_steps (hroots : request.command.rootPackages = .ok (root :: rest))
    (h : Steps step (start request settings memo) ls g) : g.queue.Accounted := by
  refine h.invariant (P := fun g => g.queue.Accounted) ?_ ?_
  · intro g l g' hg hstep
    exact (step_move hstep).accounted hg
  · rw [start_of_roots hroots]
    exact Queue.accounted_ofSizes _ _

/-- A manager that was started was started after scanning, and with the user's agreement if
anything had been found. -/
theorem Course.of_started {roots : List Package} (h : Course request roots g₀ ls g)
    (hstarted : g.invocations ≠ []) :
    ∃ sessions, ScanReturned g₀ ls (.ok sessions) ∧ sessions.map (·.requested) = roots ∧
      Cleared ls g := by
  cases h with
  | scanning _ _ _ hu | closing _ _ _ hu | failed _ _ _ hu => exact absurd hu.invocations hstarted
  | asking _ _ _ _ _ _ hi | declined _ _ _ _ _ _ _ _ _ _ _ hi => exact absurd hi hstarted
  | handedOver hret hroots _ hclear => exact ⟨_, hret, hroots, hclear⟩

/-- A finding that stands against the install has been shown, and the user has said yes. -/
theorem Cleared.of_found {key : String} (h : Cleared ls g)
    (hfound : g.queue.findings.contains key) :
    ∃ flagged line, g.prompts = [flagged] ∧ key ∈ flagged.map (·.key) ∧
      Label.confirm (.ok line) ∈ ls ∧ SaysYes line := by
  obtain ⟨x, hx, hkey⟩ := Findings.contains_iff.mp hfound
  rcases h with ⟨hnil, -⟩ | ⟨-, hprompts, line, hreplies, haff⟩
  · rw [hnil] at hx
    cases hx
  · have hmem : Except.ok line ∈ replies ls := by
      rw [hreplies]
      exact List.mem_singleton_self _
    exact ⟨_, line, hprompts, List.mem_map.mpr ⟨x, hx, hkey⟩, mem_replies.mp hmem,
      isAffirmative_iff.mp haff⟩

/-- **No verdict is lost.** When the manager is started for a command with roots, each root
that did not fail has been scanned in a stretch of the run; in it every analyzed key that
names a package was submitted, and if the service called one of these malicious, the verdict
was recorded in the stretch, the user was shown its key and has said yes. In no state does
the queue report that everything is done while an item waits or is in work. -/
theorem no_verdict_lost (request : Request) (settings : Settings) (memo : Option Memo)
    {root : Package} {rest : List Package}
    (hroots : request.command.rootPackages = .ok (root :: rest)) {ls : List Label} {g : Gate}
    (h : Steps step (start request settings memo) ls g) :
    (g.invocations ≠ [] →
      ∃ sessions, ScanReturned (start request settings memo) ls (.ok sessions) ∧
        sessions.map (·.requested) = root :: rest ∧
        ∀ i session, sessions[i]? = some session → session.isFailed = false →
          ∃ before scan a b,
            AnalyzedBy (start request settings memo) ls i session before scan a b ∧
            ∀ key ∈ session.analyzedKeys, ∀ p, Package.ofSpec key = .ok p →
              Queue.SubmittedAfter a.queue.submissions b.queue p ∧
              ∀ r v, Reported a scan key p r → r.verdict? p = some v → v.isMalicious = true →
                b.queue.findings.contains key ∧
                ∃ flagged line, g.prompts = [flagged] ∧ key ∈ flagged.map (·.key) ∧
                  Label.confirm (.ok line) ∈ ls ∧ SaysYes line) ∧
    (∀ q', g.queue.step .settle = some q' → g.queue.channel = [] ∧ g.queue.held = []) := by
  constructor
  · intro hstarted
    obtain ⟨sessions, hret, hsessions, hclear⟩ := (course_of_steps hroots h).of_started hstarted
    refine ⟨sessions, hret, hsessions, fun i session hi hok => ?_⟩
    obtain ⟨pre, c, hpre, hc, hphase⟩ := hret
    have hreturned := (traced_of_steps hroots hc).returned sessions hphase i session hi hok
    obtain ⟨before, scan, a, b, hab⟩ := hreturned.mono hpre
    refine ⟨before, scan, a, b, hab, fun key hkey p hp => ?_⟩
    obtain ⟨s, hscan, -⟩ := hab.scanning
    obtain ⟨⟨s', tree, hanalyzing⟩, hreturned⟩ := hab.drained
    have ha := accounted_of_steps hroots hab.reached
    have hfeeding := (hscan.fed ha).feeding s' tree _ hanalyzing
    refine ⟨hfeeding.submitted hreturned hkey hp, fun r v hr hv hmal => ?_⟩
    have hfound := hscan.recorded ha hr hv hmal
    refine ⟨hfound, hclear.of_found ?_⟩
    -- What was found by the end of the stretch is still found now.
    obtain ⟨after, rfl⟩ := (List.prefix_append _ _).trans hab.stretch
    obtain ⟨m, hm, hafter⟩ := h.split
    have hmb : m = b := hm.det (hab.reached.trans hscan.steps)
    rw [hmb] at hafter
    exact Findings.contains_mono (findings_mono_of_steps hafter) hfound
  · intro q' hsettle
    have haccounted := accounted_of_steps hroots h
    cases Queue.step_move hsettle with
    | settle _ hpending => exact haccounted.idle hpending

theorem no_verdict_lost_agreed : ∃ g,
    oneRoot.command.rootPackages = .ok [⟨"left-pad", "1"⟩] ∧
    Steps step (start oneRoot { analysisWorkers := 1 } none) agreedRun g ∧
    g.invocations ≠ [] ∧
    ∃ sessions, ScanReturned (start oneRoot { analysisWorkers := 1 } none) agreedRun
        (.ok sessions) ∧ sessions.map (·.requested) = [⟨"left-pad", "1"⟩] := by
  have hroots : oneRoot.command.rootPackages = .ok [⟨"left-pad", "1"⟩] := by decide +kernel
  have hrun : (agreedRun.foldlM step (start oneRoot { analysisWorkers := 1 } none)).map
      Gate.invocations = some [("npm", ["install", "left-pad@1"])] := by decide +kernel
  obtain ⟨g, hg, hinv⟩ := Option.map_eq_some_iff.mp hrun
  have hsteps := steps_iff_foldlM.mpr hg
  have hstarted : g.invocations ≠ [] := by
    rw [hinv]
    exact List.cons_ne_nil _ _
  obtain ⟨hsessions, -⟩ := no_verdict_lost oneRoot { analysisWorkers := 1 } none hroots hsteps
  obtain ⟨sessions, hret, hmap, -⟩ := hsessions hstarted
  exact ⟨g, hroots, hsteps, hstarted, sessions, hret, hmap⟩

end Gate

end PackageGate
