import PackageGate.Proofs.Gate.Moves

/-!
# The course of a run

A run with roots scans, closes the queue, decides, and perhaps asks and hands the
command over. In each of these places it is known what the gate has done to its
outside so far, what the user has answered, and what scanning came to.

- `Gate.Course`: the places, with what is known in each.
- `Gate.Course.move`: every move leads from a place to a place.
- `Gate.course_of_steps`: so every state of a run with roots is in one of them.
- `Gate.scanReturned_unique`: scanning comes to one end only.
-/

namespace PackageGate

/-- How the package manager is started for a request. -/
def Request.invocation (r : Request) : String × List String :=
  (r.command.manager.program, r.command.arguments)

namespace Gate

/-- The user's answer that a step brings. -/
def Label.reply? : Label → Option (Except Failure String)
  | .confirm reply => some reply
  | _ => none

/-- The user's answers in a run, in order. -/
def replies (ls : List Label) : List (Except Failure String) := ls.filterMap Label.reply?

/-- The places of the gate after it has decided about the install. -/
def Phase.isDecided : Phase → Bool
  | .confirming _ _ | .installing _ | .ended _ => true
  | _ => false

/-- In the run `ls` from `g₀`, scanning has come to an end with `r`. -/
def ScanReturned (g₀ : Gate) (ls : List Label) (r : Except Failure (List Session)) : Prop :=
  ∃ pre h, pre <+: ls ∧ Steps step g₀ pre h ∧ h.phase = .closing r

theorem ScanReturned.mono {g₀ : Gate} {ls : List Label} {r : Except Failure (List Session)}
    (h : ScanReturned g₀ ls r) (l : Label) : ScanReturned g₀ (ls ++ [l]) r := by
  obtain ⟨pre, g, hpre, hsteps, hphase⟩ := h
  exact ⟨pre, g, hpre.trans (List.prefix_append _ _), hsteps, hphase⟩

/-- The user has not been asked, and nothing has been started. -/
structure Untouched (g : Gate) : Prop where
  prompts : g.prompts = []
  invocations : g.invocations = []

/-- The queue has been told to stop. -/
def Closing (q : Queue) : Prop := q.isOpen = false ∧ (q.caller = .closing ∨ q.AtRest)

/-- The command has been handed over with the steps `ls`, or shown in a dry run. -/
inductive HandedOver (request : Request) (ls : List Label) (o : Outcome) (g : Gate) : Prop
  | shown : request.isDryRun = true → g.phase = .ended (.ok o) → g.invocations = [] →
    HandedOver request ls o g
  | running : request.isDryRun = false → g.phase = .installing o →
    g.invocations = [request.invocation] → HandedOver request ls o g
  | ended {reply : Except Failure Int} : request.isDryRun = false → .install reply ∈ ls →
    g.phase = .ended (request.installed o reply) → g.invocations = [request.invocation] →
    HandedOver request ls o g

/-- Nothing stands against the install: nothing was found, or the user has agreed to all
that was found. -/
def Cleared (ls : List Label) (g : Gate) : Prop :=
  (g.queue.findings.snapshot = [] ∧ g.prompts = [] ∧ replies ls = []) ∨
  (g.queue.findings.snapshot ≠ [] ∧ g.prompts = [g.queue.findings.snapshot] ∧
    ∃ line, replies ls = [.ok line] ∧ isAffirmative line = true)

/-- Where a run of `request` stands that began at `g₀` and has taken the steps `ls`. -/
inductive Course (request : Request) (roots : List Package) (g₀ : Gate) (ls : List Label)
    (g : Gate) : Prop
  | scanning {s : Scan} : g.phase.scan? = some s →
    s.sessions.map (·.requested) ++ s.root :: s.remaining = roots → replies ls = [] →
    Untouched g → Course request roots g₀ ls g
  | closing {r : Except Failure (List Session)} : g.phase = .closing r →
    (∀ sessions, r = .ok sessions → sessions.map (·.requested) = roots) → replies ls = [] →
    Untouched g → Closing g.queue → Course request roots g₀ ls g
  | failed {e : Failure} : ScanReturned g₀ ls (.error e) → g.phase = .ended (.error e) →
    replies ls = [] → Untouched g → g.queue.AtRest → Course request roots g₀ ls g
  | asking {sessions : List Session} : ScanReturned g₀ ls (.ok sessions) →
    sessions.map (·.requested) = roots →
    g.phase = .confirming sessions g.queue.findings.snapshot → g.queue.findings.snapshot ≠ [] →
    replies ls = [] → g.prompts = [g.queue.findings.snapshot] → g.invocations = [] →
    g.queue.AtRest → Course request roots g₀ ls g
  | declined {sessions : List Session} {reply : Except Failure String} {o : Outcome} :
    ScanReturned g₀ ls (.ok sessions) → sessions.map (·.requested) = roots →
    g.phase = .ended (.ok o) → o.finalState = .blocked → o.managerCode = none →
    o.sessions = sessions → o.flagged = g.queue.findings.snapshot →
    g.queue.findings.snapshot ≠ [] → replies ls = [reply] → accepts reply = false →
    g.prompts = [g.queue.findings.snapshot] → g.invocations = [] →
    g.queue.AtRest → Course request roots g₀ ls g
  | handedOver {sessions : List Session} {o : Outcome} : ScanReturned g₀ ls (.ok sessions) →
    sessions.map (·.requested) = roots → o.Clears sessions g.queue.findings.snapshot →
    Cleared ls g → HandedOver request ls o g → g.queue.AtRest → Course request roots g₀ ls g

/-! ## Events -/

/-- What is told is of no other kind. -/
theorem filterMap_told {β : Type} (f : Event → Option β) (hf : ∀ n, f (.told n) = none)
    (ns : List Notice) : (ns.map Event.told).filterMap f = [] := by
  refine List.filterMap_eq_nil_iff.mpr fun e he => ?_
  obtain ⟨n, -, rfl⟩ := List.mem_map.mp he
  exact hf n

theorem prompts_of_told {g g' : Gate} {ns : List Notice}
    (h : g'.events = g.events ++ ns.map .told) : g'.prompts = g.prompts := by
  rw [prompts, prompts, h, List.filterMap_append, filterMap_told _ (fun _ => rfl),
    List.append_nil]

theorem invocations_of_told {g g' : Gate} {ns : List Notice}
    (h : g'.events = g.events ++ ns.map .told) : g'.invocations = g.invocations := by
  rw [invocations, invocations, h, List.filterMap_append, filterMap_told _ (fun _ => rfl),
    List.append_nil]

theorem Untouched.of_told {g g' : Gate} {ns : List Notice} (hg : Untouched g)
    (h : g'.events = g.events ++ ns.map .told) : Untouched g' :=
  ⟨(prompts_of_told h).trans hg.prompts, (invocations_of_told h).trans hg.invocations⟩

theorem Untouched.of_same {g g' : Gate} (hg : Untouched g) (h : g'.events = g.events) :
    Untouched g' := by
  have hg' : g'.events = g.events ++ ([] : List Notice).map .told := by simpa using h
  exact hg.of_told hg'

theorem replies_concat_of_none {ls : List Label} {l : Label} (h : l.reply? = none) :
    replies (ls ++ [l]) = replies ls := by
  simp [replies, h]

/-! ## Places and moves -/

variable {request : Request} {roots : List Package} {g₀ g g' : Gate} {ls : List Label} {l : Label}

/-- A queue that has been told to stop goes on stopping. -/
theorem Closing.move {q q' : Queue} {l : Queue.Label} (h : Closing q) (hl : isFreeStep l = true)
    (hstep : q.step l = some q') : Closing q' := by
  obtain ⟨hopen, hcaller | hrest⟩ := h
  · cases Queue.step_move hstep with
    | call _ hopen' => simp [hopen] at hopen'
    | offer _ hoffer => simp [hcaller, Queue.Caller.offer?] at hoffer
    | settle hc | abandon hc => simp [hcaller] at hc
    | cancel hc => simp [hcaller] at hc
    | closed _ hexit => exact ⟨hopen, .inr ⟨rfl, hexit, hopen⟩⟩
    | @reported w item p id reply =>
      rcases Queue.judge_eq q item p reply with hj | ⟨_, hj⟩ <;> rw [hj] <;>
        exact ⟨hopen, .inl hcaller⟩
    | _ => exact ⟨hopen, .inl hcaller⟩
  · rw [hrest.step_eq_none l] at hstep
    cases hstep

/-- A step in the background leaves a run where it is. -/
theorem Course.background (h : Course request roots g₀ ls g) (hphase : g'.phase = g.phase)
    (hevents : g'.events = g.events) (hl : l.reply? = none)
    (hclosing : Closing g.queue → Closing g'.queue)
    (hrest : g.queue.AtRest → g'.queue = g.queue) : Course request roots g₀ (ls ++ [l]) g' := by
  have hprompts : g'.prompts = g.prompts := by rw [prompts, prompts, hevents]
  have hinv : g'.invocations = g.invocations := by rw [invocations, invocations, hevents]
  have hreplies : replies (ls ++ [l]) = replies ls := replies_concat_of_none hl
  cases h with
  | scanning hscan hroots hr hu =>
    exact .scanning (hphase ▸ hscan) hroots (hreplies.trans hr) (hu.of_same hevents)
  | closing hp hroots hr hu hc =>
    exact .closing (hphase ▸ hp) hroots (hreplies.trans hr) (hu.of_same hevents) (hclosing hc)
  | failed hret hp hr hu hq =>
    have hqueue := hrest hq
    exact .failed (hret.mono l) (hphase ▸ hp) (hreplies.trans hr) (hu.of_same hevents)
      (hqueue ▸ hq)
  | asking hret hroots hp hne hr hpr hi hq =>
    have hqueue := hrest hq
    rw [← hqueue] at hp hne hpr hq
    exact .asking (hret.mono l) hroots (hphase ▸ hp) hne (hreplies.trans hr) (hprompts ▸ hpr)
      (hinv ▸ hi) hq
  | declined hret hroots hp hfs hmc hs hf hne hr hacc hpr hi hq =>
    have hqueue := hrest hq
    rw [← hqueue] at hne hpr hq hf
    exact .declined (hret.mono l) hroots (hphase ▸ hp) hfs hmc hs hf hne (hreplies.trans hr) hacc
      (hprompts ▸ hpr) (hinv ▸ hi) hq
  | handedOver hret hroots hs hclear hover hq =>
    have hqueue := hrest hq
    rw [← hqueue] at hq hs
    refine .handedOver (hret.mono l) hroots hs ?_ ?_ hq
    · unfold Cleared at hclear ⊢
      rw [hprompts, hreplies, hqueue]
      exact hclear
    · cases hover with
      | shown hd hp hi => exact .shown hd (hphase ▸ hp) (hinv ▸ hi)
      | running hd hp hi => exact .running hd (hphase ▸ hp) (hinv ▸ hi)
      | ended hd hreply hp hi =>
        exact .ended hd (List.mem_append_left _ hreply) (hphase ▸ hp) (hinv ▸ hi)

/-- What is known while a root is scanned. -/
theorem Course.of_scan (h : Course request roots g₀ ls g) {s : Scan}
    (hs : g.phase.scan? = some s) :
    s.sessions.map (·.requested) ++ s.root :: s.remaining = roots ∧ replies ls = [] ∧
      Untouched g := by
  cases h with
  | scanning hscan hroots hr hu =>
    rw [hs] at hscan
    cases hscan
    exact ⟨hroots, hr, hu⟩
  | closing hp | failed _ hp | asking _ _ hp | declined _ _ hp => simp [hp, Phase.scan?] at hs
  | handedOver _ _ _ _ hover =>
    cases hover with
    | shown _ hp | running _ hp | ended _ _ hp => simp [hp, Phase.scan?] at hs

/-- What is known while the queue is stopped. -/
theorem Course.of_closing (h : Course request roots g₀ ls g) {r : Except Failure (List Session)}
    (hphase : g.phase = .closing r) :
    (∀ sessions, r = .ok sessions → sessions.map (·.requested) = roots) ∧ replies ls = [] ∧
      Untouched g ∧ Closing g.queue := by
  cases h with
  | scanning hscan => simp [hphase, Phase.scan?] at hscan
  | closing hp hroots hr hu hc =>
    rw [hphase] at hp
    cases hp
    exact ⟨hroots, hr, hu, hc⟩
  | failed _ hp | asking _ _ hp | declined _ _ hp => simp [hphase] at hp
  | handedOver _ _ _ _ hover =>
    cases hover with
    | shown _ hp | running _ hp | ended _ _ hp => simp [hphase] at hp

/-- The session of a scan is for its root, however it ended. -/
theorem requested_outcome {s : Scan} {result : Except Failure Session}
    (h : ∀ session, result = .ok session → session.requested = s.root) :
    (s.outcome result).requested = s.root := by
  cases result with
  | ok session => exact h session rfl
  | error => rfl

/-- The end of a scan goes on with the next root, or stops the queue. -/
theorem Course.of_settle {s : Scan} {result : Except Failure Session}
    (hroots : s.sessions.map (·.requested) ++ s.root :: s.remaining = roots)
    (hr : replies ls = []) (hu : Untouched g)
    (hsession : ∀ session, result = .ok session → session.requested = s.root) :
    Course request roots g₀ ls (g.settle s result) := by
  have hreq := requested_outcome hsession
  obtain ⟨ns, history, ⟨root, rest, ⟨hrem, -⟩, h⟩ | ⟨scanned, h, hends⟩⟩ := settle_cases g s result
  · have hu' : Untouched (g.settle s result) := hu.of_told (by rw [h]; rfl)
    rw [h] at hu' ⊢
    refine .scanning rfl ?_ hr hu'
    show (s.sessions ++ [s.outcome result]).map (·.requested) ++ root :: rest = roots
    rw [← hroots, hrem, List.map_append, List.map_singleton, hreq, List.append_assoc]
    rfl
  · have hu' : Untouched (g.settle s result) := hu.of_told (by rw [h]; rfl)
    rw [h] at hu' ⊢
    refine .closing rfl (fun sessions hok => ?_) hr hu' ⟨rfl, .inl rfl⟩
    subst hok
    obtain ⟨hrem, rfl⟩ := hends.of_ok
    rw [← hroots, hrem, List.map_append, List.map_singleton, hreq]

/-- A cleared command is handed over. -/
theorem Course.of_handOver {sessions : List Session} {o : Outcome} (hrequest : g.request = request)
    (hret : ScanReturned g₀ ls (.ok sessions)) (hroots : sessions.map (·.requested) = roots)
    (hs : o.Clears sessions g.queue.findings.snapshot) (hclear : Cleared ls g)
    (hinv : g.invocations = [])
    (hq : g.queue.AtRest) : Course request roots g₀ ls (g.handOver o) := by
  subst hrequest
  rcases handOver_cases g o with ⟨hdry, n, h⟩ | ⟨hdry, h⟩
  · have hevents : (g.handOver o).events = g.events ++ [n].map .told := by rw [h]; rfl
    have hprompts : (g.handOver o).prompts = g.prompts := prompts_of_told hevents
    have hinv' : (g.handOver o).invocations = g.invocations := invocations_of_told hevents
    have hqueue : (g.handOver o).queue = g.queue := by rw [h]
    refine .handedOver hret hroots (by rw [hqueue]; exact hs) ?_
      (.shown hdry (by rw [h]) (hinv'.trans hinv)) ?_
    · rw [Cleared, hprompts, hqueue]
      exact hclear
    · rw [hqueue]
      exact hq
  · have hprompts : (g.handOver o).prompts = g.prompts := by
      rw [h, prompts, prompts, List.filterMap_append]
      simp
    have hinv' : (g.handOver o).invocations = [g.request.invocation] := by
      have hnil : g.events.filterMap _ = [] := hinv
      rw [h, invocations, List.filterMap_append]
      rw [show g.events.filterMap _ = [] from hnil]
      rfl
    have hqueue : (g.handOver o).queue = g.queue := by rw [h]
    refine .handedOver hret hroots (by rw [hqueue]; exact hs) ?_
      (.running hdry (by rw [h]) hinv') ?_
    · rw [Cleared, hprompts, hqueue]
      exact hclear
    · rw [hqueue]
      exact hq

/-- The gate decides when the queue has stopped: it ends with a failure of the scanning, hands
the command over, or asks. -/
theorem Course.decided (h : Course request roots g₀ ls g) (hsteps : Steps step g₀ ls g)
    (hrequest : g.request = request) {scanned : Except Failure (List Session)}
    (hphase : g.phase = .closing scanned) (hreturned : g.queue.caller = .returned .finished) :
    Course request roots g₀ (ls ++ [.resume]) (g.decide scanned) := by
  obtain ⟨hroots, hr, hu, hopen, hc⟩ := h.of_closing hphase
  -- The call to stop has returned, so the queue is at rest for good.
  have hrest : g.queue.AtRest := by
    rcases hc with hc | hc
    · rw [hc] at hreturned
      cases hreturned
    · exact hc
  have hret : ScanReturned g₀ (ls ++ [.resume]) scanned :=
    ⟨ls, g, List.prefix_append _ _, hsteps, hphase⟩
  have hr' : replies (ls ++ [.resume]) = [] := (replies_concat_of_none rfl).trans hr
  rcases decide_cases g scanned with
    ⟨e, history, rfl, hg⟩ | ⟨sessions, ns, history, o, rfl, hnil, hs, hg⟩ |
    ⟨sessions, history, rfl, hne, hg⟩
  · rw [hg]
    exact .failed hret rfl hr' (hu.of_same rfl) hrest
  · rw [hg]
    have hu' : Untouched (g.after ns history) := hu.of_told rfl
    have hs : o.Clears sessions (g.after ns history).queue.findings.snapshot := hnil.symm ▸ hs
    exact .of_handOver hrequest hret (hroots sessions rfl) hs (.inl ⟨hnil, hu'.prompts, hr'⟩)
      hu'.invocations hrest
  · have hprompts : (g.decide (.ok sessions)).prompts = [g.queue.findings.snapshot] := by
      have := hu.prompts
      rw [prompts] at this
      rw [hg, prompts, List.filterMap_append, this]
      rfl
    have hinv : (g.decide (.ok sessions)).invocations = [] := by
      have := hu.invocations
      rw [invocations] at this
      rw [hg, invocations, List.filterMap_append, this]
      rfl
    rw [hg] at hprompts hinv ⊢
    exact .asking hret (hroots sessions rfl) rfl hne hr' hprompts hinv hrest

/-- The answer of the user hands the command over, or blocks it. -/
theorem Course.followed (h : Course request roots g₀ ls g) (hrequest : g.request = request)
    {sessions : List Session} {flagged : List Finding} {reply : Except Failure String}
    (hphase : g.phase = .confirming sessions flagged) :
    Course request roots g₀ (ls ++ [.confirm reply]) (g.follow sessions flagged reply) := by
  cases h with
  | asking hret hroots hp hne hr hpr hi hq =>
    rw [hphase] at hp
    cases hp
    -- This is the first answer, and the only one.
    have hr' : replies (ls ++ [.confirm reply]) = [reply] := by
      rw [replies, List.filterMap_append]
      show replies ls ++ [reply] = [reply]
      rw [hr, List.nil_append]
    rcases follow_cases g sessions g.queue.findings.snapshot reply with
      ⟨hacc, history, o, hs, hg⟩ | ⟨hacc, n, history, o, hfs, hmc, hs, hf, hg⟩
    · rw [hg]
      obtain ⟨line, rfl, haff⟩ : ∃ line, reply = .ok line ∧ isAffirmative line = true := by
        cases reply with
        | error => simp [accepts] at hacc
        | ok line => exact ⟨line, rfl, hacc⟩
      have hpr' : (g.after [] history).prompts = g.prompts := prompts_of_told rfl
      have hi' : (g.after [] history).invocations = g.invocations := invocations_of_told rfl
      exact .of_handOver hrequest (hret.mono _) hroots hs
        (.inr ⟨hne, hpr'.trans hpr, line, hr', haff⟩) (hi'.trans hi) hq
    · have hevents : (g.follow sessions g.queue.findings.snapshot reply).events =
          g.events ++ [n].map .told := by rw [hg]; rfl
      have hpr' : (g.follow sessions g.queue.findings.snapshot reply).prompts = g.prompts :=
        prompts_of_told hevents
      have hi' : (g.follow sessions g.queue.findings.snapshot reply).invocations =
          g.invocations := invocations_of_told hevents
      rw [hg] at hpr' hi' ⊢
      exact .declined (hret.mono _) hroots rfl hfs hmc hs hf hne hr' hacc (hpr'.trans hpr)
        (hi'.trans hi) hq
  | scanning hscan => simp [hphase, Phase.scan?] at hscan
  | closing hp | failed _ hp | declined _ _ hp => simp [hphase] at hp
  | handedOver _ _ _ _ hover =>
    cases hover with
    | shown _ hp | running _ hp | ended _ _ hp => simp [hphase] at hp

/-- The package manager comes to its end. -/
theorem Course.finished (h : Course request roots g₀ ls g) (hrequest : g.request = request)
    {draft : Outcome}
    {reply : Except Failure Int} (hphase : g.phase = .installing draft) :
    Course request roots g₀ (ls ++ [.install reply]) (g.finish (g.installed draft reply)) := by
  cases h with
  | handedOver hret hroots hs hclear hover hq =>
    cases hover with
    | running hdry hp hi =>
      rw [hphase] at hp
      cases hp
      have hreply : Label.install reply ∈ ls ++ [.install reply] :=
        List.mem_append_right _ (List.mem_singleton_self _)
      refine .handedOver (hret.mono _) hroots hs ?_
        (.ended hdry hreply (by rw [← hrequest]; rfl) hi) hq
      have hr' : replies (ls ++ [.install reply]) = replies ls := replies_concat_of_none rfl
      unfold Cleared at hclear ⊢
      rw [hr']
      exact hclear
    | shown _ hp | ended _ _ hp => simp [hphase] at hp
  | scanning hscan => simp [hphase, Phase.scan?] at hscan
  | closing hp | failed _ hp | asking _ _ hp | declined _ _ hp => simp [hphase] at hp

/-- Every move leads from a place to a place. -/
theorem Course.move (h : Course request roots g₀ ls g) (hsteps : Steps step g₀ ls g)
    (hrequest : g.request = request) (hmove : Move g l g') :
    Course request roots g₀ (ls ++ [l]) g' := by
  cases hmove with
  | explore => exact h.background rfl rfl rfl id fun _ => rfl
  | tick => exact h.background rfl rfl rfl id fun _ => rfl
  | analyze hfree hq =>
    refine h.background rfl rfl rfl (fun hc => hc.move hfree hq) fun hrest => ?_
    rw [hrest.step_eq_none] at hq
    cases hq
  | @lookUp s hphase =>
    obtain ⟨hroots, hr, hu⟩ := h.of_scan (s := s) (by rw [hphase]; rfl)
    have hprompts : ({ g.emit (.lookedUp s.root.name) with phase := .looking s } : Gate).prompts =
        g.prompts := by
      simp [prompts, emit]
    have hinv : ({ g.emit (.lookedUp s.root.name) with phase := .looking s } : Gate).invocations =
        g.invocations := by
      simp [invocations, emit]
    exact .scanning rfl hroots ((replies_concat_of_none rfl).trans hr)
      ⟨hprompts.trans hu.prompts, hinv.trans hu.invocations⟩
  | @walk _ s resolved memo hphase =>
    have hscan : g.phase.scan? = some s := by
      rcases hphase with ⟨hp, -⟩ | ⟨hp, -⟩ <;> rw [hp] <;> rfl
    have hl : l.reply? = none := by
      rcases hphase with ⟨-, rfl⟩ | ⟨-, _, rfl⟩ <;> rfl
    obtain ⟨hroots, hr, hu⟩ := h.of_scan hscan
    have hevents :
        (({ g with explorer := { g.explorer with memo } } : Gate).walk s resolved).events =
          g.events ++ [Notice.track resolved.display].map .told := rfl
    exact .scanning rfl hroots ((replies_concat_of_none hl).trans hr) (hu.of_told hevents)
  | @arrive s resolved i w t hphase =>
    obtain ⟨hroots, hr, hu⟩ := h.of_scan (s := s) (by rw [hphase]; rfl)
    exact .scanning rfl hroots ((replies_concat_of_none rfl).trans hr) (hu.of_same rfl)
  | @complete s tree keys hphase =>
    obtain ⟨hroots, hr, hu⟩ := h.of_scan (s := s) (by rw [hphase]; rfl)
    refine .of_settle hroots ((replies_concat_of_none rfl).trans hr) hu fun session hs => ?_
    cases hs
    rfl
  | @fail _ s x q e hl hscan =>
    obtain ⟨hroots, hr, hu⟩ := h.of_scan hscan
    have hl : l.reply? = none := by
      cases l with
      | confirm => simp [Label.givesUp] at hl
      | _ => rfl
    refine .of_settle hroots ((replies_concat_of_none hl).trans hr) (hu.of_same rfl) ?_
    intro session hs
    cases hs
  | decide hphase hreturned => exact h.decided hsteps hrequest hphase hreturned
  | follow hphase => exact h.followed hrequest hphase
  | install hphase => exact h.finished hrequest hphase

/-! ## Runs -/

theorem handOver_isDecided (g : Gate) (o : Outcome) : (g.handOver o).phase.isDecided = true := by
  rcases handOver_cases g o with ⟨-, _, h⟩ | ⟨-, h⟩ <;> rw [h] <;> rfl

theorem decide_isDecided (g : Gate) (r : Except Failure (List Session)) :
    (g.decide r).phase.isDecided = true := by
  rcases decide_cases g r with
    ⟨_, _, -, h⟩ | ⟨_, ns, history, o, -, -, -, h⟩ | ⟨_, _, -, -, h⟩ <;> rw [h]
  · rfl
  · exact handOver_isDecided _ _
  · rfl

theorem follow_isDecided (g : Gate) (sessions : List Session) (flagged : List Finding)
    (reply : Except Failure String) : (g.follow sessions flagged reply).phase.isDecided = true := by
  rcases follow_cases g sessions flagged reply with
    ⟨-, history, o, -, h⟩ | ⟨-, n, history, o, -, -, -, -, h⟩ <;> rw [h]
  · exact handOver_isDecided _ _
  · rfl

theorem scan?_of_isDecided (h : g.phase.isDecided = true) : g.phase.scan? = none := by
  cases hphase : g.phase with
  | confirming | installing | ended => rfl
  | resolving | looking | walking | analyzing | closing => simp [hphase, Phase.isDecided] at h

/-- After the decision there is no way back. -/
theorem Move.isDecided (hmove : Move g l g') (hg : g.phase.isDecided = true) :
    g'.phase.isDecided = true := by
  have hscan := scan?_of_isDecided hg
  cases hmove with
  | explore | analyze | tick => exact hg
  | lookUp hphase | arrive hphase | complete hphase => simp [hphase, Phase.scan?] at hscan
  | walk hphase => rcases hphase with ⟨hp, -⟩ | ⟨hp, -⟩ <;> simp [hp, Phase.scan?] at hscan
  | fail _ hsome => simp [hsome] at hscan
  | decide => exact decide_isDecided g _
  | follow => exact follow_isDecided g _ _ _
  | install => rfl

/-- After scanning there is only the decision. -/
theorem Move.late {r : Except Failure (List Session)} (hmove : Move g l g')
    (hg : g.phase = .closing r ∨ g.phase.isDecided = true) :
    g'.phase = .closing r ∨ g'.phase.isDecided = true := by
  rcases hg with hg | hg
  · cases hmove with
    | explore | analyze | tick => exact .inl hg
    | lookUp hphase | arrive hphase | complete hphase => simp [hg] at hphase
    | walk hphase => simp [hg] at hphase
    | fail _ hsome => simp [hg, Phase.scan?] at hsome
    | decide => exact .inr (decide_isDecided g _)
    | follow => exact .inr (follow_isDecided g _ _ _)
    | install => exact .inr rfl
  · exact .inr (hmove.isDecided hg)

theorem request_of_steps (h : Steps step g₀ ls g) : g.request = g₀.request := by
  induction h with
  | refl => rfl
  | tail _ hstep ih => exact (step_move hstep).fixed.1.trans ih

theorem settings_of_steps (h : Steps step g₀ ls g) : g.settings = g₀.settings := by
  induction h with
  | refl => rfl
  | tail _ hstep ih => exact (step_move hstep).fixed.2.trans ih

/-- A request that names roots begins with the scan of the first. -/
theorem start_of_roots {settings : Settings} {memo : Option Memo} {root : Package}
    {rest : List Package} (h : request.command.rootPackages = .ok (root :: rest)) :
    start request settings memo =
      { initial request settings memo with
        history := [.idle, .scanning root.display]
        events := [.told (.scanning root.display)]
        phase := .resolving ⟨root, .after 0 settings.scanTimeout, rest, []⟩ } := by
  unfold start
  rw [h]
  rfl

/-- In every state of a run with roots, it is known what has been done so far. -/
theorem course_of_steps {settings : Settings} {memo : Option Memo} {root : Package}
    {rest : List Package} (hroots : request.command.rootPackages = .ok (root :: rest))
    (h : Steps step (start request settings memo) ls g) :
    Course request (root :: rest) (start request settings memo) ls g := by
  induction h with
  | refl =>
    rw [start_of_roots hroots]
    exact .scanning rfl rfl rfl ⟨rfl, rfl⟩
  | tail hsteps hstep ih =>
    have hrequest := (request_of_steps hsteps).trans
      (show (start request settings memo).request = request by rw [start_of_roots hroots]; rfl)
    exact ih.move hsteps hrequest (step_move hstep)

/-- After scanning has come to an end, the gate stops the queue or has decided. -/
theorem ScanReturned.late {r : Except Failure (List Session)} (h : ScanReturned g₀ ls r)
    (hsteps : Steps step g₀ ls g) : g.phase = .closing r ∨ g.phase.isDecided = true := by
  obtain ⟨pre, a, ⟨mid, rfl⟩, ha, hphase⟩ := h
  obtain ⟨m, hm, hmid⟩ := hsteps.split
  rw [hm.det ha] at hmid
  refine hmid.invariant (P := fun g => g.phase = .closing r ∨ g.phase.isDecided = true) ?_
    (.inl hphase)
  intro g l g' hg hstep
  exact (step_move hstep).late hg

/-- Scanning comes to one end only. -/
theorem scanReturned_unique {r r' : Except Failure (List Session)} (h : ScanReturned g₀ ls r)
    (h' : ScanReturned g₀ ls r') : r = r' := by
  -- Of the two places where scanning ends, one comes first; the other is still at its result.
  have hle : ∀ {r r' : Except Failure (List Session)} {pre mid : List Label} {a b : Gate},
      Steps step g₀ pre a → a.phase = .closing r → Steps step g₀ (pre ++ mid) b →
      b.phase = .closing r' → r = r' := by
    intro r r' pre mid a b ha haphase hb hbphase
    have hret : ScanReturned g₀ (pre ++ mid) r := ⟨pre, a, List.prefix_append _ _, ha, haphase⟩
    rcases hret.late hb with hlate | hlate
    · rw [hbphase] at hlate
      cases hlate
      rfl
    · rw [hbphase] at hlate
      cases hlate
  obtain ⟨pre, a, hpre, ha, haphase⟩ := h
  obtain ⟨pre', b, hpre', hb, hbphase⟩ := h'
  rcases List.prefix_or_prefix_of_prefix hpre hpre' with ⟨mid, rfl⟩ | ⟨mid, rfl⟩
  · exact hle ha haphase hb hbphase
  · exact (hle hb hbphase ha haphase).symm

end Gate

end PackageGate
