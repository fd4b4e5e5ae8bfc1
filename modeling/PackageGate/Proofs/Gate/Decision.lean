import PackageGate.Proofs.Gate.Course

/-!
# The decision about the install

Whether the package manager is started, and whether the user is asked before, is
settled by four things alone: the roots that the command names, the end of scanning,
the findings, and the user's answer.

- `SaysYes`: the answers that agree, and `isAffirmative_iff`: that no other is taken.
- `Gate.Silent`: what a run leaves alone that has nothing to scan.
- `Gate.DecidesExactly`: the rules by which a run asks and starts.
- `Gate.decides_exactly`: every run of the gate keeps them.
-/

namespace PackageGate

/-- A line that agrees: `y` or `yes` up to letter case and the blanks around it. -/
def SaysYes (line : String) : Prop :=
  (Text.trim line.toList).map Char.toLower = "y".toList ∨
    (Text.trim line.toList).map Char.toLower = "yes".toList

/-- For a word without `k` the Kelvin sign makes no difference to the letter case. -/
theorem lower_eq_iff {cs w : List Char} (hw : w.all fun c => c != 'k' && c.toNat != 0x212A) :
    Text.lower cs = w ↔ cs.map Char.toLower = w := by
  induction cs generalizing w with
  | nil => rfl
  | cons c cs ih =>
    cases w with
    | nil => simp [Text.lower]
    | cons a w =>
      rw [List.all_cons, Bool.and_eq_true, Bool.and_eq_true, bne_iff_ne, bne_iff_ne] at hw
      obtain ⟨ha, hrest⟩ := hw
      have hc : Text.lowerAscii c = a ↔ c.toLower = a := by
        unfold Text.lowerAscii
        -- Only the Kelvin sign is lowered to an ASCII letter without being one.
        by_cases hk : c.toNat = 0x212A
        · rw [if_pos hk]
          constructor
          · intro h
            exact absurd h.symm ha.1
          · intro h
            have hlow : c.toLower = c := by
              have hval : c.val.toNat = 0x212A := hk
              refine dif_neg ?_
              rintro ⟨-, hle⟩
              have hle : c.val.toNat ≤ 90 := hle
              omega
            rw [hlow] at h
            exact absurd (h ▸ hk) ha.2
        · rw [if_neg hk]
      show Text.lowerAscii c :: Text.lower cs = a :: w ↔ c.toLower :: cs.map Char.toLower = a :: w
      rw [List.cons.injEq, List.cons.injEq, hc, ih hrest]

/-- The gate agrees to an answer exactly when it says yes. -/
theorem isAffirmative_iff {line : String} : isAffirmative line = true ↔ SaysYes line := by
  have hy : "y".toList.all fun c => c != 'k' && c.toNat != 0x212A := by decide
  have hyes : "yes".toList.all fun c => c != 'k' && c.toNat != 0x212A := by decide
  simp only [isAffirmative, Text.readsAs, Bool.or_eq_true, beq_iff_eq]
  rw [lower_eq_iff hy, lower_eq_iff hyes]
  rfl

namespace Gate

/-! ## Runs with nothing to scan -/

/-- Handed over, a request has ended or is being installed. -/
theorem HandedOver.phase_cases {request : Request} {ls : List Label} {o : Outcome} {g : Gate}
    (h : HandedOver request ls o g) :
    (∃ result, g.phase = .ended result) ∨ ∃ o, g.phase = .installing o := by
  cases h with
  | shown _ hp | ended _ _ hp => exact .inl ⟨_, hp⟩
  | running _ hp => exact .inr ⟨_, hp⟩

/-- The names whose newest version the registry has been asked for. -/
def lookups (g : Gate) : List String :=
  g.events.filterMap fun | .lookedUp name => some name | _ => none

/-- Nothing has been asked of the registry, the service and the user, and nothing will be. -/
structure Silent (g : Gate) : Prop where
  lookups : g.lookups = []
  requests : g.explorer.requests = []
  walks : g.explorer.walks = []
  submissions : g.queue.submissions = []
  reports : g.queue.reports = []
  caller : g.queue.caller = .idle
  channel : g.queue.channel = []
  held : g.queue.held = []
  prompts : g.prompts = []

variable {request : Request} {settings : Settings} {memo : Option Memo} {roots : List Package}
  {g₀ g g' : Gate} {ls : List Label} {l : Label}

theorem held_ofSizes (capacity workers : Nat) : (Queue.ofSizes capacity workers).held = [] :=
  ((Queue.accounted_ofSizes capacity workers).idle rfl).2

theorem silent_initial (request : Request) (settings : Settings) (memo : Option Memo) :
    (initial request settings memo).Silent :=
  ⟨rfl, rfl, rfl, rfl, rfl, rfl, rfl, held_ofSizes _ _, rfl⟩

/-- With no walk and no call, the only steps left are those of the clock, of a worker that
waits for its turn, and of the package manager. -/
theorem Silent.move (h : g.Silent)
    (hphase : (∃ result, g.phase = .ended result) ∨ ∃ o, g.phase = .installing o)
    (hmove : Move g l g') :
    g'.Silent ∧ g'.invocations = g.invocations ∧ l.reply? = none ∧
      (g'.phase = g.phase ∨ ∃ o reply, g.phase = .installing o ∧ l = .install reply ∧
        g'.phase = .ended (g.installed o reply)) := by
  have hscan : g.phase.scan? = none := by
    rcases hphase with ⟨_, hp⟩ | ⟨_, hp⟩ <;> rw [hp] <;> rfl
  cases hmove with
  | @explore m x hfree hx =>
    -- There is no walk that could take a step.
    have hwalk : ∀ i : Nat, g.explorer.walks[i]? = none := by
      intro i
      rw [h.walks]
      rfl
    cases m with
    | walk i m => simp [Explorer.step, hwalk] at hx
    | «recall» i t => simp [Explorer.step, Explorer.package?, hwalk] at hx
  | @analyze m q hfree hq =>
    -- No worker holds an item, so workers only begin to listen or leave.
    have hbusy : ∀ {w : Nat} {s : Queue.Worker} {item : Queue.Item},
        g.queue.workers[w]? = some s → s.item? ≠ some item := by
      intro w s item hw hs
      have hmem := Queue.mem_held hw hs
      rw [h.held] at hmem
      cases hmem
    cases Queue.step_move hq with
    | @listen w hw =>
      have hheld : (g.queue.setWorker w .receiving).held = [] :=
        Queue.held_setWorker_eq_nil h.held hw rfl
      exact ⟨⟨h.lookups, h.requests, h.walks, h.submissions, h.reports, h.caller, h.channel, hheld,
        h.prompts⟩, rfl, rfl, .inl rfl⟩
    | @leave w hw =>
      have hheld : (g.queue.setWorker w .exited).held = [] :=
        Queue.held_setWorker_eq_nil h.held hw rfl
      exact ⟨⟨h.lookups, h.requests, h.walks, h.submissions, h.reports, h.caller, h.channel, hheld,
        h.prompts⟩, rfl, rfl, .inl rfl⟩
    | call => cases hfree
    | offer _ hoffer => simp [h.caller, Queue.Caller.offer?] at hoffer
    | settle hc | abandon hc | closed hc => simp [h.caller] at hc
    | cancel hc => simp [h.caller] at hc
    | discard _ hch | reject _ hch | submit _ hch => simp [h.channel] at hch
    | submitted hw | unsubmitted hw | reported hw => exact absurd rfl (hbusy hw)
    | abort hw hitem => exact absurd hitem (hbusy hw)
  | tick => exact ⟨⟨h.lookups, h.requests, h.walks, h.submissions, h.reports, h.caller, h.channel,
      h.held, h.prompts⟩, rfl, rfl, .inl rfl⟩
  | install hp => exact ⟨⟨h.lookups, h.requests, h.walks, h.submissions, h.reports, h.caller,
      h.channel, h.held, h.prompts⟩, rfl, rfl, .inr ⟨_, _, hp, rfl, rfl⟩⟩
  | lookUp hp | arrive hp | complete hp => simp [hp, Phase.scan?] at hscan
  | walk hp => rcases hp with ⟨hp, -⟩ | ⟨hp, -⟩ <;> simp [hp, Phase.scan?] at hscan
  | fail _ hsome => simp [hsome] at hscan
  | decide hp | follow hp => rcases hphase with ⟨_, hp'⟩ | ⟨_, hp'⟩ <;> rw [hp] at hp' <;> cases hp'

/-- A command that cannot be read ends the run at once, and nothing follows. -/
theorem silent_of_unreadable {why : Package.SpecError}
    (hroots : request.command.rootPackages = .error why)
    (h : Steps step (start request settings memo) ls g) :
    g.Silent ∧ replies ls = [] ∧ g.invocations = [] ∧ g.phase = .ended (.error why.failure) := by
  induction h with
  | refl =>
    have hstart : start request settings memo =
        (initial request settings memo).finish (.error why.failure) := by
      unfold start
      rw [hroots]
    rw [hstart]
    have hi := silent_initial request settings memo
    exact ⟨⟨hi.lookups, hi.requests, hi.walks, hi.submissions, hi.reports, hi.caller, hi.channel,
      hi.held, hi.prompts⟩, rfl, rfl, rfl⟩
  | tail _ hstep ih =>
    obtain ⟨hsilent, hr, hinv, hp⟩ := ih
    obtain ⟨hsilent', hinv', hreply, hphase⟩ := hsilent.move (.inl ⟨_, hp⟩) (step_move hstep)
    refine ⟨hsilent', (replies_concat_of_none hreply).trans hr, hinv'.trans hinv, ?_⟩
    rcases hphase with hphase | ⟨o, -, ho, -⟩
    · exact hphase.trans hp
    · rw [hp] at ho
      cases ho

/-- A command that names no package is handed over at once, and nothing else follows. -/
theorem silent_of_rootless (hroots : request.command.rootPackages = .ok [])
    (h : Steps step (start request settings memo) ls g) :
    g.Silent ∧ replies ls = [] ∧ ∃ o, o.Clears [] [] ∧ HandedOver request ls o g := by
  induction h with
  | refl =>
    have hstart : start request settings memo =
        (initial request settings memo).handOver ((initial request settings memo).draft [] []) := by
      unfold start
      rw [hroots]
      rfl
    rw [hstart]
    have hi := silent_initial request settings memo
    have hclears : ((initial request settings memo).draft [] []).Clears [] [] :=
      ⟨rfl, rfl, rfl, rfl⟩
    rcases handOver_cases (initial request settings memo)
      ((initial request settings memo).draft [] []) with ⟨hdry, n, hg⟩ | ⟨hdry, hg⟩ <;> rw [hg]
    · exact ⟨⟨rfl, hi.requests, hi.walks, hi.submissions, hi.reports, hi.caller, hi.channel,
        hi.held, rfl⟩, rfl, _, hclears, .shown hdry rfl rfl⟩
    · exact ⟨⟨rfl, hi.requests, hi.walks, hi.submissions, hi.reports, hi.caller, hi.channel,
        hi.held, rfl⟩, rfl, _, hclears, .running hdry rfl rfl⟩
  | @tail ls m l u hm hstep ih =>
    obtain ⟨hsilent, hr, o, hclears, ho⟩ := ih
    obtain ⟨hsilent', hinv', hreply, hphase⟩ := hsilent.move ho.phase_cases (step_move hstep)
    refine ⟨hsilent', (replies_concat_of_none hreply).trans hr, o, hclears, ?_⟩
    rcases hphase with hphase | ⟨o', reply, ho', rfl, hended⟩
    · cases ho with
      | shown hdry hp hi => exact .shown hdry (hphase.trans hp) (hinv'.trans hi)
      | running hdry hp hi => exact .running hdry (hphase.trans hp) (hinv'.trans hi)
      | ended hdry hmem hp hi =>
        exact .ended hdry (List.mem_append_left _ hmem) (hphase.trans hp) (hinv'.trans hi)
    · cases ho with
      | shown hdry hp hi | ended hdry _ hp hi =>
        rw [hp] at ho'
        cases ho'
      | running hdry hp hi =>
        rw [hp] at ho'
        cases ho'
        have hrequest : m.request = request := by
          have hstart : (start request settings memo).request = request := by
            unfold start
            rw [hroots]
            exact (handOver_beside _ _).request
          exact (request_of_steps hm).trans hstart
        refine .ended hdry (List.mem_append_right _ (List.mem_singleton_self _)) ?_ (hinv'.trans hi)
        rw [hended, installed, hrequest]

/-! ## Runs that scan -/

theorem mem_replies {reply : Except Failure String} :
    reply ∈ replies ls ↔ Label.confirm reply ∈ ls := by
  constructor
  · intro h
    obtain ⟨l, hl, hreply⟩ := List.mem_filterMap.mp h
    cases l with
    | confirm =>
      cases hreply
      exact hl
    | _ => cases hreply
  · intro h
    exact List.mem_filterMap.mpr ⟨_, h, rfl⟩

/-- While roots are scanned, scanning has not come to an end. -/
theorem not_scanReturned_of_scan {s : Scan} (hsteps : Steps step g₀ ls g)
    (hscan : g.phase.scan? = some s) (r : Except Failure (List Session)) :
    ¬ScanReturned g₀ ls r := by
  intro hret
  rcases hret.late hsteps with hp | hp
  · rw [hp] at hscan
    cases hscan
  · cases hphase : g.phase with
    | confirming | installing | ended =>
      rw [hphase] at hscan
      cases hscan
    | _ => simp [hphase, Phase.isDecided] at hp

/-- The user is asked exactly when scanning has gone through and something was found. -/
theorem Course.asked_iff (h : Course request roots g₀ ls g) (hsteps : Steps step g₀ ls g)
    (hnot : ∀ r, g.phase ≠ .closing r) :
    g.prompts ≠ [] ↔ (∃ sessions, ScanReturned g₀ ls (.ok sessions)) ∧
      g.queue.findings.snapshot ≠ [] := by
  cases h with
  | scanning hscan _ _ hu =>
    constructor
    · intro hne
      exact absurd hu.prompts hne
    · rintro ⟨⟨sessions, hret⟩, -⟩
      exact absurd hret (not_scanReturned_of_scan hsteps hscan _)
  | closing hp => exact absurd hp (hnot _)
  | failed hret _ _ hu =>
    constructor
    · intro hne
      exact absurd hu.prompts hne
    · rintro ⟨⟨sessions, hok⟩, -⟩
      cases scanReturned_unique hret hok
  | asking hret _ _ hne _ hpr | declined hret _ _ _ _ _ _ hne _ _ hpr =>
    rw [hpr]
    exact ⟨fun _ => ⟨⟨_, hret⟩, hne⟩, fun _ => List.cons_ne_nil _ _⟩
  | handedOver hret _ _ hclear =>
    rcases hclear with ⟨hnil, hpr, -⟩ | ⟨hne, hpr, -⟩
    · rw [hpr, hnil]
      exact ⟨fun hne => absurd rfl hne, fun ⟨_, hne⟩ => absurd rfl hne⟩
    · rw [hpr]
      exact ⟨fun _ => ⟨⟨_, hret⟩, hne⟩, fun _ => List.cons_ne_nil _ _⟩

/-- Whether the install is cleared: scanning has gone through, and nothing was found or the
user has said yes. -/
def IsCleared (g₀ : Gate) (ls : List Label) (g : Gate) : Prop :=
  (∃ sessions, ScanReturned g₀ ls (.ok sessions)) ∧
    (g.queue.findings.snapshot = [] ∨ ∃ line, Label.confirm (.ok line) ∈ ls ∧ SaysYes line)

/-- What is handed over starts the package manager unless it is a dry run. -/
theorem HandedOver.invocations_iff {o : Outcome} (h : HandedOver request ls o g) :
    g.invocations ≠ [] ↔ request.isDryRun = false := by
  cases h with
  | shown hdry _ hi => simp [hi, hdry]
  | running hdry _ hi | ended hdry _ _ hi => simp [hi, hdry]

/-- The manager is started exactly when the install is cleared and the run is no dry run. -/
theorem Course.started_iff (h : Course request roots g₀ ls g) (hsteps : Steps step g₀ ls g)
    (hnot : ∀ r, g.phase ≠ .closing r) :
    g.invocations ≠ [] ↔ request.isDryRun = false ∧ IsCleared g₀ ls g := by
  cases h with
  | scanning hscan _ _ hu =>
    constructor
    · intro hne
      exact absurd hu.invocations hne
    · rintro ⟨-, ⟨sessions, hret⟩, -⟩
      exact absurd hret (not_scanReturned_of_scan hsteps hscan _)
  | closing hp => exact absurd hp (hnot _)
  | failed hret _ _ hu =>
    constructor
    · intro hne
      exact absurd hu.invocations hne
    · rintro ⟨-, ⟨sessions, hok⟩, -⟩
      cases scanReturned_unique hret hok
  | asking hret _ _ hne hr _ hi =>
    constructor
    · intro hstarted
      exact absurd hi hstarted
    · rintro ⟨-, -, hnil | ⟨line, hline, -⟩⟩
      · exact absurd hnil hne
      · rw [← mem_replies, hr] at hline
        cases hline
  | @declined sessions reply _ hret _ _ _ _ _ _ hne hr hacc _ hi =>
    constructor
    · intro hstarted
      exact absurd hi hstarted
    · rintro ⟨-, -, hnil | ⟨line, hline, hyes⟩⟩
      · exact absurd hnil hne
      · rw [← mem_replies, hr, List.mem_singleton] at hline
        subst hline
        rw [show accepts (.ok line) = isAffirmative line from rfl,
          isAffirmative_iff.mpr hyes] at hacc
        cases hacc
  | handedOver hret _ _ hclear hover =>
    have hcleared : IsCleared g₀ ls g := by
      refine ⟨⟨_, hret⟩, ?_⟩
      rcases hclear with ⟨hnil, -⟩ | ⟨-, -, line, hr, haff⟩
      · exact .inl hnil
      · have hmem : Except.ok line ∈ replies ls := by
          rw [hr]
          exact List.mem_singleton_self _
        exact .inr ⟨line, mem_replies.mp hmem, isAffirmative_iff.mp haff⟩
    rw [hover.invocations_iff]
    exact ⟨fun hdry => ⟨hdry, hcleared⟩, fun ⟨hdry, _⟩ => hdry⟩

/-- When scanning fails, nothing is asked or started, and the run ends with that failure. -/
theorem Course.of_failed {e : Failure} (h : Course request roots g₀ ls g)
    (hsteps : Steps step g₀ ls g) (hret : ScanReturned g₀ ls (.error e)) :
    g.prompts = [] ∧ g.invocations = [] ∧
      (g.phase = .closing (.error e) ∨ g.phase = .ended (.error e)) := by
  cases h with
  | scanning hscan => exact absurd hret (not_scanReturned_of_scan hsteps hscan _)
  | closing hp _ _ hu =>
    refine ⟨hu.prompts, hu.invocations, .inl ?_⟩
    rcases hret.late hsteps with hlate | hlate
    · exact hlate
    · rw [hp] at hlate
      cases hlate
  | failed hret' hp _ hu =>
    cases scanReturned_unique hret hret'
    exact ⟨hu.prompts, hu.invocations, .inr hp⟩
  | asking hret' | declined hret' | handedOver hret' => cases scanReturned_unique hret hret'

/-- An answer that does not say yes blocks the install. -/
theorem Course.of_declined {reply : Except Failure String} (h : Course request roots g₀ ls g)
    (hreply : reply ∈ replies ls) (hno : ¬∃ line, reply = .ok line ∧ SaysYes line) :
    g.invocations = [] ∧ ∃ o, g.phase = .ended (.ok o) ∧ o.finalState = .blocked ∧
      o.managerCode = none := by
  cases h with
  | scanning _ _ hr | closing _ _ hr | failed _ _ hr | asking _ _ _ _ hr =>
    rw [hr] at hreply
    cases hreply
  | declined _ _ hp hfs hmc _ _ _ _ _ _ hi => exact ⟨hi, _, hp, hfs, hmc⟩
  | handedOver _ _ _ hclear =>
    rcases hclear with ⟨-, -, hr⟩ | ⟨-, -, line, hr, haff⟩
    · rw [hr] at hreply
      cases hreply
    · rw [hr, List.mem_singleton] at hreply
      exact absurd ⟨line, hreply, isAffirmative_iff.mp haff⟩ hno

/-- What has been asked, answered and started so far. -/
theorem Course.record (h : Course request roots g₀ ls g) :
    (g.invocations = [] ∨ g.invocations = [request.invocation]) ∧
      (g.prompts = [] ∨ g.prompts = [g.queue.findings.snapshot]) ∧
      (replies ls).length ≤ g.prompts.length := by
  cases h with
  | scanning _ _ hr hu | closing _ _ hr hu | failed _ _ hr hu =>
    refine ⟨.inl hu.invocations, .inl hu.prompts, ?_⟩
    rw [hr]
    exact Nat.zero_le _
  | asking _ _ _ _ hr hpr hi =>
    refine ⟨.inl hi, .inr hpr, ?_⟩
    rw [hr]
    exact Nat.zero_le _
  | declined _ _ _ _ _ _ _ _ hr _ hpr hi =>
    refine ⟨.inl hi, .inr hpr, ?_⟩
    rw [hr, hpr]
    exact Nat.le_refl _
  | handedOver _ _ _ hclear hover =>
    have hi : g.invocations = [] ∨ g.invocations = [request.invocation] := by
      cases hover with
      | shown _ _ hi => exact .inl hi
      | running _ _ hi | ended _ _ _ hi => exact .inr hi
    rcases hclear with ⟨-, hpr, hr⟩ | ⟨-, hpr, line, hr, -⟩
    · refine ⟨hi, .inl hpr, ?_⟩
      rw [hr]
      exact Nat.zero_le _
    · refine ⟨hi, .inr hpr, ?_⟩
      rw [hr, hpr]
      exact Nat.le_refl _

/-- The sessions of a scan that has returned are for the roots in their order. -/
theorem Course.sessions_eq {sessions : List Session} (h : Course request roots g₀ ls g)
    (hsteps : Steps step g₀ ls g) (hret : ScanReturned g₀ ls (.ok sessions)) :
    sessions.map (·.requested) = roots := by
  cases h with
  | scanning hscan => exact absurd hret (not_scanReturned_of_scan hsteps hscan _)
  | closing hp hroots =>
    rcases hret.late hsteps with hlate | hlate
    · rw [hp] at hlate
      cases hlate
      exact hroots sessions rfl
    · rw [hp] at hlate
      cases hlate
  | failed hret' => cases scanReturned_unique hret hret'
  | asking hret' hroots | declined hret' hroots | handedOver hret' hroots =>
    cases scanReturned_unique hret hret'
    exact hroots

/-- A queue that is being stopped can always go on until all its workers have exited. -/
theorem Closing.exists_step {q : Queue} (h : Closing q) :
    q.AtRest ∨ ∃ l q', isFreeStep l = true ∧ q.step l = some q' := by
  obtain ⟨hopen, hclosing | hrest⟩ := h
  · right
    -- The worker that listens takes what is left in the channel, or leaves.
    have hreceiving : ∀ {w : Nat}, q.workers[w]? = some .receiving →
        ∃ l q', isFreeStep l = true ∧ q.step l = some q' := by
      intro w hw
      cases hch : q.channel with
      | nil => exact ⟨.leave w, _, rfl, by simp [Queue.step, hw, hch, hopen]; rfl⟩
      | cons item rest => exact ⟨.take w, _, rfl, by simp [Queue.step, hw, hch]; rfl⟩
    by_cases hall : ∀ s ∈ q.workers, s = .exited
    · refine ⟨.closed, { q with caller := .returned .finished }, rfl, ?_⟩
      simp only [Queue.step, hclosing]
      rw [if_pos (List.all_eq_true.mpr fun s hs => decide_eq_true (hall s hs))]
    · obtain ⟨s, hs, hne⟩ : ∃ s ∈ q.workers, s ≠ .exited := by simpa using hall
      obtain ⟨w, hw⟩ := List.mem_iff_getElem?.mp hs
      cases s with
      | waiting =>
        -- One worker listens at a time.
        by_cases hbusy : Queue.Worker.receiving ∈ q.workers
        · obtain ⟨v, hv⟩ := List.mem_iff_getElem?.mp hbusy
          exact hreceiving hv
        · exact ⟨.listen w, _, rfl, by simp [Queue.step, hw, hbusy]; rfl⟩
      | receiving => exact hreceiving hw
      | submitting item p =>
        exact ⟨.submitted w (.ok ""), _, rfl, by simp [Queue.step, hw]; rfl⟩
      | reporting item p id =>
        exact ⟨.reported w (.ok none), _, rfl, by simp [Queue.step, hw]; rfl⟩
      | exited => exact absurd rfl hne
  · exact .inl hrest

/-- Between scanning and the decision the gate is never stuck. -/
theorem Course.exists_step {r : Except Failure (List Session)} (h : Course request roots g₀ ls g)
    (hphase : g.phase = .closing r) :
    g.step .resume = some (g.decide r) ∨ ∃ l g', g.step (.analyze l) = some g' := by
  obtain ⟨-, -, -, hc⟩ := h.of_closing hphase
  rcases hc.exists_step with hrest | ⟨l, q', hfree, hq⟩
  · left
    simp [step, hphase, Queue.ending?, hrest.returned]
  · right
    refine ⟨l, { g with queue := q' }, ?_⟩
    simp [step, hfree, hq]

/-! ## The rules -/

/-- The rules by which a run of `request` asks and starts; the run has gone from `g₀` to `g`
by the steps `ls`. -/
structure DecidesExactly (request : Request) (g₀ : Gate) (ls : List Label) (g : Gate) :
    Prop where
  /-- The manager is started once at most, with the action and the arguments as typed. -/
  started_once : g.invocations = [] ∨ g.invocations =
    [(request.command.manager.program, request.command.action :: request.command.args)]
  /-- The user is asked once at most, about all findings. -/
  asked_once : g.prompts = [] ∨ g.prompts = [g.queue.findings.snapshot]
  answered_once : (replies ls).length ≤ g.prompts.length
  findings_sorted : g.queue.findings.snapshot.Pairwise (·.key < ·.key)
  /-- What was found in any earlier state, for whatever root, is among the findings. -/
  findings_complete : ∀ pre h, pre <+: ls → Steps step g₀ pre h →
    h.queue.findings.snapshot.Sublist g.queue.findings.snapshot
  /-- Scanning goes through only when every root has been scanned, in order. -/
  scanned_all : ∀ sessions, ScanReturned g₀ ls (.ok sessions) →
    request.command.rootPackages = .ok (sessions.map (·.requested))
  /-- Until the queue has stopped, nothing is asked or started, and the gate can go on. -/
  undecided : ∀ r, g.phase = .closing r → g.prompts = [] ∧ g.invocations = [] ∧
    (g.step .resume = some (g.decide r) ∨ ∃ l g', g.step (.analyze l) = some g')
  asked_iff : (∀ r, g.phase ≠ .closing r) →
    (g.prompts ≠ [] ↔ (∃ sessions, ScanReturned g₀ ls (.ok sessions)) ∧
      g.queue.findings.snapshot ≠ [])
  started_iff : (∀ r, g.phase ≠ .closing r) →
    (g.invocations ≠ [] ↔ request.isDryRun = false ∧
      ∃ roots, request.command.rootPackages = .ok roots ∧
        (roots = [] ∨ (∃ sessions, ScanReturned g₀ ls (.ok sessions)) ∧
          (g.queue.findings.snapshot = [] ∨
            ∃ line, Label.confirm (.ok line) ∈ ls ∧ SaysYes line)))
  /-- Without roots the registry, the service and the user are left alone. -/
  rootless : request.command.rootPackages = .ok [] → g.Silent
  unreadable : ∀ why, request.command.rootPackages = .error why →
    g.Silent ∧ g.invocations = [] ∧ g.phase = .ended (.error why.failure)
  failed : ∀ e, ScanReturned g₀ ls (.error e) → g.prompts = [] ∧ g.invocations = [] ∧
    (g.phase = .closing (.error e) ∨ g.phase = .ended (.error e))
  declined : ∀ reply, Label.confirm reply ∈ ls → (¬∃ line, reply = .ok line ∧ SaysYes line) →
    g.invocations = [] ∧ ∃ o, g.phase = .ended (.ok o) ∧ o.finalState = .blocked ∧
      o.managerCode = none ∧ o.exitCode = 1

theorem isSorted_of_steps (h : Steps step (start request settings memo) ls g)
    (h₀ : (start request settings memo).queue.findings.IsSorted) : g.queue.findings.IsSorted := by
  refine h.invariant (P := fun g => g.queue.findings.IsSorted) ?_ h₀
  intro g l g' hg hstep
  exact (step_move hstep).isSorted hg

/-- Reading the command changes neither the queue nor the explorer. -/
theorem start_beside (request : Request) (settings : Settings) (memo : Option Memo) :
    Beside (initial request settings memo) (start request settings memo) := by
  cases hroots : request.command.rootPackages with
  | error why =>
    unfold start
    rw [hroots]
    exact ⟨rfl, rfl, rfl, rfl⟩
  | ok roots =>
    cases roots with
    | nil =>
      have hstart : start request settings memo =
          (initial request settings memo).passThrough := by
        unfold start
        rw [hroots]
      rw [hstart]
      exact handOver_beside _ _
    | cons root rest =>
      rw [start_of_roots hroots]
      exact ⟨rfl, rfl, rfl, rfl⟩

/-- A run begins with a new queue. -/
theorem start_queue (request : Request) (settings : Settings) (memo : Option Memo) :
    (start request settings memo).queue =
      .ofSizes settings.queueCapacity settings.analysisWorkers :=
  (start_beside request settings memo).queue

/-- A run that asks nobody and never stops the queue has not scanned. -/
theorem not_scanReturned_of_done (h : ∀ pre h, pre <+: ls → Steps step g₀ pre h →
    (∃ result, h.phase = .ended result) ∨ ∃ o, h.phase = .installing o)
    (r : Except Failure (List Session)) : ¬ScanReturned g₀ ls r := by
  rintro ⟨pre, a, hpre, ha, hphase⟩
  rcases h pre a hpre ha with ⟨_, hp⟩ | ⟨_, hp⟩ <;> rw [hphase] at hp <;> cases hp

section Rules

/-! Each kind of run keeps the rules; the two on the findings are the same for all. -/

variable (hsorted : g.queue.findings.IsSorted)
  (hcomplete : ∀ pre h, pre <+: ls → Steps step (start request settings memo) pre h →
    h.queue.findings.snapshot.Sublist g.queue.findings.snapshot)

include hsorted hcomplete

/-- A specification that cannot be read is refused at once. -/
theorem decidesExactly_of_unreadable {why : Package.SpecError}
    (hroots : request.command.rootPackages = .error why)
    (h : Steps step (start request settings memo) ls g) :
    DecidesExactly request (start request settings memo) ls g := by
  obtain ⟨hsilent, hr, hinv, hphase⟩ := silent_of_unreadable hroots h
  have hnone : ∀ r, ¬ScanReturned (start request settings memo) ls r := by
    refine not_scanReturned_of_done fun pre a _ ha => ?_
    obtain ⟨-, -, -, hp⟩ := silent_of_unreadable hroots ha
    exact .inl ⟨_, hp⟩
  refine {
    started_once := .inl hinv
    asked_once := .inl hsilent.prompts
    answered_once := by rw [hr]; exact Nat.zero_le _
    findings_sorted := hsorted
    findings_complete := hcomplete
    scanned_all := fun sessions hret => absurd hret (hnone _)
    undecided := fun r hp => ?_
    asked_iff := fun _ =>
      ⟨fun hne => absurd hsilent.prompts hne, fun ⟨⟨_, hret⟩, _⟩ => absurd hret (hnone _)⟩
    started_iff := fun _ => ⟨fun hne => absurd hinv hne, fun ⟨_, roots, hroots', _⟩ => ?_⟩
    rootless := fun hroots' => ?_
    unreadable := fun why' hroots' => ?_
    failed := fun e hret => absurd hret (hnone _)
    declined := fun reply hreply => ?_ }
  · rw [hphase] at hp
    cases hp
  · rw [hroots] at hroots'
    cases hroots'
  · rw [hroots] at hroots'
    cases hroots'
  · rw [hroots] at hroots'
    cases hroots'
    exact ⟨hsilent, hinv, hphase⟩
  · rw [← mem_replies, hr] at hreply
    cases hreply

/-- A command that names no package is handed over at once. -/
theorem decidesExactly_of_rootless (hroots : request.command.rootPackages = .ok [])
    (h : Steps step (start request settings memo) ls g) :
    DecidesExactly request (start request settings memo) ls g := by
  obtain ⟨hsilent, hr, o, -, ho⟩ := silent_of_rootless hroots h
  have hnone : ∀ r, ¬ScanReturned (start request settings memo) ls r := by
    refine not_scanReturned_of_done fun pre a _ ha => ?_
    obtain ⟨-, -, o', -, ho'⟩ := silent_of_rootless hroots ha
    exact ho'.phase_cases
  refine {
    started_once := ?_
    asked_once := .inl hsilent.prompts
    answered_once := by rw [hr]; exact Nat.zero_le _
    findings_sorted := hsorted
    findings_complete := hcomplete
    scanned_all := fun sessions hret => absurd hret (hnone _)
    undecided := fun r hp => ?_
    asked_iff := fun _ =>
      ⟨fun hne => absurd hsilent.prompts hne, fun ⟨⟨_, hret⟩, _⟩ => absurd hret (hnone _)⟩
    started_iff := fun _ => ?_
    rootless := fun _ => hsilent
    unreadable := fun why hroots' => ?_
    failed := fun e hret => absurd hret (hnone _)
    declined := fun reply hreply => ?_ }
  · cases ho with
    | shown _ _ hi => exact .inl hi
    | running _ _ hi | ended _ _ _ hi => exact .inr hi
  · rcases ho.phase_cases with ⟨_, hp'⟩ | ⟨_, hp'⟩ <;> rw [hp] at hp' <;> cases hp'
  · rw [ho.invocations_iff]
    exact ⟨fun hdry => ⟨hdry, [], hroots, .inl rfl⟩, fun ⟨hdry, _⟩ => hdry⟩
  · rw [hroots] at hroots'
    cases hroots'
  · rw [← mem_replies, hr] at hreply
    cases hreply

/-- With roots, what is asked and started depends on how their scan went. -/
theorem decidesExactly_of_roots {root : Package} {rest : List Package}
    (hroots : request.command.rootPackages = .ok (root :: rest))
    (h : Steps step (start request settings memo) ls g) :
    DecidesExactly request (start request settings memo) ls g := by
  have hcourse := course_of_steps hroots h
  obtain ⟨hstarted, hasked, hanswered⟩ := hcourse.record
  refine {
    started_once := hstarted
    asked_once := hasked
    answered_once := hanswered
    findings_sorted := hsorted
    findings_complete := hcomplete
    scanned_all := fun sessions hret => by rw [hcourse.sessions_eq h hret, hroots]
    undecided := fun r hp => ?_
    asked_iff := hcourse.asked_iff h
    started_iff := fun hnot => ?_
    rootless := fun hroots' => ?_
    unreadable := fun why hroots' => ?_
    failed := fun e hret => hcourse.of_failed h hret
    declined := fun reply hreply hno => ?_ }
  · obtain ⟨-, -, hu, -⟩ := hcourse.of_closing hp
    exact ⟨hu.prompts, hu.invocations, hcourse.exists_step hp⟩
  · -- With roots, the case of a command without any cannot be meant.
    rw [hcourse.started_iff h hnot]
    constructor
    · rintro ⟨hdry, hcleared⟩
      exact ⟨hdry, root :: rest, hroots, .inr hcleared⟩
    · rintro ⟨hdry, roots, hroots', hnil | hcleared⟩
      · rw [hroots, hnil] at hroots'
        cases hroots'
      · exact ⟨hdry, hcleared⟩
  · rw [hroots] at hroots'
    cases hroots'
  · rw [hroots] at hroots'
    cases hroots'
  · obtain ⟨hinv, o, hp, hfs, hmc⟩ := hcourse.of_declined (mem_replies.mpr hreply) hno
    refine ⟨hinv, o, hp, hfs, hmc, ?_⟩
    unfold Outcome.exitCode
    rw [hfs]
    rfl

end Rules

/-- **The decision is exactly right**: every run of the gate, for every request and all
settings, asks and starts by the rules. -/
theorem decides_exactly (request : Request) (settings : Settings) (memo : Option Memo)
    {ls : List Label} {g : Gate} (h : Steps step (start request settings memo) ls g) :
    DecidesExactly request (start request settings memo) ls g := by
  have hsorted : g.queue.findings.IsSorted := by
    refine isSorted_of_steps h ?_
    rw [start_queue]
    exact Findings.isSorted_empty
  have hcomplete : ∀ pre h, pre <+: ls → Steps step (start request settings memo) pre h →
      h.queue.findings.snapshot.Sublist g.queue.findings.snapshot := by
    rintro pre a ⟨rest, rfl⟩ ha
    obtain ⟨m, hm, hrest⟩ := h.split
    rw [hm.det ha] at hrest
    exact findings_mono_of_steps hrest
  cases hroots : request.command.rootPackages with
  | error why => exact decidesExactly_of_unreadable hsorted hcomplete hroots h
  | ok roots =>
    cases roots with
    | nil => exact decidesExactly_of_rootless hsorted hcomplete hroots h
    | cons root rest => exact decidesExactly_of_roots hsorted hcomplete hroots h

/-- A command that names one package. -/
def oneRoot : Request := ⟨⟨.npm, "install", ["left-pad@1"]⟩, false⟩

/-- A run of it in which the package is found malicious and the user agrees. -/
def agreedRun : List Label :=
  [.resolve, .explore (.walk 0 (.start 0)), .explore (.walk 0 (.request 0)),
    .explore (.walk 0 (.answer 0 (.ok ⟨"left-pad", "1", []⟩))), .explore (.walk 0 (.finish 0)),
    .arrive, .analyze .offer, .analyze (.listen 0), .analyze (.take 0),
    .analyze (.submitted 0 (.ok "17")),
    .analyze (.reported 0 (.ok (some ⟨some ⟨true, "steals tokens"⟩⟩))), .analyze .settle, .resume,
    .analyze (.listen 0), .analyze (.leave 0), .analyze .closed, .resume,
    .confirm (.ok " Yes\n"), .install (.ok 0)]

theorem decides_exactly_agreed : ∃ g,
    Steps step (start oneRoot { analysisWorkers := 1 } none) agreedRun g ∧
    DecidesExactly oneRoot (start oneRoot { analysisWorkers := 1 } none) agreedRun g ∧
    g.prompts = [[⟨"left-pad@1", "steals tokens"⟩]] ∧
    g.invocations = [("npm", ["install", "left-pad@1"])] := by
  have hrun : (agreedRun.foldlM step (start oneRoot { analysisWorkers := 1 } none)).map
      (fun g => (g.prompts, g.invocations)) =
      some ([[⟨"left-pad@1", "steals tokens"⟩]], [("npm", ["install", "left-pad@1"])]) := by
    decide +kernel
  obtain ⟨g, hg, heq⟩ := Option.map_eq_some_iff.mp hrun
  obtain ⟨hprompts, hinv⟩ := Prod.mk.inj heq
  have hsteps := steps_iff_foldlM.mpr hg
  exact ⟨g, hsteps, decides_exactly _ _ _ hsteps, hprompts, hinv⟩

end Gate

end PackageGate
