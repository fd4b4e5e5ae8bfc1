import PackageGate.Proofs.Gate.Path
import PackageGate.Proofs.Gate.Silence
import PackageGate.Proofs.Gate.Verdicts

/-!
# One deadline for the whole scan of a root

The deadline of a scan is fixed when the scan begins, and all its stages are under it. In virtual
time, registry and service answer when they like, or never: still no scan outlives its deadline,
and nothing outlives the last scan, since stopping the queue needs no answer. So the decision
comes within the budgets of all roots.

- `Gate.Timely`, `Gate.timely_of_steps`: no scan is late, and the deadlines of all scans add up.
- `Gate.LastScan`, `Gate.exists_lastScan`: the scan behind a state; stopping the queue after it
  takes no time.
- `Gate.undecided_of_scanning`: how long the gate says that it scans a root.
- `Gate.step_expire`: what the deadline does.
- `Gate.Punctual`, `Gate.scans_are_punctual`: what is promised of every run in virtual time.
-/

namespace PackageGate

namespace Gate

variable {g g' m g₀ : Gate} {l : Label} {ls ks : List Label} {s : Scan} {a b : Gate}
  {r : Except Failure (List Session)} {result : Except Failure Session}

/-! ## Deadlines that are kept -/

/-- A scan that is going on at the time `now`, when each scan has the budget `timeout`. -/
structure Scan.Timely (timeout now : Nat) (s : Scan) : Prop where
  budget : s.deadline.budget = timeout
  inTime : now ≤ s.deadline.instant
  bounded : s.deadline.instant ≤ (s.sessions.length + 1) * timeout

/-- The scan that is going on is not late. -/
structure Timely (g : Gate) : Prop where
  scan : ∀ s, g.phase.scan? = some s → s.Timely g.settings.scanTimeout g.now
  begun : ∀ s, g.phase = .resolving s → s.deadline = .after g.now g.settings.scanTimeout

/-- Time does not pass the deadline of the scan that is going on. -/
theorem tick_le {d : Nat} (h : g.step (.tick d) = some g') (hscan : g.phase.scan? = some s) :
    g.now + d ≤ s.deadline.instant := by
  have hdeadline : g.deadline? = some s.deadline.instant := by
    rw [deadline?_eq, hscan]
    rfl
  simp only [step, hdeadline] at h
  split at h
  · cases h
  · split at h
    · cases h
    · rename_i _ heq _
      cases heq
      split at h
      · assumption
      · cases h
    · rename_i heq _
      cases heq

theorem Timely.of_unscanned (h : g.phase.scan? = none) : Timely g := by
  constructor
  · intro s hs
    rw [h] at hs
    cases hs
  · intro s hs
    rw [hs] at h
    cases h

/-- The next scan begins before the deadlines of those before it have added up. -/
theorem Timely.of_settle (h : s.Timely g.settings.scanTimeout g.now)
    (result : Except Failure Session) : Timely (g.settle s result) := by
  obtain ⟨ns, history, ⟨root, rest, -, hg⟩ | ⟨scanned, hg, -⟩⟩ := settle_cases g s result
  · rw [hg]
    constructor
    · rintro s' ⟨⟩
      refine ⟨rfl, Nat.le_add_right _ _, ?_⟩
      -- The new deadline is one budget from now, and now is within the budgets before.
      have hlate : g.now ≤ (s.sessions.length + 1) * g.settings.scanTimeout :=
        h.inTime.trans h.bounded
      show g.now + g.settings.scanTimeout ≤
        ((s.sessions ++ [s.outcome result]).length + 1) * g.settings.scanTimeout
      rw [List.length_append, List.length_singleton, Nat.succ_mul]
      omega
    · rintro s' ⟨⟩
      rfl
  · rw [hg]
    exact .of_unscanned rfl

/-- Every step keeps the deadlines. -/
theorem Timely.step (h : Timely g) (hstep : g.step l = some g') : Timely g' := by
  cases step_move hstep with
  | explore | analyze => exact ⟨h.scan, h.begun⟩
  | @tick d =>
    constructor
    · intro s hs
      have hscan : g.phase.scan? = some s := hs
      exact { h.scan s hscan with inTime := tick_le hstep hscan }
    · intro s hs
      -- The gate goes on at once where a scan begins, so no time passes there.
      have hready : g.isReady = true := by
        have hphase : g.phase = .resolving s := hs
        rw [isReady, hphase]
      simp only [Gate.step, hready, if_true] at hstep
      cases hstep
  | @lookUp s hp => exact ⟨fun s' hs' => h.scan s' (by rw [hp]; exact hs'), by rintro _ ⟨⟩⟩
  | @walk _ s _ _ hp =>
    refine ⟨fun s' hs' => h.scan s' ?_, by rintro _ ⟨⟩⟩
    rcases hp with ⟨hp, -⟩ | ⟨hp, -⟩ <;> rw [hp] <;> exact hs'
  | @arrive s _ _ _ _ hp => exact ⟨fun s' hs' => h.scan s' (by rw [hp]; exact hs'), by rintro _ ⟨⟩⟩
  | complete hp => exact .of_settle (h.scan _ (by rw [hp]; rfl)) _
  | @fail _ s x q e _ hscan =>
    exact of_settle (g := { g with explorer := x, queue := q }) (h.scan s hscan) _
  | decide => exact .of_unscanned (scan?_of_isDecided (decide_isDecided g _))
  | follow => exact .of_unscanned (scan?_of_isDecided (follow_isDecided g _ _ _))
  | install => exact .of_unscanned rfl

variable {request : Request} {settings : Settings} {memo : Option Memo} {roots : List Package}

theorem timely_start (request : Request) (settings : Settings) (memo : Option Memo) :
    Timely (start request settings memo) := by
  by_cases hroots : ∃ root rest, request.command.rootPackages = .ok (root :: rest)
  · obtain ⟨root, rest, hroots⟩ := hroots
    rw [start_of_roots hroots]
    constructor
    · rintro s ⟨⟩
      exact ⟨rfl, Nat.zero_le _, by simp [Deadline.after, initial]⟩
    · rintro s ⟨⟩
      rfl
  · push Not at hroots
    exact .of_unscanned (scan?_of_isDecided (start_isDecided hroots))

/-- No scan is ever late. -/
theorem timely_of_steps (h : Steps step (start request settings memo) ls g) : Timely g :=
  h.invariant (fun hm hstep => hm.step hstep) (timely_start request settings memo)

/-! ## The scan behind a state -/

/-- The last scan in the run `ls` from `g₀` to `g` is `s`: it has begun in the state `a`, and `b`
is its last state. No time has passed since then. -/
structure LastScan (g₀ : Gate) (ls : List Label) (g : Gate) (s : Scan) (a b : Gate) : Prop where
  stretch : ∃ before scan rest, ls = before ++ scan ++ rest ∧ Steps step g₀ before a ∧
    Scanning s a scan b ∧ Steps step b rest g
  now : g.now = b.now
  named : ∀ name, g.history.getLast? = some (.scanning name) → s.root.display = name
  going : b = g ∨ ∃ r, g.phase = .closing r

theorem Scanning.phase_eq (h : Scanning s a ls b) : a.phase = .resolving s := by
  induction h with
  | begins hp => exact hp
  | goes _ _ _ ih => exact ih

/-- The gate has told the name of the root that it scans. -/
theorem getLast?_history {root : Package} {rest : List Package}
    (hroots : request.command.rootPackages = .ok (root :: rest))
    (h : Steps step (start request settings memo) ls g) (hscan : g.phase.scan? = some s) :
    g.history.getLast? = some (.scanning s.root.display) := by
  rw [((path_of_scan? hscan).mp (onPath_of_steps hroots h)).history, List.getLast?_concat]

/-- A scan that is going on is the last one. -/
theorem exists_lastScan_of_scan {root : Package} {rest : List Package}
    (hroots : request.command.rootPackages = .ok (root :: rest))
    (h : Steps step (start request settings memo) ls g) (hscan : g.phase.scan? = some s) :
    ∃ a, LastScan (start request settings memo) ls g s a g := by
  obtain ⟨-, before, scan, a, hls, ha, hab⟩ := (traced_of_steps hroots h).scanning s hscan
  refine ⟨a, ⟨before, scan, [], by rw [List.append_nil, hls], ha, hab, .refl⟩, rfl, ?_, .inl rfl⟩
  intro name hname
  rw [getLast?_history hroots h hscan] at hname
  cases hname
  rfl

/-- A step that takes no time and begins no scan leaves the last scan what it was. -/
theorem LastScan.tail (h : LastScan g₀ ls m s a b) (hstep : m.step l = some g)
    (hnow : g.now = m.now)
    (hnamed : ∀ name, g.history.getLast? = some (.scanning name) →
      m.history.getLast? = some (.scanning name)) (hphase : g.phase = .closing r) :
    LastScan g₀ (ls ++ [l]) g s a b := by
  obtain ⟨before, scan, rest, rfl, ha, hab, hrest⟩ := h.stretch
  exact ⟨⟨before, scan, rest ++ [l], List.append_assoc _ _ _, ha, hab, .tail hrest hstep⟩,
    hnow.trans h.now, fun name hname => h.named name (hnamed name hname), .inr ⟨r, hphase⟩⟩

theorem settle_now (g : Gate) (s : Scan) (result : Except Failure Session) :
    (g.settle s result).now = g.now := by
  obtain ⟨ns, history, ⟨root, rest, -, h⟩ | ⟨scanned, h, -⟩⟩ := settle_cases g s result <;>
    rw [h] <;> rfl

/-- Where scanning is over, the gate still says that it scans a root only if it did so before. -/
theorem named_of_settle {name : String} (hclosed : (g.settle s result).phase.scan? = none)
    (hname : (g.settle s result).history.getLast? = some (.scanning name)) :
    g.history.getLast? = some (.scanning name) := by
  -- A scan that has come to its end is followed by an aggregation or by the next scan.
  have hnext : ∀ {h : Gate} (sessions : List Session), h.history = g.history ++ [.aggregating] →
      (h.next s.remaining sessions).phase.scan? = none →
      (h.next s.remaining sessions).history.getLast? ≠ some (.scanning name) := by
    intro h sessions hhistory hclosed
    cases hremaining : s.remaining with
    | cons root rest =>
      rw [hremaining] at hclosed
      cases hclosed
    | nil =>
      have hkept : (h.next [] sessions).history = h.history := by
        unfold next
        dsimp only
        split <;> rfl
      rw [hkept, hhistory, List.getLast?_concat]
      simp
  unfold settle at hclosed hname
  cases result with
  | ok session => exact absurd hname (hnext _ rfl hclosed)
  | error e =>
    dsimp only at hclosed hname
    split at hname
    · exact hname
    · rename_i hpolicy
      rw [hpolicy] at hclosed
      exact absurd hname (hnext _ rfl hclosed)

/-- Behind every state up to the decision there is a scan, and stopping the queue after it takes
no time. -/
theorem exists_lastScan {root : Package} {rest : List Package}
    (hroots : request.command.rootPackages = .ok (root :: rest))
    (h : Steps stepVirtual (start request settings memo) ls g)
    (hundecided : g.phase.isDecided = false) :
    ∃ s a b, LastScan (start request settings memo) ls g s a b := by
  have hgoing : ∀ {ls : List Label} {g : Gate} {s : Scan},
      Steps stepVirtual (start request settings memo) ls g → g.phase.scan? = some s →
      ∃ a, LastScan (start request settings memo) ls g s a g :=
    fun h hscan => exists_lastScan_of_scan hroots (steps_of_stepVirtual h) hscan
  cases hphase : g.phase with
  | resolving s | looking s | walking s | analyzing s =>
    obtain ⟨a, hlast⟩ := hgoing (s := s) h (by rw [hphase]; rfl)
    exact ⟨s, a, g, hlast⟩
  | confirming | installing | ended => simp [hphase, Phase.isDecided] at hundecided
  | closing r =>
    clear hundecided
    induction h with
    | refl =>
      rw [start_of_roots hroots] at hphase
      cases hphase
    | @tail ls m l g hm hvirtual ih =>
      have hstaged := staged_of_steps (steps_of_stepVirtual hm)
      have hstep := step_of_stepVirtual hstaged hvirtual
      cases step_move hstep with
      | explore | analyze =>
        obtain ⟨s, a, b, hlast⟩ := ih hphase
        exact ⟨s, a, b, hlast.tail hstep rfl (fun _ => id) hphase⟩
      | tick =>
        -- While the queue is being stopped, somebody goes on, and the clock stands.
        obtain ⟨l, hl, hstop⟩ := hstaged.exists_stop hphase
        exact absurd (still_of_tick hvirtual) (not_still_of_step (isInner_of_isStopping hl) hstop)
      | lookUp | walk | arrive => cases hphase
      | @complete s tree keys hp =>
        obtain ⟨a, hlast⟩ := hgoing (s := s) hm (by rw [hp]; rfl)
        exact ⟨s, a, m, hlast.tail hstep (settle_now _ _ _)
          (fun _ => named_of_settle (by rw [hphase]; rfl)) hphase⟩
      | @fail _ s x q e _ hscan =>
        obtain ⟨a, hlast⟩ := hgoing hm hscan
        exact ⟨s, a, m, hlast.tail hstep (settle_now _ _ _)
          (fun _ => named_of_settle (g := { m with explorer := x, queue := q })
            (by rw [hphase]; rfl)) hphase⟩
      | decide =>
        have hdecided := decide_isDecided m ‹_›
        rw [hphase] at hdecided
        cases hdecided
      | follow =>
        have hdecided := follow_isDecided m ‹_› ‹_› ‹_›
        rw [hphase] at hdecided
        cases hdecided
      | install => cases hphase

/-- The last scan has begun no longer ago than its budget, and the budgets of all roots up to it
have not been used up. -/
theorem LastScan.inTime {root : Package} {rest : List Package}
    (hroots : request.command.rootPackages = .ok (root :: rest))
    (h : LastScan (start request settings memo) ls g s a b) :
    s.deadline = .after a.now settings.scanTimeout ∧ g.now ≤ a.now + settings.scanTimeout ∧
      g.now ≤ (root :: rest).length * settings.scanTimeout := by
  obtain ⟨before, scan, after, -, ha, hab, -⟩ := h.stretch
  have hsettings : (start request settings memo).settings = settings := by
    rw [start_of_roots hroots]
    rfl
  have hb := ha.trans hab.steps
  have hdeadline : s.deadline = .after a.now settings.scanTimeout := by
    rw [(timely_of_steps ha).begun s hab.phase_eq, settings_of_steps ha, hsettings]
  have htimely := (timely_of_steps hb).scan s hab.scan?_eq
  rw [settings_of_steps hb, hsettings] at htimely
  have hinTime : g.now ≤ s.deadline.instant := h.now ▸ htimely.inTime
  refine ⟨hdeadline, ?_, ?_⟩
  · rw [hdeadline] at hinTime
    exact hinTime
  · have hpath := (path_of_scan? hab.scan?_eq).mp (onPath_of_steps hroots hb)
    have hcount : s.sessions.length + 1 ≤ (root :: rest).length := by
      rw [← hpath.roots, List.length_append, List.length_map, List.length_cons]
      omega
    calc
      g.now ≤ s.deadline.instant := hinTime
      _ ≤ (s.sessions.length + 1) * settings.scanTimeout := htimely.bounded
      _ ≤ (root :: rest).length * settings.scanTimeout := Nat.mul_le_mul_right _ hcount

/-! ## The state that the gate says it is in -/

theorem history_handOver (g : Gate) (o : Outcome) : (g.handOver o).history = g.history := by
  rcases handOver_cases g o with ⟨-, _, h⟩ | ⟨-, h⟩ <;> rw [h]

/-- After the decision the gate does not say any more that it scans a root. -/
theorem not_scanning_of_decide (scanned : Except Failure (List Session)) (name : String) :
    (g.decide scanned).history.getLast? ≠ some (.scanning name) := by
  unfold decide
  cases scanned with
  | error e =>
    show (g.history ++ [State.error]).getLast? ≠ _
    simp
  | ok sessions =>
    dsimp only
    split
    · rw [history_handOver]
      show (g.history ++ [State.clean]).getLast? ≠ _
      simp
    · show (g.history ++ [State.flagged]).getLast? ≠ _
      simp

theorem not_scanning_of_follow (sessions : List Session) (flagged : List Finding)
    (reply : Except Failure String) (name : String) :
    (g.follow sessions flagged reply).history.getLast? ≠ some (.scanning name) := by
  show (if accepts reply then _ else _ : Gate).history.getLast? ≠ _
  split
  · rw [history_handOver]
    show (g.history ++ [State.clean]).getLast? ≠ _
    simp
  · show (g.history ++ [State.blocked]).getLast? ≠ _
    simp

theorem settle_undecided (s : Scan) (result : Except Failure Session) :
    (g.settle s result).phase.isDecided = false := by
  obtain ⟨ns, history, ⟨root, rest, -, h⟩ | ⟨scanned, h, -⟩⟩ := settle_cases g s result <;>
    rw [h] <;> rfl

/-- As long as the gate says that it scans a root, it has not decided. -/
theorem undecided_of_scanning {name : String}
    (h : Steps step (start request settings memo) ls g)
    (hname : g.history.getLast? = some (.scanning name)) : g.phase.isDecided = false := by
  revert hname
  refine h.invariant
    (P := fun g => g.history.getLast? = some (.scanning name) → g.phase.isDecided = false) ?_ ?_
  · intro g l g' hg hstep
    cases step_move hstep with
    | explore | analyze | tick => exact hg
    | lookUp | walk | arrive => exact fun _ => rfl
    | complete | fail => exact fun _ => settle_undecided _ _
    | decide => exact fun hname => absurd hname (not_scanning_of_decide _ _)
    | follow => exact fun hname => absurd hname (not_scanning_of_follow _ _ _ _)
    | install hp =>
      intro hname
      have hg := hg hname
      rw [hp] at hg
      cases hg
  · unfold start
    cases request.command.rootPackages with
    | error why => rintro ⟨⟩
    | ok roots =>
      cases roots with
      | nil =>
        dsimp only
        rw [passThrough, history_handOver]
        rintro ⟨⟩
      | cons root rest => exact fun _ => rfl

/-! ## What the deadline does -/

/-- The package that a stage of a scan is about. -/
def Phase.subject? : Phase → Option Package
  | .looking s => some s.root
  | .walking _ p _ => some p
  | .analyzing _ tree _ => some tree.package
  | _ => none

/-- When the deadline fires, the scan is over and comes to nothing, whatever its stage. -/
theorem step_expire (h : g.step .expire = some g') : ∃ s p x q, g.phase.scan? = some s ∧
    g.phase.subject? = some p ∧ s.deadline.instant ≤ g.now ∧
    g' = ({ g with explorer := x, queue := q }).settle s
      (.error (s.deadline.cancelled p.key)) := by
  simp only [step] at h
  split at h
  · rename_i s hphase
    split at h <;> cases h
    exact ⟨s, s.root, g.explorer, g.queue, by rw [hphase]; rfl, by rw [hphase]; rfl,
      of_decide_eq_true ‹_›, rfl⟩
  · rename_i s p i hphase
    split at h
    · obtain ⟨x, -, rfl⟩ := Option.map_eq_some_iff.mp h
      exact ⟨s, p, x, g.queue, by rw [hphase]; rfl, by rw [hphase]; rfl,
        of_decide_eq_true ‹_›, rfl⟩
    · cases h
  · rename_i s tree keys hphase
    split at h
    · obtain ⟨q, -, rfl⟩ := Option.map_eq_some_iff.mp h
      exact ⟨s, tree.package, g.explorer, q, by rw [hphase]; rfl, by rw [hphase]; rfl,
        of_decide_eq_true ‹_›, rfl⟩
    · cases h
  · cases h

/-! ## What is promised -/

/-- What is promised of the state `g` to which the steps `ls` have led from `g₀` in virtual
time. -/
structure Punctual (request : Request) (settings : Settings) (g₀ : Gate) (ls : List Label)
    (g : Gate) : Prop where
  /-- In all stages of a scan, the gate says that it scans the root. -/
  named : ∀ s, g.phase.scan? = some s → g.history.getLast? = some (.scanning s.root.display)
  /-- As long as it says so, no more time has passed since the scan has begun than its budget. -/
  scanning : ∀ name, g.history.getLast? = some (.scanning name) →
    ∃ s a b, LastScan g₀ ls g s a b ∧ s.root.display = name ∧
      s.deadline = .after a.now settings.scanTimeout ∧ g.now ≤ a.now + settings.scanTimeout
  /-- When the deadline has come, the scan goes on at once or ends, in whatever stage it is. -/
  due : ∀ s, g.phase.scan? = some s → s.deadline.instant ≤ g.now → g.Proceeds
  /-- A scan that is ended by its deadline is ended at that instant, and the failure is that the
  budget has been used up. -/
  cancelled : ∀ g', g.step .expire = some g' → ∃ s a p x q, LastScan g₀ ls g s a g ∧
    g.phase.subject? = some p ∧ g.now = a.now + settings.scanTimeout ∧
    g' = ({ g with explorer := x, queue := q }).settle s
      (.error (.ofFault (.cancelled p.key settings.scanTimeout)))
  /-- When scanning is over, whatever its result, all items that are left are outdated. -/
  outdated : ∀ r, g.phase = .closing r →
    ∀ item ∈ g.queue.channel ++ g.queue.held, item.epoch < g.queue.epoch
  /-- So the gate and the workers alone, without any answer, bring the queue to a stop. -/
  stops : ∀ r, g.phase = .closing r → ∀ ks g', Steps step g ks g' →
    (∀ l ∈ ks, l.isStopping = true) → ks.length ≤ g.queue.work + 1 ∧
      (g'.phase.isDecided = true ∨ ∃ l, l.isStopping = true ∧ (g'.step l).isSome)
  /-- No time passes until it has stopped. -/
  atOnce : ∀ r, g.phase = .closing r → ∃ s a b, LastScan g₀ ls g s a b
  /-- Up to then no more time has passed than the budgets of all roots. -/
  within : g.phase.isDecided = false → ∃ roots, request.command.rootPackages = .ok roots ∧
    g.now ≤ roots.length * settings.scanTimeout
  /-- And up to then there is a step without any answer, if only that time passes. -/
  goesOn : g.phase.isDecided = false → ∃ g', Alone g' g
  /-- But no endless run of such steps, so the decision comes even if nobody answers any more. -/
  ends : Acc Alone g

/-- A run that has decided and scans nothing keeps every promise. -/
theorem Punctual.of_decided (h : Steps step (start request settings memo) ls g)
    (hdecided : g.phase.isDecided = true) :
    Punctual request settings (start request settings memo) ls g := by
  have hscan : ∀ s, g.phase.scan? ≠ some s := by
    intro s hs
    rw [scan?_of_isDecided hdecided] at hs
    cases hs
  have hclosing : ∀ r, g.phase ≠ .closing r := by
    intro r hr
    rw [hr] at hdecided
    cases hdecided
  constructor
  case named => exact fun s hs => absurd hs (hscan s)
  case scanning =>
    intro name hname
    rw [undecided_of_scanning h hname] at hdecided
    cases hdecided
  case due => exact fun s hs => absurd hs (hscan s)
  case cancelled =>
    intro g' hg'
    obtain ⟨s, p, x, q, hs, -⟩ := step_expire hg'
    exact absurd hs (hscan s)
  case outdated => exact fun r hr => absurd hr (hclosing r)
  case stops => exact fun r hr => absurd hr (hclosing r)
  case atOnce => exact fun r hr => absurd hr (hclosing r)
  case within | goesOn =>
    intro hundecided
    rw [hundecided] at hdecided
    cases hdecided
  case ends =>
    refine .intro g fun g' halone => ?_
    rw [halone.1] at hdecided
    cases hdecided

/-- **One deadline governs the whole scan of a root, and nothing outlives it.** For every request,
all settings and every memo, in every run in virtual time: whatever the registry and the service
answer, and when, or if they never do, no state has the gate scan a root later than the budget
after that scan has begun. A scan that is late ends with a failure that tells the budget. When
scanning is over, all that is left is outdated, the workers exit without any answer, and the
scanning phase has taken no more time than the number of roots times the budget. It does end:
there is no endless run without an answer, and up to the decision there is always a next step. -/
theorem scans_are_punctual (request : Request) (settings : Settings) (memo : Option Memo)
    {ls : List Label} {g : Gate} (h : Steps stepVirtual (start request settings memo) ls g) :
    Punctual request settings (start request settings memo) ls g := by
  have hsteps := steps_of_stepVirtual h
  have hstaged := staged_of_steps hsteps
  by_cases hdecided : g.phase.isDecided = true
  · exact .of_decided hsteps hdecided
  have hundecided : g.phase.isDecided = false := by simpa using hdecided
  by_cases hrooted : ∃ root rest, request.command.rootPackages = .ok (root :: rest)
  · obtain ⟨root, rest, hroots⟩ := hrooted
    obtain ⟨s, a, b, hlast⟩ := exists_lastScan hroots h hundecided
    obtain ⟨hdeadline, hinTime, hwithin⟩ := hlast.inTime hroots
    constructor
    case named => exact fun s hs => getLast?_history hroots hsteps hs
    case scanning =>
      exact fun name hname => ⟨s, a, b, hlast, hlast.named name hname, hdeadline, hinTime⟩
    case due => exact fun s hs hdue => hstaged.proceeds_of_due hs hdue
    case cancelled =>
      intro g' hg'
      obtain ⟨s, p, x, q, hs, hp, hdue, rfl⟩ := step_expire hg'
      obtain ⟨a, hlast⟩ := exists_lastScan_of_scan hroots hsteps hs
      obtain ⟨hdeadline, hinTime, -⟩ := hlast.inTime hroots
      rw [hdeadline] at hdue ⊢
      exact ⟨s, a, p, x, q, hlast, hp, le_antisymm hinTime hdue, rfl⟩
    case outdated =>
      intro r hr
      have hengaged := hstaged.engaged
      rw [hr] at hengaged
      refine hstaged.tended.outdated ?_
      rintro (⟨keys, hc⟩ | hc) <;> rcases hengaged.2 with hc' | hrest
      · simp [hc'] at hc
      · simp [hrest.returned] at hc
      · simp [hc'] at hc
      · simp [hrest.returned] at hc
    case stops =>
      intro r hr ks g' hks hstopping
      have hstaged' : Staged g' := hks.invariant (fun hm hk => hm.move (step_move hk)) hstaged
      rcases hstaged.stops hr hks hstopping with ⟨hr', hle⟩ | ⟨hdecided', -, hle⟩
      · exact ⟨by omega, .inr (hstaged'.exists_stop hr')⟩
      · exact ⟨hle, .inl hdecided'⟩
    case atOnce => exact fun r _ => ⟨s, a, b, hlast⟩
    case within => exact fun _ => ⟨root :: rest, hroots, hwithin⟩
    case goesOn => exact exists_alone
    case ends =>
      refine acc_alone ((root :: rest).length * settings.scanTimeout) ?_ h
      intro ls g h hundecided
      obtain ⟨s, a, b, hlast⟩ := exists_lastScan hroots h hundecided
      exact (hlast.inTime hroots).2.2
  · -- A request without roots is decided from the beginning.
    push Not at hrooted
    have hstart : (start request settings memo).phase.isDecided = true := start_isDecided hrooted
    have hlate := hsteps.invariant (P := fun g => g.phase.isDecided = true)
      (fun hm hk => (step_move hk).isDecided hm) hstart
    exact absurd hlate hdecided

/-- A run for one package under a budget of two. Half of the budget passes until the registry
answers, and then the analysis service never does. -/
def hungRun : List Label :=
  [.resolve, .explore (.walk 0 (.start 0)), .explore (.walk 0 (.request 0)), .analyze (.listen 0),
    .tick 1, .explore (.walk 0 (.answer 0 (.ok ⟨"left-pad", "1", []⟩))),
    .explore (.walk 0 (.finish 0)), .arrive, .analyze .offer, .analyze (.take 0), .tick 1, .expire]

/-- The steps that stop the queue after it. -/
def hungStop : List Label :=
  [.analyze (.abort 0), .analyze (.listen 0), .analyze (.leave 0), .analyze .closed, .resume]

/-- The service never answers, and the scan ends with the budget. -/
theorem scans_are_punctual_hung : ∃ g g',
    Steps stepVirtual (start oneRoot { analysisWorkers := 1, scanTimeout := 2 } none) hungRun g ∧
    Punctual oneRoot { analysisWorkers := 1, scanTimeout := 2 }
      (start oneRoot { analysisWorkers := 1, scanTimeout := 2 } none) hungRun g ∧
    g.now = 2 ∧ g.history.getLast? = some (.scanning "left-pad@1") ∧ g.queue.held ≠ [] ∧
    Steps stepVirtual g hungStop g' ∧ g'.now = 2 ∧
    g'.result? = some (.error ((Failure.ofFault (.cancelled "left-pad@1" 2)).during
      (.scanning "left-pad@1"))) := by
  have hrun : (do
      let g ← hungRun.foldlM stepVirtual
        (start oneRoot { analysisWorkers := 1, scanTimeout := 2 } none)
      let g' ← hungStop.foldlM stepVirtual g
      return (g.now = 2 ∧ g.history.getLast? = some (.scanning "left-pad@1") ∧
        g.queue.held ≠ [] ∧ g'.now = 2 ∧
        g'.result? = some (.error ((Failure.ofFault (.cancelled "left-pad@1" 2)).during
          (.scanning "left-pad@1"))) : Bool)) = some true := by
    decide +kernel
  simp only [Option.bind_eq_bind, Option.bind_eq_some_iff, Option.pure_def, Option.some.injEq,
    decide_eq_true_eq] at hrun
  obtain ⟨g, hg, g', hg', hnow, hlast, hheld, hnow', hresult⟩ := hrun
  have hsteps := steps_iff_foldlM.mpr hg
  exact ⟨g, g', hsteps, scans_are_punctual _ _ _ hsteps, hnow, hlast, hheld,
    steps_iff_foldlM.mpr hg', hnow', hresult⟩

end Gate

end PackageGate
