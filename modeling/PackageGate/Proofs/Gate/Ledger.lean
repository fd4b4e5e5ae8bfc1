import PackageGate.Proofs.Gate.World

/-!
# The sessions of a run in a world

In a world a run enters one session after another, and it is known beforehand what each of
them has to say: what the world has on its root, or that its scan failed because the world did
not let it through or its time ran out. The findings are those that the sessions account for.

- `Gate.Entered`, `Gate.Book`: what is known of the sessions that have been entered, and of the
  findings.
- `Gate.Scanned`: what scanning as a whole comes to.
- `Gate.Ledger`: the invariant; `Gate.Ledger.move`: every move in the world keeps it.
-/

namespace PackageGate

namespace Gate

variable {v : World} {g g' g₀ : Gate} {l : Label} {ls : List Label} {s : Scan}
  {late : List Nat} {i : Nat} {session : Session} {sessions : List Session} {f f' : Findings}
  {root : Package} {roots rest : List Package} {policy : RootFailurePolicy} {y : Finding}

/-! ## Sessions and findings -/

/-- What is known of the session number `i`, where the time of the roots with the numbers `late`
has run out. -/
inductive Entered (v : World) (late : List Nat) (i : Nat) (session : Session) : Prop
  | told : v.Tells session → i ∉ late → Entered v late i session
  | failed : session.isFailed = true → session.analyzedKeys = [] → session.flaggedKeys = [] →
    v.Fails session.requested ∨ i ∈ late → Entered v late i session

/-- A session says that the scan has failed exactly where the world did not let it through or
its time ran out. -/
theorem Entered.isFailed_iff (h : Entered v late i session) :
    session.isFailed = true ↔ v.Fails session.requested ∨ i ∈ late := by
  cases h with
  | told htells hlate =>
    rw [htells.isFailed]
    constructor
    · exact nofun
    · rintro (hfails | hmem)
      · exact absurd hfails htells.not_fails
      · exact absurd hmem hlate
  | failed hfailed _ _ hwhy => exact ⟨fun _ => hwhy, fun _ => hfailed⟩

/-- A session that has not failed tells what is so of its root, and was in time. -/
theorem Entered.tells (h : Entered v late i session) (hfailed : session.isFailed = false) :
    v.Tells session ∧ i ∉ late := by
  cases h with
  | told htells hlate => exact ⟨htells, hlate⟩
  | failed htrue =>
    rw [htrue] at hfailed
    cases hfailed

theorem Entered.keys_eq_nil (h : Entered v late i session) (hfailed : session.isFailed = true) :
    session.analyzedKeys = [] ∧ session.flaggedKeys = [] := by
  cases h with
  | told htells =>
    rw [htells.isFailed] at hfailed
    cases hfailed
  | failed _ hanalyzed hflagged => exact ⟨hanalyzed, hflagged⟩

/-- That the time of other roots runs out changes nothing. -/
theorem Entered.append (h : Entered v late i session) {extra : List Nat} (hi : i ∉ extra) :
    Entered v (late ++ extra) i session := by
  cases h with
  | told htells hlate =>
    refine .told htells fun hmem => ?_
    exact (List.mem_append.mp hmem).elim hlate hi
  | failed hfailed hanalyzed hflagged hwhy =>
    exact .failed hfailed hanalyzed hflagged (hwhy.imp_right (List.mem_append_left _))

/-- The finding is on a key that one of the sessions has analyzed. -/
def Known (v : World) (sessions : List Session) (y : Finding) : Prop :=
  ∃ session ∈ sessions, y.key ∈ session.analyzedKeys ∧ v.service.finding? y.key = some y

theorem known_append {sessions' : List Session} :
    Known v (sessions ++ sessions') y ↔ Known v sessions y ∨ Known v sessions' y := by
  simp only [Known, List.mem_append, or_and_right, exists_or]

theorem known_singleton :
    Known v [session] y ↔ y.key ∈ session.analyzedKeys ∧ v.service.finding? y.key = some y := by
  simp only [Known, List.mem_singleton, exists_eq_left]

/-- What is known of the sessions that have been entered, and of the findings. -/
structure Book (v : World) (late : List Nat) (sessions : List Session) (f : Findings) :
    Prop where
  entered : ∀ i session, sessions[i]? = some session → Entered v late i session
  late_lt : ∀ i ∈ late, i < sessions.length
  found : ∀ y, Known v sessions y → y ∈ f.snapshot
  /-- Only a scan whose time has run out leaves findings of its own. -/
  traced : late = [] → ∀ y ∈ f.snapshot, Known v sessions y

theorem book_nil (v : World) : Book v [] [] .empty where
  entered := nofun
  late_lt := nofun
  found := nofun
  traced _ := nofun

theorem Book.congr (h : Book v late sessions f)
    (hf : ∀ y, y ∈ f'.snapshot ↔ y ∈ f.snapshot) : Book v late sessions f' where
  entered := h.entered
  late_lt := h.late_lt
  found y hy := (hf y).mpr (h.found y hy)
  traced hlate y hy := h.traced hlate y ((hf y).mp hy)

/-- One more session is entered; no time has run out but perhaps its own. -/
theorem Book.concat (h : Book v late sessions f) {extra : List Nat}
    (hextra : ∀ i ∈ extra, i = sessions.length)
    (hnew : Entered v (late ++ extra) sessions.length session)
    (hmono : ∀ y ∈ f.snapshot, y ∈ f'.snapshot)
    (hfound : ∀ y, Known v [session] y → y ∈ f'.snapshot)
    (htraced : extra = [] → ∀ y ∈ f'.snapshot, y ∈ f.snapshot ∨ Known v [session] y) :
    Book v (late ++ extra) (sessions ++ [session]) f' where
  entered i session' hi := by
    by_cases hlt : i < sessions.length
    · rw [List.getElem?_append_left hlt] at hi
      refine (h.entered i session' hi).append fun hmem => ?_
      have := hextra i hmem
      omega
    · rw [List.getElem?_append_right (not_lt.mp hlt)] at hi
      obtain ⟨hzero, hsession⟩ := List.getElem?_eq_some_iff.mp hi
      have hi' : i = sessions.length := by
        rw [List.length_singleton] at hzero
        omega
      subst hi'
      have hsession : session = session' := by simpa using hi
      exact hsession ▸ hnew
  late_lt i hi := by
    rw [List.length_append, List.length_singleton]
    rcases List.mem_append.mp hi with hi | hi
    · have := h.late_lt i hi
      omega
    · have := hextra i hi
      omega
  found y hy := by
    rcases known_append.mp hy with hy | hy
    · exact hmono y (h.found y hy)
    · exact hfound y hy
  traced hlate y hy := by
    obtain ⟨hlate, hextra⟩ := List.append_eq_nil_iff.mp hlate
    rw [known_append]
    exact (htraced hextra y hy).imp_left (h.traced hlate y)

/-- One more session is entered, and no time has run out. -/
theorem Book.concat_timely (h : Book v late sessions f)
    (hnew : Entered v late sessions.length session)
    (hmono : ∀ y ∈ f.snapshot, y ∈ f'.snapshot)
    (hfound : ∀ y, Known v [session] y → y ∈ f'.snapshot)
    (htraced : ∀ y ∈ f'.snapshot, y ∈ f.snapshot ∨ Known v [session] y) :
    Book v late (sessions ++ [session]) f' := by
  rw [← late.append_nil] at hnew
  have hbook := h.concat (List.forall_mem_nil _) hnew hmono hfound fun _ => htraced
  rwa [List.append_nil] at hbook

/-- The session of a root that the world does not let through is entered. -/
theorem Book.concat_failed (h : Book v late sessions f) (hfails : v.Fails root) (text : String) :
    Book v late (sessions ++ [.failed root none text]) f := by
  refine h.concat_timely (.failed rfl rfl rfl (.inl hfails)) (fun _ hy => hy) ?_ fun _ => .inl
  intro y hy
  exact absurd (known_singleton.mp hy).1 List.not_mem_nil

/-- The session of a root whose time has run out is entered. What was found until then stays. -/
theorem Book.concat_late (h : Book v late sessions f) (root : Package) (text : String)
    (hmono : ∀ y ∈ f.snapshot, y ∈ f'.snapshot) :
    Book v (late ++ [sessions.length]) (sessions ++ [.failed root none text]) f' := by
  refine h.concat (fun i hi => List.mem_singleton.mp hi) ?_ hmono ?_ nofun
  · exact .failed rfl rfl rfl (.inr (List.mem_append_right _ (List.mem_singleton_self _)))
  · intro y hy
    exact absurd (known_singleton.mp hy).1 List.not_mem_nil

/-! ## The end of scanning -/

/-- Unless failing roots are skipped, no session says that a scan has failed. -/
def Unfailed (policy : RootFailurePolicy) (sessions : List Session) : Prop :=
  policy = .failFast → ∀ session ∈ sessions, session.isFailed = false

/-- A run that goes on has skipped a scan that failed, if it did. -/
theorem Unfailed.concat {result : Except Failure Session} (h : Unfailed policy s.sessions)
    (hgoes : GoesOn policy result)
    (hresult : ∀ session, result = .ok session → session.isFailed = false) :
    Unfailed policy (s.sessions ++ [s.outcome result]) := by
  intro hpolicy session hsession
  rcases List.mem_append.mp hsession with hold | hnew
  · exact h hpolicy session hold
  · rw [List.mem_singleton.mp hnew]
    cases result with
    | ok session => exact hresult session rfl
    | error e =>
      rw [hgoes e rfl] at hpolicy
      cases hpolicy

/-- What scanning as a whole comes to. -/
inductive Scanned (v : World) (roots : List Package) (policy : RootFailurePolicy)
    (late : List Nat) (f : Findings) : Except Failure (List Session) → Prop
  | through {sessions : List Session} : Book v late sessions f →
    sessions.map (·.requested) = roots → (∃ session ∈ sessions, session.isFailed = false) →
    Unfailed policy sessions → Scanned v roots policy late f (.ok sessions)
  | allFailed {sessions : List Session} : policy = .skipRoot → Book v late sessions f →
    sessions.map (·.requested) = roots → (∀ session ∈ sessions, session.isFailed = true) →
    Scanned v roots policy late f (.error (.of (.allRootsFailed roots.length)))
  | atOnce {sessions : List Session} {e : Failure} : policy = .failFast →
    Book v late sessions f → sessions.map (·.requested) <+: roots →
    (∃ session ∈ sessions, session.isFailed = true) → Scanned v roots policy late f (.error e)

theorem Scanned.congr {r : Except Failure (List Session)} (h : Scanned v roots policy late f r)
    (hf : ∀ y, y ∈ f'.snapshot ↔ y ∈ f.snapshot) : Scanned v roots policy late f' r := by
  cases h with
  | through hbook hroots hsome hunfailed => exact .through (hbook.congr hf) hroots hsome hunfailed
  | allFailed hpolicy hbook hroots hall => exact .allFailed hpolicy (hbook.congr hf) hroots hall
  | atOnce hpolicy hbook hroots hfailed => exact .atOnce hpolicy (hbook.congr hf) hroots hfailed

/-- The last scan, or the first one that fails where failing roots are not skipped, ends
scanning. -/
theorem Scan.Ends.scanned {result : Except Failure Session} {r : Except Failure (List Session)}
    (h : s.Ends policy result r) (hbook : Book v late (s.sessions ++ [s.outcome result]) f)
    (hroots : s.sessions.map (·.requested) ++ s.root :: s.remaining = roots)
    (hunfailed : Unfailed policy s.sessions)
    (hresult : ∀ session, result = .ok session →
      session.isFailed = false ∧ session.requested = s.root) :
    Scanned v roots policy late f r := by
  have hrequested : (s.outcome result).requested = s.root :=
    requested_outcome fun session hsession => (hresult session hsession).2
  have hmap : s.remaining = [] → (s.sessions ++ [s.outcome result]).map (·.requested) = roots := by
    intro hrem
    rw [← hroots, hrem, List.map_append, List.map_singleton, hrequested]
  cases h with
  | through hrem hgoes hall =>
    refine .through hbook (hmap hrem) ?_
      (hunfailed.concat hgoes fun session hsession => (hresult session hsession).1)
    obtain ⟨session, hsession, hok⟩ := List.all_eq_false.mp hall
    exact ⟨session, hsession, by simpa using hok⟩
  | allFailed hrem hgoes hall =>
    have hlength : (s.sessions ++ [s.outcome result]).length = roots.length := by
      rw [← hmap hrem, List.length_map]
    have hpolicy : policy = .skipRoot := by
      cases result with
      | ok session =>
        -- The last scan has not failed.
        have hfailed := List.all_eq_true.mp hall session
          (List.mem_append_right _ (List.mem_singleton_self _))
        rw [(hresult session rfl).1] at hfailed
        cases hfailed
      | error e => exact hgoes e rfl
    rw [hlength]
    exact .allFailed hpolicy hbook (hmap hrem) (List.all_eq_true.mp hall)
  | atOnce hpolicy herror =>
    subst herror
    refine .atOnce hpolicy hbook ⟨s.remaining, ?_⟩
      ⟨_, List.mem_append_right _ (List.mem_singleton_self _), rfl⟩
    rw [← hroots, List.map_append, List.append_assoc]
    rfl

/-! ## The invariant -/

/-- Where a run in a world stands, and what it has entered so far. -/
inductive Page (v : World) (roots : List Package) (late : List Nat) (g : Gate) : Prop
  | exploring {s : Scan} : g.phase.exploring? = some s →
    Book v late s.sessions g.queue.findings → Unfailed g.settings.policy s.sessions →
    g.queue.Quiet → (∀ s, g.phase = .looking s → Resolution.direct? s.root = none) →
    (∀ s p i, g.phase = .walking s p i → v.resolve s.root = .ok p ∧
      g.explorer.Tracked v.catalog p i) → Page v roots late g
  | analyzing {s : Scan} {tree : Tree} {keys : List String} {q₀ : Queue} {p : Package}
    {m : Manifest} : g.phase = .analyzing s tree keys →
    Book v late s.sessions q₀.findings → Unfailed g.settings.policy s.sessions →
    Queue.Analysis v.service keys q₀ g.queue → v.resolve s.root = .ok p →
    v.catalog.answer p = .ok m → tree.package = Walk.resolvedPackage p m →
    (∀ key, key ∈ keys ↔ v.catalog.Listed p key) → Page v roots late g
  | closing {r : Except Failure (List Session)} : g.phase = .closing r →
    Scanned v roots g.settings.policy late g.queue.findings r → g.queue.Quiet →
    Page v roots late g
  | decided : g.phase.isDecided = true → Page v roots late g

/-- Everything that the gate knows comes from the world. -/
structure Ledger (v : World) (roots : List Package) (late : List Nat) (g : Gate) : Prop where
  memo : v.Remembers g.explorer.memo
  reliable : g.queue.Reliable v.service
  page : Page v roots late g

/-- After a scan, the next root's session is still to be entered, or scanning is at its end. -/
theorem Ledger.of_settle {result : Except Failure Session} (hmemo : v.Remembers g.explorer.memo)
    (hreliable : g.queue.Reliable v.service) (hquiet : g.queue.Quiet)
    (hbook : Book v late (s.sessions ++ [s.outcome result]) g.queue.findings)
    (hroots : s.sessions.map (·.requested) ++ s.root :: s.remaining = roots)
    (hunfailed : Unfailed g.settings.policy s.sessions)
    (hresult : ∀ session, result = .ok session →
      session.isFailed = false ∧ session.requested = s.root) :
    Ledger v roots late (g.settle s result) := by
  obtain ⟨ns, history, ⟨next, rest, ⟨hrem, hgoes⟩, h⟩ | ⟨r, h, hends⟩⟩ := settle_cases g s result
  · rw [h]
    have hunfailed' := hunfailed.concat hgoes fun session hsession => (hresult session hsession).1
    exact ⟨hmemo, hreliable, .exploring rfl hbook hunfailed' hquiet nofun nofun⟩
  · rw [h]
    exact ⟨hmemo, hreliable.beginCall .shutdown,
      .closing rfl (hends.scanned hbook hroots hunfailed hresult) hquiet.shutdown⟩

/-- A scan that fails is followed by the next one, or ends scanning. -/
theorem Ledger.of_failure {e : Failure} (hmemo : v.Remembers g.explorer.memo)
    (hreliable : g.queue.Reliable v.service) (hquiet : g.queue.Quiet)
    (hbook : Book v late (s.sessions ++ [.failed s.root none e.text]) g.queue.findings)
    (hroots : s.sessions.map (·.requested) ++ s.root :: s.remaining = roots)
    (hunfailed : Unfailed g.settings.policy s.sessions) :
    Ledger v roots late (g.settle s (.error e)) :=
  .of_settle hmemo hreliable hquiet hbook hroots hunfailed nofun

/-- The session of a scan that has gone through says what the world has on its root. -/
theorem tells_session {tree : Tree} {keys : List String} {q₀ : Queue} {p : Package}
    {m : Manifest} (hanalysis : Queue.Analysis v.service keys q₀ g.queue)
    (hfinished : g.queue.caller = .returned .finished) (hp : v.resolve s.root = .ok p)
    (hm : v.catalog.answer p = .ok m) (htree : tree.package = Walk.resolvedPackage p m)
    (hkeys : ∀ key, key ∈ keys ↔ v.catalog.Listed p key) : v.Tells (g.session s tree keys) := by
  refine ⟨p, m, hp, hm, congrArg some htree, hkeys, fun key => ?_, rfl⟩
  show key ∈ keys.filter g.queue.findings.contains ↔ _
  rw [List.mem_filter, hkeys]
  refine and_congr_right fun hlisted => ?_
  constructor
  · intro hcontains
    obtain ⟨y, hy, rfl⟩ := Findings.contains_iff.mp hcontains
    rw [hanalysis.reliable_now.sound y hy]
    rfl
  · intro hsome
    obtain ⟨y, hy⟩ := Option.isSome_iff_exists.mp hsome
    have hkey := Queue.Oracle.finding?_key hy
    subst hkey
    have hmem := (hanalysis.mem_findings hfinished).mpr (.inr ⟨(hkeys y.key).mpr hlisted, hy⟩)
    exact Findings.contains_iff.mpr ⟨y, hmem, rfl⟩

/-- A scan that has gone through adds its session and its findings. -/
theorem Ledger.completed {tree : Tree} {keys : List String} {q₀ : Queue} {p : Package}
    {m : Manifest} (h : Ledger v roots late g) (hbook : Book v late s.sessions q₀.findings)
    (hunfailed : Unfailed g.settings.policy s.sessions)
    (hanalysis : Queue.Analysis v.service keys q₀ g.queue) (hp : v.resolve s.root = .ok p)
    (hm : v.catalog.answer p = .ok m) (htree : tree.package = Walk.resolvedPackage p m)
    (hkeys : ∀ key, key ∈ keys ↔ v.catalog.Listed p key)
    (hfinished : g.queue.caller = .returned .finished)
    (hroots : s.sessions.map (·.requested) ++ s.root :: s.remaining = roots) :
    Ledger v roots late (g.settle s (.ok (g.session s tree keys))) := by
  have htells := tells_session hanalysis hfinished hp hm htree hkeys
  have hfindings : ∀ y, y ∈ g.queue.findings.snapshot ↔
      y ∈ q₀.findings.snapshot ∨ Known v [g.session s tree keys] y := by
    intro y
    rw [hanalysis.mem_findings hfinished, known_singleton]
    rfl
  have hbook' : Book v late (s.sessions ++ [g.session s tree keys]) g.queue.findings :=
    hbook.concat_timely (.told htells fun hmem => absurd (hbook.late_lt _ hmem) (lt_irrefl _))
      (fun y hy => (hfindings y).mpr (.inl hy)) (fun y hy => (hfindings y).mpr (.inr hy))
      fun y hy => (hfindings y).mp hy
  refine .of_settle h.memo h.reliable (hanalysis.quiet hfinished) hbook' hroots hunfailed ?_
  intro session hsession
  cases hsession
  exact ⟨htells.isFailed, rfl⟩

/-! ## Moves -/

/-- Only one kind of page is written while the queue is not called for a scan. -/
theorem Page.exploring_inv (h : Page v roots late g) (hs : g.phase.exploring? = some s) :
    Book v late s.sessions g.queue.findings ∧ Unfailed g.settings.policy s.sessions ∧
      g.queue.Quiet ∧ (∀ s, g.phase = .looking s → Resolution.direct? s.root = none) ∧
      ∀ s p i, g.phase = .walking s p i → v.resolve s.root = .ok p ∧
        g.explorer.Tracked v.catalog p i := by
  cases h with
  | exploring hs' hbook hunfailed hquiet hlooking hwalking =>
    obtain rfl := Option.some.inj (hs.symm.trans hs')
    exact ⟨hbook, hunfailed, hquiet, hlooking, hwalking⟩
  | analyzing hp | closing hp =>
    rw [hp] at hs
    cases hs
  | decided hdecided =>
    cases hphase : g.phase with
    | confirming | installing | ended =>
      rw [hphase] at hs
      cases hs
    | _ => simp [hphase, Phase.isDecided] at hdecided

/-- While a root is explored, the sessions before it are in the book and the queue is quiet. -/
theorem Page.of_exploring (h : Page v roots late g) (hs : g.phase.exploring? = some s) :
    Book v late s.sessions g.queue.findings ∧ Unfailed g.settings.policy s.sessions ∧
      g.queue.Quiet := by
  obtain ⟨hbook, hunfailed, hquiet, -⟩ := h.exploring_inv hs
  exact ⟨hbook, hunfailed, hquiet⟩

theorem Page.looking (h : Page v roots late g) (hphase : g.phase = .looking s) :
    Resolution.direct? s.root = none := by
  obtain ⟨-, -, -, hlooking, -⟩ := h.exploring_inv (s := s) (by rw [hphase]; rfl)
  exact hlooking s hphase

/-- A walk belongs to the package that its root resolves to. -/
theorem Page.of_walking (h : Page v roots late g) {p : Package} {i : Nat}
    (hphase : g.phase = .walking s p i) :
    v.resolve s.root = .ok p ∧ g.explorer.Tracked v.catalog p i := by
  obtain ⟨-, -, -, -, hwalking⟩ := h.exploring_inv (s := s) (by rw [hphase]; rfl)
  exact hwalking s p i hphase

/-- A scan that is closing has its result, and a quiet queue. -/
theorem Page.of_closing {r : Except Failure (List Session)} (h : Page v roots late g)
    (hphase : g.phase = .closing r) :
    Scanned v roots g.settings.policy late g.queue.findings r ∧ g.queue.Quiet := by
  cases h with
  | closing hp hscanned hquiet =>
    rw [hphase] at hp
    cases hp
    exact ⟨hscanned, hquiet⟩
  | exploring hs | decided hs => simp [hphase, Phase.exploring?, Phase.isDecided] at hs
  | analyzing hp => simp [hphase] at hp

/-- A step of a task leaves everything else where it is. -/
theorem Page.explore {x : Explorer} {k : Explorer.Label} (h : Page v roots late g)
    (hmemo : v.Remembers g.explorer.memo) (hstep : g.explorer.stepUnder v.catalog k = some x) :
    Page v roots late { g with explorer := x } := by
  cases h with
  | exploring hs hbook hunfailed hquiet hlooking hwalking =>
    refine .exploring hs hbook hunfailed hquiet hlooking fun s p i hp => ?_
    obtain ⟨hresolve, htracked⟩ := hwalking s p i hp
    exact ⟨hresolve, htracked.step hmemo.manifests hstep⟩
  | analyzing hp hbook hunfailed hanalysis hresolve hanswer htree hkeys =>
    exact .analyzing hp hbook hunfailed hanalysis hresolve hanswer htree hkeys
  | closing hp hscanned hquiet => exact .closing hp hscanned hquiet
  | decided hdecided => exact .decided hdecided

/-- A step of the queue belongs to the scan that is going on, or to none. -/
theorem Page.analyze {q : Queue} {k : Queue.Label} (h : Page v roots late g)
    (hreliable : g.queue.Reliable v.service) (hcall : ∀ c, k ≠ .call c) (htimeout : k ≠ .timeout)
    (hstep : g.queue.stepUnder v.service k = some q) :
    Page v roots late { g with queue := q } := by
  have hmove := Queue.step_move (Queue.step_of_stepUnder hstep).2
  cases h with
  | exploring hs hbook hunfailed hquiet hlooking hwalking =>
    obtain ⟨hquiet', hsame⟩ := hquiet.move hmove hreliable.valid hcall htimeout
    exact .exploring hs (hbook.congr hsame) hunfailed hquiet' hlooking hwalking
  | analyzing hp hbook hunfailed hanalysis hresolve hanswer htree hkeys =>
    exact .analyzing hp hbook hunfailed (hanalysis.step hstep hcall htimeout) hresolve hanswer
      htree hkeys
  | closing hp hscanned hquiet =>
    obtain ⟨hquiet', hsame⟩ := hquiet.move hmove hreliable.valid hcall htimeout
    exact .closing hp (hscanned.congr hsame) hquiet'
  | decided hdecided => exact .decided hdecided

/-- **Every move in the world** enters what the world says, and nothing else. -/
theorem Ledger.move (h : Ledger v roots late g) (hmove : MoveIn v g l g')
    (hregular : ∀ root ∈ roots, ∀ p, v.resolve root = .ok p → v.catalog.Regular p)
    (hroots : ∀ s, g.phase.scan? = some s →
      s.sessions.map (·.requested) ++ s.root :: s.remaining = roots) :
    Ledger v roots (late ++ (g.expiry? l).toList) g' := by
  have hsame : l ≠ .expire → late ++ (g.expiry? l).toList = late := by
    intro hl
    rw [g.expiry?_of_ne hl, Option.toList_none, List.append_nil]
  have hlate : ∀ {s : Scan}, g.phase.scan? = some s →
      late ++ (g.expiry? .expire).toList = late ++ [s.sessions.length] := by
    intro s hs
    rw [expiry?, hs]
    rfl
  cases hmove with
  | explore hstep =>
    rw [hsame (by simp)]
    exact ⟨h.memo.step hstep, h.reliable, h.page.explore h.memo hstep⟩
  | analyze hcall htimeout hstep =>
    rw [hsame (by simp)]
    exact ⟨h.memo, h.reliable.step hstep, h.page.analyze h.reliable hcall htimeout hstep⟩
  | tick =>
    rw [hsame (by simp)]
    refine ⟨h.memo, h.reliable, ?_⟩
    cases h.page with
    | exploring hs hbook hunfailed hquiet hlooking hwalking =>
      exact .exploring hs hbook hunfailed hquiet hlooking hwalking
    | analyzing hp hbook hunfailed hanalysis hresolve hanswer htree hkeys =>
      exact .analyzing hp hbook hunfailed hanalysis hresolve hanswer htree hkeys
    | closing hp hscanned hquiet => exact .closing hp hscanned hquiet
    | decided hdecided => exact .decided hdecided
  | @lookUp s hphase hdirect =>
    rw [hsame (by simp)]
    obtain ⟨hbook, hunfailed, hquiet⟩ := h.page.of_exploring (s := s) (by rw [hphase]; rfl)
    refine ⟨h.memo, h.reliable, .exploring (s := s) rfl hbook hunfailed hquiet ?_ nofun⟩
    intro s' hs'
    cases hs'
    exact hdirect
  | @walk _ s p memo hl hs hmemo hresolve =>
    rw [hsame hl]
    obtain ⟨hbook, hunfailed, hquiet⟩ := h.page.of_exploring hs
    refine ⟨hmemo, h.reliable, .exploring (s := s) rfl hbook hunfailed hquiet nofun ?_⟩
    intro s' p' i hp
    cases hp
    exact ⟨hresolve, Explorer.tracked_begin v.catalog p _⟩
  | @unresolved _ s memo e hl hs hmemo hresolve =>
    rw [hsame hl]
    obtain ⟨hbook, hunfailed, hquiet⟩ := h.page.of_exploring hs
    exact .of_failure hmemo h.reliable hquiet (hbook.concat_failed (.inl ⟨e, hresolve⟩) e.text)
      (hroots s (Phase.scan?_of_exploring? hs)) hunfailed
  | @arrive s p i w t hphase hw hresult =>
    rw [hsame (by simp)]
    obtain ⟨hbook, hunfailed, hquiet⟩ := h.page.of_exploring (s := s) (by rw [hphase]; rfl)
    -- The walk was tracked from its first step on, so its tree lists what the world has.
    obtain ⟨hresolve, htracked⟩ := h.page.of_walking hphase
    have hroot : s.root ∈ roots := by
      rw [← hroots s (by rw [hphase]; rfl)]
      exact List.mem_append_right _ List.mem_cons_self
    obtain ⟨m, hanswer, hpackage, hkeys⟩ :=
      htracked.arrived (hregular s.root hroot p hresolve) hw hresult
    have hanalysis := Queue.Analysis.begun h.reliable hquiet (w.settle t).flatten
    exact ⟨h.memo, h.reliable.beginCall _,
      .analyzing (s := s) rfl hbook hunfailed hanalysis hresolve hanswer hpackage hkeys⟩
  | @unfetched s p i e hphase hresult =>
    rw [hsame (by simp)]
    obtain ⟨hbook, hunfailed, hquiet⟩ := h.page.of_exploring (s := s) (by rw [hphase]; rfl)
    obtain ⟨hresolve, htracked⟩ := h.page.of_walking hphase
    obtain ⟨why, hwhy⟩ := htracked.failed hresult
    exact .of_failure h.memo h.reliable hquiet
      (hbook.concat_failed (.inr ⟨p, why, hresolve, hwhy⟩) e.text)
      (hroots s (by rw [hphase]; rfl)) hunfailed
  | @complete s tree keys hphase hfinished =>
    rw [hsame (by simp)]
    cases h.page with
    | analyzing hp hbook hunfailed hanalysis hresolve hanswer htree hkeys =>
      rw [hphase] at hp
      cases hp
      exact h.completed hbook hunfailed hanalysis hresolve hanswer htree hkeys hfinished
        (hroots s (by rw [hphase]; rfl))
    | exploring hs | decided hs => simp [hphase, Phase.exploring?, Phase.isDecided] at hs
    | closing hp => simp [hphase] at hp
  | @late s x e hs hmemo =>
    rw [hlate (Phase.scan?_of_exploring? hs)]
    obtain ⟨hbook, hunfailed, hquiet⟩ := h.page.of_exploring hs
    exact .of_failure (g := { g with explorer := x }) (hmemo ▸ h.memo) h.reliable hquiet
      (hbook.concat_late s.root e.text fun _ hy => hy)
      (hroots s (Phase.scan?_of_exploring? hs)) hunfailed
  | @cancel s tree keys q e hphase hstep =>
    have hscan : g.phase.scan? = some s := by
      rw [hphase]
      rfl
    rw [hlate hscan]
    cases h.page with
    | @analyzing _ _ _ q₀ _ _ hp hbook hunfailed hanalysis =>
      rw [hphase] at hp
      cases hp
      -- Items of the scan may still be queued or in work; from now on they are of an older epoch.
      obtain ⟨hquiet, hreliable, hfindings⟩ := hanalysis.cancelled hstep
      have hmono : ∀ y ∈ q₀.findings.snapshot, y ∈ q.findings.snapshot := by
        rw [hfindings]
        exact hanalysis.findings_mono
      exact .of_failure (g := { g with queue := q }) h.memo hreliable hquiet
        (hbook.concat_late s.root e.text hmono) (hroots s hscan) hunfailed
    | exploring hs | decided hs => simp [hphase, Phase.exploring?, Phase.isDecided] at hs
    | closing hp => simp [hphase] at hp
  | @decide r hphase hreturned =>
    rw [hsame (by simp)]
    have hbeside := decide_beside g r
    exact ⟨hbeside.explorer ▸ h.memo, hbeside.queue ▸ h.reliable, .decided (decide_isDecided g r)⟩
  | @follow sessions flagged reply hphase =>
    rw [hsame (by simp)]
    have hbeside := follow_beside g sessions flagged reply
    exact ⟨hbeside.explorer ▸ h.memo, hbeside.queue ▸ h.reliable,
      .decided (follow_isDecided g sessions flagged reply)⟩
  | install hphase =>
    rw [hsame (by simp)]
    exact ⟨h.memo, h.reliable, .decided rfl⟩

end Gate

end PackageGate
