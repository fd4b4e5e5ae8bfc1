import PackageGate.Proofs.Gate.Agreement

/-!
# Failing roots are isolated

Where failing roots are skipped, a root that fails leaves its session behind, and nothing else
of it reaches the other roots: they are scanned as if they were alone.

- `Gate.Failing`: the root with a given number fails, in the world or by its deadline.
- `Gate.Isolated`: the sessions of a run, and what they have in common with a run for the roots
  alone that have not failed.
- `Gate.Skips`: what becomes of a run where failing roots are skipped.
- `Gate.skips_failing`: every run is so.
-/

namespace PackageGate

namespace Gate

variable {v : World} {request : Request} {settings : Settings} {memo : Option Memo}
  {roots : List Package} {ls : List Label} {g : Gate} {late : List Nat}
  {sessions : List Session} {session : Session} {f : Findings} {i : Nat}
  {result : Except Failure Outcome}

/-- The root number `i` fails, because the world does not let it through or because it is one of
those whose time runs out. -/
def Failing (v : World) (late : List Nat) (i : Nat) (root : Package) : Prop :=
  v.Fails root ∨ i ∈ late

/-- The sessions of the roots that have been scanned. -/
def survivors (sessions : List Session) : List Session := sessions.filter (!·.isFailed)

/-- There is one session for each root, failed and empty exactly for those that fail, and the
others and their findings are as in a run for their roots alone. -/
structure Isolated (v : World) (roots : List Package) (late : List Nat) (sessions : List Session)
    (flagged : List Finding) : Prop where
  requested : sessions.map (·.requested) = roots
  isFailed_iff : ∀ i session, sessions[i]? = some session →
    (session.isFailed = true ↔ Failing v late i session.requested)
  keys_eq_nil : ∀ session ∈ sessions, session.isFailed = true →
    session.analyzedKeys = [] ∧ session.flaggedKeys = []
  alone : ∀ {request' : Request} {settings' : Settings} {memo' : Option Memo}
    {ls' : List Label} {g' : Gate} {result' : Except Failure Outcome},
    Run v request' settings' memo' ((survivors sessions).map (·.requested)) ls' g' →
    expired (start request' settings' memo') ls' = [] → g'.result? = some result' →
    ∃ sessions' flagged', Concluded request' sessions' flagged' ls' g' result' ∧
      List.Forall₂ Session.Agrees (survivors sessions) sessions' ∧ flagged' ⊆ flagged

/-- What becomes of the run `ls` for `roots` where failing roots are skipped. -/
structure Skips (v : World) (request : Request) (settings : Settings) (memo : Option Memo)
    (roots : List Package) (ls : List Label) (g : Gate) (result : Except Failure Outcome) :
    Prop where
  isolated : (∃ i root, roots[i]? = some root ∧
      ¬Failing v (expired (start request settings memo) ls) i root) →
    ∃ sessions flagged, ScanReturned (start request settings memo) ls (.ok sessions) ∧
      Concluded request sessions flagged ls g result ∧
      Isolated v roots (expired (start request settings memo) ls) sessions flagged
  allFailed : roots ≠ [] → (∀ i root, roots[i]? = some root →
      Failing v (expired (start request settings memo) ls) i root) →
    result = .error (.of (.allRootsFailed roots.length)) ∧ g.prompts = [] ∧ g.invocations = []
  /-- Where no root fails, no settings make a difference, those that fail fast among them. -/
  unfailing : (∀ root ∈ roots, ¬v.Fails root) → expired (start request settings memo) ls = [] →
    ∀ {settings' : Settings} {memo' : Option Memo} {ls' : List Label} {g' : Gate}
      {result' : Except Failure Outcome} {reply : Except Failure String}
      {exit : Except Failure Int}, Run v request settings' memo' roots ls' g' →
    expired (start request settings' memo') ls' = [] → g'.result? = some result' →
    Answered reply exit ls → Answered reply exit ls' →
    Alike request request g g' result result'

theorem mem_survivors : session ∈ survivors sessions ↔
    session ∈ sessions ∧ session.isFailed = false := by
  rw [survivors, List.mem_filter, Bool.not_eq_true']

/-- A session is failed exactly where its root fails. -/
theorem Book.isFailed_iff (h : Book v late sessions f) (hi : sessions[i]? = some session) :
    session.isFailed = true ↔ Failing v late i session.requested :=
  (h.entered i session hi).isFailed_iff

/-- The sessions of the roots that have been scanned say what the world has on them. -/
theorem Book.tells_survivors (h : Book v late sessions f) :
    ∀ session ∈ survivors sessions, v.Tells session := by
  intro session hsession
  obtain ⟨hmem, hfailed⟩ := mem_survivors.mp hsession
  obtain ⟨i, hi⟩ := List.mem_iff_getElem?.mp hmem
  exact ((h.entered i session hi).tells hfailed).1

/-- The roots that have been scanned are as they are alone. -/
theorem Book.isolated (h : Book v late sessions f) (hrequested : sessions.map (·.requested) = roots)
    (hstable : v.catalog.Stable) (hplain : ∀ root ∈ roots, v.Plain root) :
    Isolated v roots late sessions f.snapshot where
  requested := hrequested
  isFailed_iff _ _ hi := h.isFailed_iff hi
  keys_eq_nil session hsession := by
    obtain ⟨i, hi⟩ := List.mem_iff_getElem?.mp hsession
    exact (h.entered i session hi).keys_eq_nil
  alone {request' settings' memo' ls' g' result'} hrun' hintime' hend' := by
    have htells := h.tells_survivors
    have hplain' : ∀ root ∈ (survivors sessions).map (·.requested), v.Plain root := by
      intro root hroot
      obtain ⟨session, hsession, rfl⟩ := List.mem_map.mp hroot
      refine hplain _ ?_
      rw [← hrequested]
      exact List.mem_map_of_mem (mem_survivors.mp hsession).1
    have hlets' : ∀ root ∈ (survivors sessions).map (·.requested), ¬v.Fails root := by
      intro root hroot
      obtain ⟨session, hsession, rfl⟩ := List.mem_map.mp hroot
      exact (htells session hsession).not_fails
    obtain ⟨sessions', flagged', haccounted', hconcluded'⟩ :=
      hrun'.accounted hstable hplain' hlets' hintime' hend'
    have hagrees := forall₂_agrees htells haccounted'.tells haccounted'.requested.symm
    refine ⟨sessions', flagged', hconcluded', hagrees, fun y hy => ?_⟩
    -- A finding of the other run is known by a session that this run has, too.
    refine h.found y (((haccounted'.known y).mp hy).of_agrees fun s' hs' => ?_)
    obtain ⟨s, hs, hsame⟩ := exists_agrees haccounted'.tells htells
      (fun s hs => haccounted'.requested ▸ List.mem_map_of_mem hs) s' hs'
    exact ⟨s, (mem_survivors.mp hs).1, hsame⟩

/-- The root that a session stands for. -/
theorem getElem?_requested (hrequested : sessions.map (·.requested) = roots) {root : Package}
    (hi : roots[i]? = some root) :
    ∃ session, sessions[i]? = some session ∧ session.requested = root := by
  rw [← hrequested, List.getElem?_map] at hi
  exact Option.map_eq_some_iff.mp hi

/-- **Failing roots are isolated**: every run in a world is so, where failing roots are skipped. -/
theorem skips_failing (hrun : Run v request settings memo roots ls g)
    (hpolicy : settings.policy = .skipRoot) (hstable : v.catalog.Stable)
    (hplain : ∀ root ∈ roots, v.Plain root) (hend : g.result? = some result) :
    Skips v request settings memo roots ls g result where
  isolated := by
    rintro ⟨i, root, hi, hscans⟩
    have hroots : roots ≠ [] := List.ne_nil_of_mem (List.mem_of_getElem? hi)
    rcases hrun.ended hroots hstable hplain hend with
      ⟨e, hscanned, -⟩ | ⟨sessions, hret, hscanned, hconcluded⟩
    · cases hscanned with
      | allFailed _ hbook hrequested hall =>
        obtain ⟨session, hsession, rfl⟩ := getElem?_requested hrequested hi
        have hfailed := hall session (List.mem_of_getElem? hsession)
        exact absurd ((hbook.isFailed_iff hsession).mp hfailed) hscans
      | atOnce hfast =>
        rw [hpolicy] at hfast
        cases hfast
    · cases hscanned with
      | through hbook hrequested =>
        exact ⟨sessions, _, hret, hconcluded, hbook.isolated hrequested hstable hplain⟩
  allFailed := by
    intro hroots hall
    rcases hrun.ended hroots hstable hplain hend with
      ⟨e, hscanned, rfl, hquiet⟩ | ⟨sessions, -, hscanned, -⟩
    · cases hscanned with
      | allFailed => exact ⟨rfl, hquiet⟩
      | atOnce hfast =>
        rw [hpolicy] at hfast
        cases hfast
    · cases hscanned with
      | through hbook hrequested hsome =>
        obtain ⟨session, hsession, hfailed⟩ := hsome
        obtain ⟨i, hi⟩ := List.mem_iff_getElem?.mp hsession
        have hroot : roots[i]? = some session.requested := by
          rw [← hrequested, List.getElem?_map, hi]
          rfl
        rw [(hbook.isFailed_iff hi).mpr (hall i _ hroot)] at hfailed
        cases hfailed
  unfailing := by
    intro hlets hintime settings' memo' ls' g' result' reply exit hrun' hintime' hend' ha ha'
    obtain ⟨sessions, flagged, haccounted, hconcluded⟩ :=
      hrun.accounted hstable hplain hlets hintime hend
    obtain ⟨sessions', flagged', haccounted', hconcluded'⟩ :=
      hrun'.accounted hstable hplain hlets hintime' hend'
    obtain rfl := haccounted.flagged_eq haccounted' fun _ => Iff.rfl
    have hsessions := haccounted.sameSessions haccounted' (.refl _)
    exact hconcluded.alike hconcluded' rfl rfl hsessions ha ha'

/-- A command that names three packages. -/
def goneLeftRight : Request :=
  ⟨⟨.npm, "install", ["gone@1", "left-pad@1", "right-pad@1"]⟩, false⟩

/-- Settings with a single worker and little time, under which failing roots are skipped. -/
def hasty : Settings := { analysisWorkers := 1, scanTimeout := 10, policy := .skipRoot }

/-- A run of the command: the first package cannot be had, the time of the second one runs out
while it is in work, and the third one is scanned. The user declines. -/
def goneLeftRightRun : List Label :=
  [.resolve, .explore (.walk 0 (.start 0)), .explore (.walk 0 (.request 0)),
    .explore (.walk 0 (.answer 0 (flatWorld.catalog.answer ⟨"gone", "1"⟩))), .arrive,
    .resolve, .explore (.walk 1 (.start 0)), .explore (.walk 1 (.request 0)),
    .explore (.walk 1 (.answer 0 (flatWorld.catalog.answer ⟨"left-pad", "1"⟩))),
    .explore (.walk 1 (.finish 0)), .arrive, .analyze .offer, .analyze (.listen 0),
    .analyze (.take 0), .tick 10, .expire,
    .analyze (.submitted 0 (flatWorld.service.submit ⟨"left-pad", "1"⟩)),
    .analyze (.reported 0 (flatWorld.service.report "left-pad@1"))] ++
  flatScan 2 0 ⟨"right-pad", "1"⟩ ++
  [.analyze (.listen 0), .analyze (.leave 0), .analyze .closed, .resume, .confirm (.ok "n")]

/-- One root that fails, one that is late and one that is well: only the last is asked about. -/
theorem skips_failing_hasty : ∃ g result,
    Run flatWorld goneLeftRight hasty none
      [⟨"gone", "1"⟩, ⟨"left-pad", "1"⟩, ⟨"right-pad", "1"⟩] goneLeftRightRun g ∧
    g.result? = some result ∧ g.prompts = [[⟨"right-pad@1", "steals tokens"⟩]] ∧
    expired (start goneLeftRight hasty none) goneLeftRightRun = [1] ∧
    Skips flatWorld goneLeftRight hasty none
      [⟨"gone", "1"⟩, ⟨"left-pad", "1"⟩, ⟨"right-pad", "1"⟩] goneLeftRightRun g result := by
  have hends : (goneLeftRightRun.foldlM (stepIn flatWorld) (start goneLeftRight hasty none)).map
      (fun g => (g.prompts, g.result?.isSome)) =
      some ([[⟨"right-pad@1", "steals tokens"⟩]], true) := by
    decide +kernel
  obtain ⟨g, hg, heq⟩ := Option.map_eq_some_iff.mp hends
  obtain ⟨hprompts, hsome⟩ := Prod.mk.inj heq
  obtain ⟨result, hend⟩ := Option.isSome_iff_exists.mp hsome
  have hrun : Run flatWorld goneLeftRight hasty none
      [⟨"gone", "1"⟩, ⟨"left-pad", "1"⟩, ⟨"right-pad", "1"⟩] goneLeftRightRun g :=
    ⟨by decide +kernel, World.remembers_none _, steps_iff_foldlM.mpr hg⟩
  have hplain : ∀ root ∈ [(⟨"gone", "1"⟩ : Package), ⟨"left-pad", "1"⟩, ⟨"right-pad", "1"⟩],
      '@' ∉ root.name.toList.tail := by
    decide +kernel
  exact ⟨g, result, hrun, hend, hprompts, by decide +kernel, skips_failing hrun rfl
    stable_flatWorld (fun root hroot => plain_flatWorld (hplain root hroot)) hend⟩

end Gate

end PackageGate
