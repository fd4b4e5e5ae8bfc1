import PackageGate.Proofs.Gate.Runs

/-!
# Runs agree

Where the world lets every root through and no time runs out, the world and the roots decide
what a run enters and what it finds. The settings, the memo, the order of the roots and the
order in which the tasks take their steps have no part in it.

- `Gate.Accounted`: sessions and findings that the world and the roots decide.
- `Gate.Accounted.flagged_eq`, `Gate.Accounted.sameSessions`: they are the same in every run.
- `Gate.Run.accounted`: every run that has ended has come to them.
- `Gate.runs_agree`: two runs for the same roots, in any order, come to the same.
-/

namespace PackageGate

/-- The requests name the same packages to the same manager, in any order, and both are to be
carried out or both only shown. -/
structure Request.Reorders (request request' : Request) : Prop where
  manager : request'.command.manager = request.command.manager
  arguments : request.command.packageArguments.Perm request'.command.packageArguments
  isDryRun : request'.isDryRun = request.isDryRun

namespace Gate

variable {v : World} {request request' : Request} {settings settings' : Settings}
  {memo memo' : Option Memo} {roots roots' : List Package} {ls ls' : List Label} {g g' : Gate}
  {sessions sessions' : List Session} {flagged flagged' : List Finding}
  {f : Findings} {policy : RootFailurePolicy} {result result' : Except Failure Outcome}
  {r : Except Failure (List Session)} {y : Finding}

/-! ## What the world decides -/

/-- The sessions are those of the roots and say what the world has on them, and the findings are
those that the sessions account for. -/
structure Accounted (v : World) (roots : List Package) (sessions : List Session)
    (flagged : List Finding) : Prop where
  requested : sessions.map (·.requested) = roots
  tells : ∀ session ∈ sessions, v.Tells session
  known : ∀ y, y ∈ flagged ↔ Known v sessions y
  sorted : flagged.Pairwise (·.key < ·.key)

theorem accounted_nil (v : World) : Accounted v [] [] [] where
  requested := rfl
  tells := nofun
  known _ := ⟨nofun, nofun⟩
  sorted := .nil

/-- Sessions of the same roots agree one by one. -/
theorem forall₂_agrees (h : ∀ session ∈ sessions, v.Tells session)
    (h' : ∀ session ∈ sessions', v.Tells session)
    (hroots : sessions.map (·.requested) = sessions'.map (·.requested)) :
    List.Forall₂ Session.Agrees sessions sessions' := by
  induction sessions generalizing sessions' with
  | nil =>
    rw [List.map_nil, eq_comm, List.map_eq_nil_iff] at hroots
    subst hroots
    exact .nil
  | cons s sessions ih =>
    cases sessions' with
    | nil => cases hroots
    | cons s' sessions' =>
      obtain ⟨htells, h⟩ := List.forall_mem_cons.mp h
      obtain ⟨htells', h'⟩ := List.forall_mem_cons.mp h'
      obtain ⟨hroot, hroots⟩ := List.cons_eq_cons.mp hroots
      exact .cons (htells.agrees htells' hroot) (ih h h' hroots)

/-- Sessions can be put in the order of the roots. -/
theorem exists_perm_requested (h : (sessions.map (·.requested)).Perm roots) :
    ∃ ss, sessions.Perm ss ∧ ss.map (·.requested) = roots := by
  have hrequested : List.Forall₂ (fun root session => session.requested = root)
      (sessions.map (·.requested)) sessions :=
    List.forall₂_map_left_iff.mpr (List.forall₂_same.mpr fun _ _ => rfl)
  obtain ⟨ss, hss, hperm⟩ := List.perm_comp_forall₂ h.symm hrequested
  refine ⟨ss, hperm.symm, ?_⟩
  rw [← List.forall₂_eq_eq_eq, List.forall₂_map_left_iff]
  exact hss.flip

theorem Known.of_agrees (h : Known v sessions y)
    (hagrees : ∀ s ∈ sessions, ∃ s' ∈ sessions', s.Agrees s') : Known v sessions' y := by
  obtain ⟨s, hs, hkey, hfinding⟩ := h
  obtain ⟨s', hs', hsame⟩ := hagrees s hs
  exact ⟨s', hs', (hsame.analyzed y.key).mp hkey, hfinding⟩

/-- A session has its like among the sessions for roots that are also its own. -/
theorem exists_agrees (h : ∀ session ∈ sessions, v.Tells session)
    (h' : ∀ session ∈ sessions', v.Tells session)
    (hroots : ∀ session ∈ sessions, session.requested ∈ sessions'.map (·.requested)) :
    ∀ s ∈ sessions, ∃ s' ∈ sessions', s.Agrees s' := by
  intro s hs
  obtain ⟨s', hs', heq⟩ := List.mem_map.mp (hroots s hs)
  exact ⟨s', hs', (h s hs).agrees (h' s' hs') heq.symm⟩

/-- The same roots lead to the same findings. -/
theorem Accounted.flagged_eq (h : Accounted v roots sessions flagged)
    (h' : Accounted v roots' sessions' flagged') (hroots : ∀ root, root ∈ roots ↔ root ∈ roots') :
    flagged = flagged' := by
  have hagrees : ∀ s ∈ sessions, ∃ s' ∈ sessions', s.Agrees s' := by
    refine exists_agrees h.tells h'.tells fun session hsession => ?_
    rw [h'.requested, ← hroots, ← h.requested]
    exact List.mem_map_of_mem hsession
  have hagrees' : ∀ s ∈ sessions', ∃ s' ∈ sessions, s.Agrees s' := by
    refine exists_agrees h'.tells h.tells fun session hsession => ?_
    rw [h.requested, hroots, ← h'.requested]
    exact List.mem_map_of_mem hsession
  refine congrArg Findings.entries (Findings.ext_of_isSorted (f := ⟨flagged⟩) (g := ⟨flagged'⟩)
    h.sorted h'.sorted fun y => ?_)
  show y ∈ flagged ↔ y ∈ flagged'
  rw [h.known, h'.known]
  exact ⟨fun hy => hy.of_agrees hagrees, fun hy => hy.of_agrees hagrees'⟩

/-- The same roots lead to the same sessions, and their order to the order of the sessions. -/
theorem Accounted.sameSessions (h : Accounted v roots sessions flagged)
    (h' : Accounted v roots' sessions' flagged') (hroots : roots.Perm roots') :
    SameSessions sessions sessions' := by
  refine ⟨?_, forall₂_agrees h.tells h'.tells⟩
  rw [← h.requested, ← h'.requested] at hroots
  obtain ⟨ss, hperm, hss⟩ := exists_perm_requested hroots
  refine ⟨ss, hperm, forall₂_agrees ?_ h'.tells hss⟩
  exact fun session hsession => h.tells session (hperm.mem_iff.mpr hsession)

/-! ## Runs -/

/-- Scanning goes through where the world lets every root through and no time runs out. -/
theorem Scanned.accounted (h : Scanned v roots policy [] f r) (hroots : roots ≠ [])
    (hlets : ∀ root ∈ roots, ¬v.Fails root) (hsorted : f.IsSorted) :
    ∃ sessions, r = .ok sessions ∧ Accounted v roots sessions f.snapshot := by
  have hunfailed : ∀ {ss : List Session}, Book v [] ss f → (ss.map (·.requested)) ⊆ roots →
      ∀ session ∈ ss, session.isFailed = false := by
    intro ss hbook hsub session hsession
    obtain ⟨i, hi⟩ := List.mem_iff_getElem?.mp hsession
    rw [← Bool.not_eq_true, (hbook.entered i session hi).isFailed_iff]
    rintro (hfails | hlate)
    · exact hlets _ (hsub (List.mem_map_of_mem hsession)) hfails
    · cases hlate
  -- No session has failed, so scanning has neither stopped nor come to nothing.
  cases h with
  | @through sessions hbook hrequested =>
    refine ⟨sessions, rfl, hrequested, fun session hsession => ?_, fun y => ?_, hsorted⟩
    · obtain ⟨i, hi⟩ := List.mem_iff_getElem?.mp hsession
      exact ((hbook.entered i session hi).tells
        (hunfailed hbook (hrequested ▸ List.Subset.refl _) session hsession)).1
    · exact ⟨hbook.traced rfl y, hbook.found y⟩
  | @allFailed sessions _ hbook hrequested hall =>
    obtain ⟨session, hsession⟩ := List.exists_mem_of_ne_nil sessions (by
      rintro rfl
      exact hroots hrequested.symm)
    have hfailed := hall session hsession
    rw [hunfailed hbook (hrequested ▸ List.Subset.refl _) session hsession] at hfailed
    cases hfailed
  | atOnce _ hbook hprefix hsome =>
    obtain ⟨session, hsession, hfailed⟩ := hsome
    rw [hunfailed hbook hprefix.subset session hsession] at hfailed
    cases hfailed

/-- **Every run that has ended** has come to what the world decides, if the world lets every
root through and no time has run out. -/
theorem Run.accounted (h : Run v request settings memo roots ls g)
    (hstable : v.catalog.Stable) (hplain : ∀ root ∈ roots, v.Plain root)
    (hlets : ∀ root ∈ roots, ¬v.Fails root)
    (hintime : expired (start request settings memo) ls = [])
    (hend : g.result? = some result) :
    ∃ sessions flagged, Accounted v roots sessions flagged ∧
      Concluded request sessions flagged ls g result := by
  by_cases hroots : roots = []
  · subst hroots
    exact ⟨[], [], accounted_nil v, concluded_of_rootless h.rooted (steps_of_stepIn h.steps) hend⟩
  · have haccounted : ∀ {r : Except Failure (List Session)},
        Scanned v roots settings.policy (expired (start request settings memo) ls)
          g.queue.findings r →
        ∃ sessions, r = .ok sessions ∧ Accounted v roots sessions g.queue.findings.snapshot := by
      intro r hscanned
      rw [hintime] at hscanned
      exact hscanned.accounted hroots hlets h.isSorted
    rcases h.ended hroots hstable hplain hend with
      ⟨e, hscanned, -⟩ | ⟨sessions, -, hscanned, hconcluded⟩
    · obtain ⟨sessions, herror, -⟩ := haccounted hscanned
      cases herror
    · obtain ⟨sessions', hok, hsessions⟩ := haccounted hscanned
      cases hok
      exact ⟨sessions, _, hsessions, hconcluded⟩

/-- **Two runs agree**, whatever their settings, memos and schedules are and in whatever order
they name the packages, if the world lets every root through, no time runs out, and the user and
the package manager answer alike. -/
theorem runs_agree (hrun : Run v request settings memo roots ls g)
    (hrun' : Run v request' settings' memo' roots' ls' g') (hreorders : request.Reorders request')
    (hstable : v.catalog.Stable) (hplain : ∀ root ∈ roots, v.Plain root)
    (hlets : ∀ root ∈ roots, ¬v.Fails root)
    (hintime : expired (start request settings memo) ls = [])
    (hintime' : expired (start request' settings' memo') ls' = [])
    (hend : g.result? = some result) (hend' : g'.result? = some result')
    {reply : Except Failure String} {exit : Except Failure Int}
    (hanswered : Answered reply exit ls) (hanswered' : Answered reply exit ls') :
    Alike request request' g g' result result' := by
  obtain ⟨roots'', hrooted, hperm⟩ :=
    InstallCommand.rootPackages_perm hreorders.manager hreorders.arguments hrun.rooted
  obtain rfl := Except.ok.inj (hrun'.rooted.symm.trans hrooted)
  obtain ⟨sessions, flagged, haccounted, hconcluded⟩ :=
    hrun.accounted hstable hplain hlets hintime hend
  obtain ⟨sessions', flagged', haccounted', hconcluded'⟩ := hrun'.accounted hstable
    (fun root hroot => hplain root (hperm.mem_iff.mpr hroot))
    (fun root hroot => hlets root (hperm.mem_iff.mpr hroot)) hintime' hend'
  obtain rfl := haccounted.flagged_eq haccounted' fun _ => hperm.mem_iff
  exact hconcluded.alike hconcluded' hreorders.manager hreorders.isDryRun
    (haccounted.sameSessions haccounted' hperm) hanswered hanswered'

/-- Every package but `gone` can be had in every version, without dependencies, and the service
finds `right-pad` malicious. -/
def flatWorld : World where
  catalog :=
    { answer p :=
        if p.name = "gone" then .error (.of (.packageMissing .npm p.name))
        else .ok ⟨p.name, p.version, []⟩
      distinct p m h := by
        split at h <;> cases h
        exact List.nodup_nil }
  latest _ := .ok none
  service :=
    { submit p := .ok p.key
      report id := .ok (some ⟨some ⟨id = "right-pad@1", "steals tokens"⟩⟩) }

theorem stable_flatWorld : flatWorld.catalog.Stable := by
  intro p m h hversion
  simp only [flatWorld] at h
  split at h <;> cases h
  exact ⟨⟨p.name, p.version, []⟩, by simp_all [flatWorld, Package.withVersion], rfl, .inl rfl⟩

/-- Nothing but the root is asked for, so plain roots are enough. -/
theorem plain_flatWorld {root : Package} (h : '@' ∉ root.name.toList.tail) :
    flatWorld.Plain root := by
  intro p hp q hq
  cases hq with
  | root =>
    rw [resolve_name hp]
    exact h
  | edge _ hm hq =>
    simp only [flatWorld] at hm
    split at hm <;> cases hm
    exact absurd hq List.not_mem_nil

/-- In the flat world only `gone` fails, of the roots whose version is given. -/
theorem not_fails_flatWorld {root : Package} (hname : root.name ≠ "gone")
    (hversion : Text.isBlankText root.version = false) : ¬flatWorld.Fails root := by
  have hresolve : flatWorld.resolve root =
      .ok (root.withVersion (Specifier.normalize root.version)) :=
    World.resolve_of_direct (by simp [Resolution.direct?, hversion])
  rintro (⟨e, he⟩ | ⟨p, e, hp, he⟩)
  · rw [hresolve] at he
    cases he
  · rw [hresolve] at hp
    cases hp
    simp [flatWorld, Package.withVersion, hname] at he

/-- The steps of the scan number `i`, of the root `p`, which the worker `w` analyzes. -/
def flatScan (i w : Nat) (p : Package) : List Label :=
  [.resolve, .explore (.walk i (.start 0)), .explore (.walk i (.request 0)),
    .explore (.walk i (.answer 0 (flatWorld.catalog.answer p))), .explore (.walk i (.finish 0)),
    .arrive, .analyze .offer, .analyze (.listen w), .analyze (.take w),
    .analyze (.submitted w (flatWorld.service.submit p)),
    .analyze (.reported w (flatWorld.service.report p.key)), .analyze .settle, .resume]

/-- A command that names two packages. -/
def leftRight : Request := ⟨⟨.npm, "install", ["left-pad@1", "right-pad@1"]⟩, false⟩

/-- A run of it with a single worker, in which the user agrees. -/
def leftRightRun : List Label :=
  flatScan 0 0 ⟨"left-pad", "1"⟩ ++ flatScan 1 0 ⟨"right-pad", "1"⟩ ++
    [.analyze (.listen 0), .analyze (.leave 0), .analyze .closed, .resume, .confirm (.ok "y"),
      .install (.ok 3)]

/-- The same packages the other way round. -/
def rightLeft : Request := ⟨⟨.npm, "install", ["right-pad@1", "left-pad@1"]⟩, false⟩

/-- A run of it in which the second of two workers does the work. -/
def rightLeftRun : List Label :=
  flatScan 0 1 ⟨"right-pad", "1"⟩ ++ flatScan 1 1 ⟨"left-pad", "1"⟩ ++
    [.analyze (.listen 0), .analyze (.leave 0), .analyze (.listen 1), .analyze (.leave 1),
      .analyze .closed, .resume, .confirm (.ok "y"), .install (.ok 3)]

theorem runs_agree_reordered : ∃ g g' result result',
    Run flatWorld leftRight { analysisWorkers := 1 } none
      [⟨"left-pad", "1"⟩, ⟨"right-pad", "1"⟩] leftRightRun g ∧
    Run flatWorld rightLeft { analysisWorkers := 2, queueCapacity := 1 } (some .empty)
      [⟨"right-pad", "1"⟩, ⟨"left-pad", "1"⟩] rightLeftRun g' ∧
    g.result? = some result ∧ g'.result? = some result' ∧
    g.prompts = [[⟨"right-pad@1", "steals tokens"⟩]] ∧
    g.invocations = [("npm", ["install", "left-pad@1", "right-pad@1"])] ∧
    Alike leftRight rightLeft g g' result result' := by
  have hleft : (leftRightRun.foldlM (stepIn flatWorld)
      (start leftRight { analysisWorkers := 1 } none)).map
        (fun g => (g.prompts, g.invocations, g.result?.isSome)) =
      some ([[⟨"right-pad@1", "steals tokens"⟩]],
        [("npm", ["install", "left-pad@1", "right-pad@1"])], true) := by
    decide +kernel
  have hright : (rightLeftRun.foldlM (stepIn flatWorld)
      (start rightLeft { analysisWorkers := 2, queueCapacity := 1 } (some .empty))).map
        (fun g => g.result?.isSome) = some true := by
    decide +kernel
  obtain ⟨g, hg, heq⟩ := Option.map_eq_some_iff.mp hleft
  obtain ⟨hprompts, heq⟩ := Prod.mk.inj heq
  obtain ⟨hinv, hsome⟩ := Prod.mk.inj heq
  obtain ⟨result, hend⟩ := Option.isSome_iff_exists.mp hsome
  obtain ⟨g', hg', hsome'⟩ := Option.map_eq_some_iff.mp hright
  obtain ⟨result', hend'⟩ := Option.isSome_iff_exists.mp hsome'
  have hrun : Run flatWorld leftRight { analysisWorkers := 1 } none
      [⟨"left-pad", "1"⟩, ⟨"right-pad", "1"⟩] leftRightRun g :=
    ⟨by decide +kernel, World.remembers_none _, steps_iff_foldlM.mpr hg⟩
  have hrun' : Run flatWorld rightLeft { analysisWorkers := 2, queueCapacity := 1 } (some .empty)
      [⟨"right-pad", "1"⟩, ⟨"left-pad", "1"⟩] rightLeftRun g' :=
    ⟨by decide +kernel, World.remembers_empty _, steps_iff_foldlM.mpr hg'⟩
  refine ⟨g, g', result, result', hrun, hrun', hend, hend', hprompts, hinv, ?_⟩
  have hplain : ∀ root ∈ [(⟨"left-pad", "1"⟩ : Package), ⟨"right-pad", "1"⟩],
      '@' ∉ root.name.toList.tail := by
    decide +kernel
  have hnamed : ∀ root ∈ [(⟨"left-pad", "1"⟩ : Package), ⟨"right-pad", "1"⟩],
      root.name ≠ "gone" ∧ Text.isBlankText root.version = false := by
    decide +kernel
  have hanswered : Answered (.ok "y") (.ok 3) leftRightRun := by
    constructor <;> intro a ha <;> simpa [leftRightRun, flatScan] using ha
  have hanswered' : Answered (.ok "y") (.ok 3) rightLeftRun := by
    constructor <;> intro a ha <;> simpa [rightLeftRun, flatScan] using ha
  exact runs_agree hrun hrun' ⟨rfl, .swap _ _ _, rfl⟩ stable_flatWorld
    (fun root hroot => plain_flatWorld (hplain root hroot))
    (fun root hroot => not_fails_flatWorld (hnamed root hroot).1 (hnamed root hroot).2)
    (by decide +kernel) (by decide +kernel) hend hend' hanswered hanswered'

end Gate

end PackageGate
