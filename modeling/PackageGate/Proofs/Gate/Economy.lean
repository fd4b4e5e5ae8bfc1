import PackageGate.Proofs.Explorer.Savings
import PackageGate.Proofs.Gate.Stages
import PackageGate.Proofs.Transparency

/-!
# What a run asks the registry for

The gate scans one root after another, and gives a walk up only when its deadline fires. So in a
run without that, no walk begins before the others are over, and what one of them has fetched is
there for all that follow.

- `Gate.answered`: the packages that the registry answers with success in a run.
- `Gate.Phase.walk?`: the walk that is going on.
- `Gate.Saves`, `Gate.Saves.step`: every step of the gate keeps what has been answered.
- `Gate.memo_spares_registry`: what the memo makes of single questions, and of whole runs.
-/

namespace PackageGate

namespace Gate

variable {g g' : Gate} {l : Label} {ls : List Label} {done : List Package}

/-- The package for which a success comes in from the registry. -/
def answered? (g : Gate) : Label → Option Package
  | .explore l => g.explorer.answered? l
  | _ => none

/-- The packages that the registry answers with success in a run from `g₀`, in order. -/
def answered (g₀ : Gate) (ls : List Label) : List Package := gather step answered? g₀ ls

theorem answered?_eq_none (h : ∀ k, l ≠ .explore k) : g.answered? l = none := by
  cases l with
  | explore k => exact absurd rfl (h k)
  | resolve | latest | arrive | analyze | resume | expire | confirm | install | tick => rfl

/-! ## The walk that is going on -/

/-- The walk that is going on. -/
def Phase.walk? : Phase → Option Nat
  | .walking _ _ i => some i
  | _ => none

theorem walk?_of_isDecided (h : g.phase.isDecided = true) : g.phase.walk? = none := by
  cases hphase : g.phase with
  | confirming | installing | ended => rfl
  | resolving | looking | walking | analyzing | closing => simp [hphase, Phase.isDecided] at h

/-- With the end of a scan, no walk is going on. -/
theorem walk?_settle (g : Gate) (s : Scan) (result : Except Failure Session) :
    (g.settle s result).phase.walk? = none := by
  obtain ⟨ns, history, ⟨root, rest, -, h⟩ | ⟨scanned, h, -⟩⟩ := settle_cases g s result <;>
    rw [h] <;> rfl

/-- Before its deadline, a scan is given up only once its walk has a result. -/
theorem result?_of_givesUp {i : Nat} (hstep : g.step l = some g') (hgives : l.givesUp = true)
    (hexpire : l ≠ .expire) (hwalk : g.phase.walk? = some i) :
    ∃ r, g.explorer.result? i = some r := by
  cases hphase : g.phase with
  | walking s p j =>
    rw [hphase] at hwalk
    obtain rfl := Option.some.inj hwalk
    cases l with
    | arrive =>
      simp only [step, hphase] at hstep
      split at hstep
      · exact ⟨_, ‹_›⟩
      · cases hstep
    | resolve | latest => simp [step, hphase] at hstep
    | expire => exact absurd rfl hexpire
    | explore | analyze | resume | confirm | install | tick => cases hgives
  | resolving | looking | analyzing | closing | confirming | installing | ended =>
    rw [hphase] at hwalk
    cases hwalk

/-! ## What a run keeps -/

/-- The packages `done` have been answered with success, and are not asked for again. -/
def Saves (done : List Package) (g : Gate) : Prop := g.explorer.Saves done g.phase.walk?

/-- Where the gate gives a scan up, no walk is going on any more. -/
theorem Saves.rest (h : Saves done g) (hstep : g.step l = some g') (hgives : l.givesUp = true)
    (hexpire : l ≠ .expire) : g.explorer.Saves done none := by
  cases hwalk : g.phase.walk? with
  | none => exact hwalk ▸ h
  | some i =>
    obtain ⟨r, hr⟩ := result?_of_givesUp hstep hgives hexpire hwalk
    have h : g.explorer.Saves done g.phase.walk? := h
    rw [hwalk] at h
    exact h.rest hr

/-- Where no walk is going on, the gate does nothing to its explorer but remember. -/
theorem saves_of_handles {x : Explorer} (h : g.explorer.Saves done none)
    (hx : Handles g.explorer x) : x.Saves done none := by
  cases hx with
  | leave => exact h
  | keep name reply => exact h.keepLatest name reply
  | cancel hcancel =>
    rw [h.step_eq_none] at hcancel
    cases hcancel

/-- Every step before the deadline keeps what has been answered. -/
theorem Saves.step (h : Saves done g) (hexpire : l ≠ .expire) (hstep : g.step l = some g') :
    Saves (done ++ (g.answered? l).toList) g' := by
  -- Only the steps of the tasks bring answers.
  have hown : (∀ k, l ≠ .explore k) → Saves done g' →
      Saves (done ++ (g.answered? l).toList) g' := by
    intro hl h'
    rw [answered?_eq_none hl, Option.toList_none, List.append_nil]
    exact h'
  have hidle : g.phase.walk? = none → g.explorer.Saves done none := fun hwalk => hwalk ▸ h
  cases step_move hstep with
  | @explore k x hfree hx =>
    refine Explorer.Saves.step h (fun i => ?_) hx
    rintro rfl
    cases hfree
  | analyze | tick => exact hown nofun h
  | lookUp hphase => exact hown nofun (hidle (by rw [hphase]; rfl))
  | @walk l s resolved memo hphase hx =>
    have hl : ∀ k, l ≠ .explore k := by
      rcases hphase with ⟨-, rfl⟩ | ⟨-, _, rfl⟩ <;> exact nofun
    have hwalk : g.phase.walk? = none := by
      rcases hphase with ⟨hphase, -⟩ | ⟨hphase, -⟩ <;> rw [hphase] <;> rfl
    exact hown hl ((saves_of_handles (hidle hwalk) hx).begin resolved)
  | arrive => exact hown nofun (h.rest hstep rfl hexpire)
  | complete hphase =>
    refine hown nofun ?_
    rw [Saves, settle_explorer, walk?_settle]
    exact hidle (by rw [hphase]; rfl)
  | @fail l s x q e hgives _ _ hx =>
    refine hown ?_ ?_
    · rintro k rfl
      cases hgives
    · rw [Saves, settle_explorer, walk?_settle]
      exact saves_of_handles (h.rest hstep hgives hexpire) hx
  | decide hphase =>
    refine hown nofun ?_
    rw [Saves, (decide_beside g _).explorer, walk?_of_isDecided (decide_isDecided g _)]
    exact hidle (by rw [hphase]; rfl)
  | follow hphase =>
    refine hown nofun ?_
    rw [Saves, (follow_beside g _ _ _).explorer, walk?_of_isDecided (follow_isDecided g _ _ _)]
    exact hidle (by rw [hphase]; rfl)
  | install hphase => exact hown nofun (hidle (by rw [hphase]; rfl))

theorem saves_start (request : Request) (settings : Settings) (memo : Memo) :
    Saves [] (start request settings (some memo)) := by
  have hwalk : (start request settings (some memo)).phase.walk? = none := by
    by_cases hroots : ∃ root rest, request.command.rootPackages = .ok (root :: rest)
    · obtain ⟨root, rest, hroots⟩ := hroots
      rw [start_of_roots hroots]
      rfl
    · push Not at hroots
      exact walk?_of_isDecided (start_isDecided hroots)
  rw [Saves, (start_beside request settings (some memo)).explorer, hwalk]
  exact .ofLimit settings.maxConcurrentFetches memo

/-- In every state of a run in which no deadline fires, all successes are remembered, and none is
there twice. -/
theorem saves_of_steps {request : Request} {settings : Settings} {memo : Memo}
    (h : Steps step (start request settings (some memo)) ls g) (hexpire : .expire ∉ ls) :
    Saves (answered (start request settings (some memo)) ls) g := by
  induction h with
  | refl => exact saves_start request settings memo
  | @tail ls m l u hm hstep ih =>
    have hlast : l ≠ .expire := by
      rintro rfl
      exact hexpire (List.mem_append_right ls List.mem_cons_self)
    have hsaves := (ih fun hmem => hexpire (List.mem_append_left [l] hmem)).step hlast hstep
    rw [answered, gather_concat hm hstep]
    exact hsaves

/-- **What the registry is asked for.** Whoever asks one question after another through a memo that
was empty is answered with the first success that the registry has ever given to this question,
without another word to the registry; or, as long as there is none, with what the registry
answers now, being asked once. The memo has as many manifests as packages have been answered with
success. And in a run of the gate in which no deadline fires, with any roots and in any order of
steps, the registry answers for no package twice with success. -/
theorem memo_spares_registry :
    (∀ (ω : Type) (s : Memo.Source ω) (qs : List Memo.Query) (world : ω),
      Memo.Transparent s qs world (Memo.serveAll s qs .empty world).1
        (Memo.serveAll s qs .empty world).2.1 (Memo.serveAll s qs .empty world).2.2) ∧
    ∀ (request : Request) (settings : Settings) (memo : Memo) (ls : List Label) (g : Gate),
      Steps step (start request settings (some memo)) ls g → .expire ∉ ls →
        (answered (start request settings (some memo)) ls).Nodup :=
  ⟨fun _ => Memo.transparent_serveAll,
    fun _ _ _ _ _ h hexpire => (saves_of_steps h hexpire).nodup⟩

/-- A command that names two packages, both of which depend on `base`. -/
def sharingRoots : Request := ⟨⟨.npm, "install", ["left@1", "right@1"]⟩, false⟩

/-- The walk of one of them, until its dependency is looked up. -/
def sharingWalk (i : Nat) (name : String) : List Label :=
  [.resolve, .explore (.walk i (.start 0)), .explore (.walk i (.request 0)),
    .explore (.walk i (.answer 0 (.ok ⟨name, "1", [("base", "1")]⟩))),
    .explore (.walk i (.start 1))]

/-- What follows once the dependency is there: the walk comes to an end, and both packages are
analyzed by the only worker. -/
def sharingRest (i : Nat) : List Label :=
  let analysis : List Label :=
    [.analyze .offer, .analyze (.listen 0), .analyze (.take 0),
      .analyze (.submitted 0 (.ok "17")), .analyze (.reported 0 (.ok none))]
  [.explore (.walk i (.finish 1)), .explore (.walk i (.join 1)), .explore (.walk i (.finish 0)),
    .arrive] ++ analysis ++ analysis ++ [.analyze .settle, .resume]

/-- A run of the command. The second walk finds `base` in the memo. -/
def sharingRun : List Label :=
  sharingWalk 0 "left" ++
    [.explore (.walk 0 (.request 1)), .explore (.walk 0 (.answer 1 (.ok ⟨"base", "1", []⟩)))] ++
    sharingRest 0 ++ sharingWalk 1 "right" ++ [.explore (.recall 1 1)] ++ sharingRest 1 ++
    [.analyze (.listen 0), .analyze (.leave 0), .analyze .closed, .resume, .install (.ok 0)]

/-- The dependency that both packages share is answered once. -/
theorem memo_spares_registry_sharing : ∃ g,
    Steps step (start sharingRoots { analysisWorkers := 1 } (some .empty)) sharingRun g ∧
    .expire ∉ sharingRun ∧ g.explorer.fetched = 4 ∧
    g.invocations = [("npm", ["install", "left@1", "right@1"])] ∧
    answered (start sharingRoots { analysisWorkers := 1 } (some .empty)) sharingRun =
      [⟨"left", "1"⟩, ⟨"base", "1"⟩, ⟨"right", "1"⟩] ∧
    (answered (start sharingRoots { analysisWorkers := 1 } (some .empty)) sharingRun).Nodup := by
  have hrun : (sharingRun.foldlM step
      (start sharingRoots { analysisWorkers := 1 } (some .empty))).map
        (fun g => (g.explorer.fetched, g.invocations)) =
      some (4, [("npm", ["install", "left@1", "right@1"])]) := by
    decide +kernel
  have hexpire : .expire ∉ sharingRun := by
    simp [sharingRun, sharingWalk, sharingRest]
  obtain ⟨g, hg, heq⟩ := Option.map_eq_some_iff.mp hrun
  obtain ⟨hfetched, hinvocations⟩ := Prod.mk.inj heq
  have hsteps := steps_iff_foldlM.mpr hg
  refine ⟨g, hsteps, hexpire, hfetched, hinvocations, ?_,
    memo_spares_registry.2 _ _ _ _ _ hsteps hexpire⟩
  decide +kernel

end Gate

end PackageGate
