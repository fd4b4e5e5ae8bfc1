import PackageGate.Proofs.Gate.Decision

/-!
# How a run of the gate ends

A run that has ended has failed, was blocked by the user, has shown its command, or has run the
package manager. What its result says of these is what has happened.

- `Gate.Ends`: the endings, with what has been done to the outside in each.
- `Gate.ends_of_steps`: every run that has ended has one of them.
- `Gate.result_of_install`: when the package manager has answered, its answer is the result.
-/

namespace PackageGate.Gate

variable {request : Request} {settings : Settings} {memo : Option Memo} {g g₀ g' : Gate}
  {ls : List Label} {l : Label} {result : Except Failure Outcome} {reply : Except Failure Int}

/-- What is told when the command of a request is only shown. -/
def shownNotice (r : Request) : Notice := .dryRun r.command.manager.program r.command.arguments

/-- What has happened in a run of `request` with the steps `ls` that has ended with a result. -/
inductive Ends (request : Request) (ls : List Label) (g : Gate) : Except Failure Outcome → Prop
  | failed (e : Failure) : Ends request ls g (.error e)
  | blocked {o : Outcome} : o.finalState = .blocked → o.managerCode = none → g.invocations = [] →
    Ends request ls g (.ok o)
  | shown {o : Outcome} : o.finalState = .clean → o.managerCode = none → g.invocations = [] →
    request.isDryRun = true → shownNotice request ∈ g.notices → Ends request ls g (.ok o)
  | ran {o : Outcome} {code : Int} : o.finalState = .clean → o.managerCode = some code →
    g.invocations = [request.invocation] → .install (.ok code) ∈ ls → Ends request ls g (.ok o)

/-! ## Commands that are only shown -/

/-- An outcome that no install came of, and that nobody has blocked, is told. -/
def IsTold (g : Gate) : Prop :=
  ∀ o, g.phase = .ended (.ok o) → o.finalState = .clean → o.managerCode = none →
    shownNotice g.request ∈ g.notices

theorem isTold_handOver (g : Gate) (o : Outcome) : IsTold (g.handOver o) := by
  intro o' hp _ _
  unfold handOver at hp ⊢
  split
  · show shownNotice g.request ∈ List.filterMap _ (g.events ++ [.told (shownNotice g.request)])
    rw [List.filterMap_append]
    exact List.mem_append_right _ List.mem_cons_self
  · rename_i hdry
    rw [if_neg hdry] at hp
    cases hp

/-- A gate that is not decided yet, or has failed, has nothing to tell. -/
theorem IsTold.of_ne (h : ∀ o, g.phase ≠ .ended (.ok o)) : IsTold g :=
  fun o hp => absurd hp (h o)

theorem isTold_settle (g : Gate) (s : Scan) (result : Except Failure Session) :
    IsTold (g.settle s result) := by
  obtain ⟨ns, history, ⟨root, rest, -, h⟩ | ⟨scanned, h, -⟩⟩ := settle_cases g s result <;>
    rw [h] <;>
    exact .of_ne fun _ => nofun

/-- What is told stays told, and a move that hands over tells. -/
theorem IsTold.move (h : IsTold g) (hmove : Move g l g') : IsTold g' := by
  cases hmove with
  | explore | analyze | tick => exact h
  | lookUp | walk | arrive => exact .of_ne fun _ => nofun
  | complete => exact isTold_settle g _ _
  | fail => exact isTold_settle _ _ _
  | decide =>
    rcases decide_cases g _ with
      ⟨_, _, -, hg⟩ | ⟨_, ns, history, o, -, -, -, hg⟩ | ⟨_, _, -, -, hg⟩ <;> rw [hg]
    · exact .of_ne fun _ => nofun
    · exact isTold_handOver _ _
    · exact .of_ne fun _ => nofun
  | follow =>
    rcases follow_cases g _ _ _ with
      ⟨-, history, o, -, hg⟩ | ⟨-, n, history, o, hblocked, -, -, -, hg⟩ <;> rw [hg]
    · exact isTold_handOver _ _
    · rintro _ ⟨⟩ hclean -
      rw [hblocked] at hclean
      cases hclean
  | @install draft reply =>
    cases reply with
    | error => exact .of_ne fun _ => nofun
    | ok code =>
      rintro _ ⟨⟩ - hnone
      cases hnone

theorem isTold_start (request : Request) (settings : Settings) (memo : Option Memo) :
    IsTold (start request settings memo) := by
  unfold start
  split
  · exact .of_ne fun _ => nofun
  · exact isTold_handOver _ _
  · rename_i roots hne _
    obtain ⟨root, rest, rfl⟩ := List.exists_cons_of_ne_nil hne
    exact .of_ne fun _ => nofun

/-! ## Endings -/

theorem request_start (request : Request) (settings : Settings) (memo : Option Memo) :
    (start request settings memo).request = request :=
  (start_beside request settings memo).request

theorem HandedOver.ends {o : Outcome} {sessions : List Session} {flagged : List Finding}
    (h : HandedOver request ls o g) (hclears : o.Clears sessions flagged) (htold : IsTold g)
    (hrequest : g.request = request) (hend : g.phase = .ended result) :
    Ends request ls g result := by
  cases h with
  | shown hdry hp hinv =>
    rw [hend] at hp
    cases hp
    have hnotice := htold o hend hclears.finalState hclears.managerCode
    rw [hrequest] at hnotice
    exact .shown hclears.finalState hclears.managerCode hinv hdry hnotice
  | running _ hp =>
    rw [hend] at hp
    cases hp
  | @ended reply hdry hmem hp hinv =>
    rw [hend] at hp
    cases hp
    cases reply with
    | error => exact .failed _
    | ok code => exact .ran hclears.finalState rfl hinv hmem

/-- Every run that has ended has one of the endings. -/
theorem ends_of_steps (h : Steps step (start request settings memo) ls g)
    (hend : g.phase = .ended result) : Ends request ls g result := by
  -- the ending is read off the course of the run; that a shown command is told is an invariant of
  -- its own, as a course says nothing of notices
  have hrequest : g.request = request := (request_of_steps h).trans (request_start _ _ _)
  have htold : IsTold g :=
    h.invariant (P := IsTold) (fun hg hstep => hg.move (step_move hstep)) (isTold_start _ _ _)
  cases hroots : request.command.rootPackages with
  | error why =>
    obtain ⟨-, -, -, hp⟩ := silent_of_unreadable hroots h
    rw [hend] at hp
    cases hp
    exact .failed _
  | ok roots =>
    cases roots with
    | nil =>
      obtain ⟨-, -, o, hclears, hover⟩ := silent_of_rootless hroots h
      exact hover.ends hclears htold hrequest hend
    | cons root rest =>
      cases course_of_steps hroots h with
      | scanning hscan => simp [hend, Phase.scan?] at hscan
      | closing hp => simp [hend] at hp
      | failed _ hp =>
        rw [hend] at hp
        cases hp
        exact .failed _
      | asking _ _ hp => simp [hend] at hp
      | declined _ _ hp hblocked hnone _ _ _ _ _ _ hinv =>
        rw [hend] at hp
        cases hp
        exact .blocked hblocked hnone hinv
      | handedOver _ _ hclears _ hover => exact hover.ends hclears htold hrequest hend

/-! ## The answer of the package manager -/

theorem Move.ended (hmove : Move g l g') (hend : g.phase = .ended result) :
    g'.phase = .ended result := by
  have hscan : g.phase.scan? = none := by rw [hend]; rfl
  cases hmove with
  | explore | analyze | tick => exact hend
  | lookUp hp | arrive hp | complete hp | decide hp | follow hp | install hp => simp [hend] at hp
  | walk hp => simp [hend] at hp
  | fail _ hsome => simp [hsome] at hscan

/-- When the package manager has answered, its answer is the result. -/
theorem result_of_install (h : Steps step g₀ ls g) (hend : g.phase = .ended result)
    (hmem : .install reply ∈ ls) : ∃ draft, result = g₀.request.installed draft reply := by
  obtain ⟨as, bs, rfl⟩ := List.append_of_mem hmem
  obtain ⟨m, hm, hrest⟩ := h.split
  obtain ⟨n, hstep, hrest⟩ := hrest.cons_inv
  cases step_move hstep with
  | @install draft _ hp =>
    -- the answer ends the run, and no later step leaves an ended gate
    have hn := hrest.invariant (P := fun g : Gate => g.phase = .ended (m.installed draft reply))
      (fun hg hstep => (step_move hstep).ended hg) rfl
    rw [hend] at hn
    refine ⟨draft, ?_⟩
    rw [← request_of_steps hm]
    exact Phase.ended.inj hn
  | walk hp => simp at hp
  | fail hl => cases hl

end PackageGate.Gate
