import PackageGate.Config.Resolve
import PackageGate.Config.Source

/-!
# What a configuration is merged from

Every setting of a run is what the first of its own sources says that says anything, and nothing
else. A file that has passed its own check says nothing that the check of the merged settings would
refuse, so that only a zero on the command line can be refused there.

- `Config.Sources`: command line, file and environment.
- `Config.Sources.Accepted`: the file has passed its own check, as every file that is found has
  (`Config.Sources.accepted_of_locate`).
- `Config.Merged`: what each setting is, with `Config.Prefers` for those that must not be blank.
- `Config.Setting.Agrees`, `Config.Setting.Same`: the sources and the value of a single setting.
- `Config.merges_exactly`: when a configuration results, and which.
-/

namespace PackageGate

/-- Settings pass their check if none of the numbers is zero. -/
theorem Settings.check_eq_ok {s : Settings} : s.check = .ok () ↔
    s.queueCapacity ≠ 0 ∧ s.analysisWorkers ≠ 0 ∧ s.maxConcurrentFetches ≠ 0 ∧
      s.scanTimeout ≠ 0 := by
  have hzero : s.zeroField? = none ↔ s.queueCapacity ≠ 0 ∧ s.analysisWorkers ≠ 0 ∧
      s.maxConcurrentFetches ≠ 0 ∧ s.scanTimeout ≠ 0 := by
    grind [zeroField?]
  rw [← hzero, check]
  cases s.zeroField? <;> simp

namespace Config

/-! ## Accepted files -/

namespace File

variable {f : File}

/-- An accepted file has no zero. -/
theorem zeroField?_of_accepted (h : f.problem? = none) : f.zeroField? = none := by
  cases hzero : f.zeroField? with
  | none => rfl
  | some field =>
    rw [problem?, hzero] at h
    cases h

theorem strangePolicy?_of_accepted (h : f.problem? = none) : f.strangePolicy? = none := by
  rw [problem?, zeroField?_of_accepted h] at h
  cases hurl : f.strangeUrl? with
  | some why =>
    rw [hurl] at h
    cases h
  | none =>
    rw [hurl] at h
    exact Option.map_eq_none_iff.mp h

/-- A file that is accepted has no count that is zero. -/
theorem counts_of_accepted (h : f.problem? = none) :
    f.queueCapacity ≠ some 0 ∧ f.analysisWorkers ≠ some 0 ∧ f.maxConcurrentFetches ≠ some 0 ∧
      f.scanTimeoutSecs ≠ some 0 := by
  have hzero := zeroField?_of_accepted h
  rw [zeroField?, Option.map_eq_none_iff, List.find?_eq_none] at hzero
  simpa using hzero

/-- A policy in a file that is accepted is one. -/
theorem policy_of_accepted {text : String} (h : f.problem? = none)
    (htext : f.rootFailurePolicy = some text) :
    ∃ policy, RootFailurePolicy.ofText? text = some policy := by
  have hpolicy := strangePolicy?_of_accepted h
  rw [strangePolicy?, htext, Option.filter_eq_none_iff] at hpolicy
  have hnamed := hpolicy text rfl
  rw [Option.isNone_iff_eq_none] at hnamed
  exact Option.ne_none_iff_exists'.mp hnamed

theorem accepted_of_load {path text : String} (h : load path text = .ok f) :
    f.problem? = none := by
  unfold load at h
  split at h
  · cases h
  · split at h
    · cases h
    · rename_i hproblem
      cases h
      exact hproblem

theorem accepted_of_ofSource {path : String} {source : Source} (h : ofSource path source = .ok f) :
    f.problem? = none := by
  cases source with
  | missing => cases h
  | unreadable why => cases h
  | content text => exact accepted_of_load h

end File

/-! ## Sources -/

/-- Where a configuration comes from, apart from the defaults. -/
structure Sources where
  overrides : Overrides
  file : Option File
  env : String → Option String

namespace Sources

variable {α : Type} (s : Sources)

/-- What the file says in a field, if there is a file. -/
def said (field : File → Option α) : Option α := s.file.bind field

/-- The file, if there is one, has passed its own check. -/
def Accepted : Prop := ∀ f ∈ s.file, f.problem? = none

/-- The configuration that results. -/
def resolve : Except Failure Config := Config.resolve s.overrides s.file s.env

/-- No number on the command line is zero. -/
def Nonzero : Prop :=
  s.overrides.queueCapacity ≠ some 0 ∧ s.overrides.analysisWorkers ≠ some 0 ∧
    s.overrides.scanTimeoutSecs ≠ some 0

variable {s}

theorem accepted_of_ofSource {path : String} {source : Source}
    (h : (File.ofSource path source).map some = .ok s.file) : s.Accepted := by
  intro f hf
  rw [Option.mem_def.mp hf] at h
  cases hsource : File.ofSource path source with
  | error e =>
    rw [hsource] at h
    cases h
  | ok f' =>
    rw [hsource] at h
    cases h
    exact File.accepted_of_ofSource hsource

/-- The file that a run finds is accepted, whatever stands in it. -/
theorem accepted_of_locate {named : Option String} {read : String → Source}
    (h : locate named read = .ok s.file) : s.Accepted := by
  unfold locate at h
  split at h
  · exact accepted_of_ofSource h
  · split at h
    · have hnone : s.file = none := (Except.ok.inj h).symm
      simp [Accepted, hnone]
    · exact accepted_of_ofSource h

end Sources

/-! ## Merging -/

/-- What the first of the sources says that says something that counts. -/
def firstOf {α : Type} (counts : α → Bool) (sources : List (Option α)) : Option α :=
  sources.findSome? fun source => source.filter counts

/-- What the first of the sources says that says anything. -/
def firstSaid {α : Type} (sources : List (Option α)) : Option α := firstOf (fun _ => true) sources

/-- The text that is used is the first that is not blank. It is not blank itself, and a blank text
does not hide the one behind it. -/
structure Prefers (used : Option String) (first second : Option String) : Prop where
  used_eq : used = firstOf (!Text.isBlankText ·) [first, second]
  nonblank : ∀ text ∈ used, Text.isBlankText text = false
  unhidden : (∀ text ∈ first, Text.isBlankText text = true) →
    ∀ text ∈ second, Text.isBlankText text = false → used = some text

/-- What the settings of a run are. -/
structure Merged (s : Sources) (c : Config) : Prop where
  npmRegistryUrl : some c.npmRegistryUrl =
    firstSaid [s.said (·.npmRegistryUrl), some (Registry.publicUrl .npm)]
  pypiRegistryUrl : some c.pypiRegistryUrl =
    firstSaid [s.said (·.pypiRegistryUrl), some (Registry.publicUrl .pypi)]
  analysisServiceUrl : Prefers c.analysisServiceUrl (s.env serviceUrlVariable)
    (s.said (·.analysisServiceUrl))
  analysisApiKey : Prefers c.analysisApiKey (s.env apiKeyVariable) (s.said (·.analysisApiKey))
  queueCapacity : some c.settings.queueCapacity =
    firstSaid [s.overrides.queueCapacity, s.said (·.queueCapacity), some 100]
  analysisWorkers : some c.settings.analysisWorkers =
    firstSaid [s.overrides.analysisWorkers, s.said (·.analysisWorkers), some 10]
  maxConcurrentFetches : some c.settings.maxConcurrentFetches =
    firstSaid [s.said (·.maxConcurrentFetches), some 32]
  scanTimeout : some c.settings.scanTimeout =
    (firstSaid [s.overrides.scanTimeoutSecs, s.said (·.scanTimeoutSecs), some 300]).map (1000 * ·)
  policy : c.settings.policy = .skipRoot ↔ s.overrides.skipsFailedRoots = true ∨
    ∃ text ∈ s.said (·.rootFailurePolicy), RootFailurePolicy.ofText? text = some .skipRoot
  check : c.settings.check = .ok ()

section firstOf

variable {α : Type} {a b : Option α} {d : α}

theorem firstSaid_pair : firstSaid [a, some d] = some (a.getD d) := by
  cases a <;> rfl

theorem firstSaid_triple : firstSaid [a, b, some d] = some ((a.or b).getD d) := by
  cases a with
  | none => exact firstSaid_pair
  | some v => rfl

end firstOf

/-- The first text that is not blank is preferred. -/
theorem prefers_firstText (first second : Option String) :
    Prefers (firstText first second) first second := by
  have hfirst : firstText first second = firstOf (!Text.isBlankText ·) [first, second] := by
    simp only [firstText, firstOf, Text.unlessBlank, List.findSome?_cons, List.findSome?_nil]
    cases first.filter (!Text.isBlankText ·) <;> cases second.filter (!Text.isBlankText ·) <;> rfl
  refine ⟨hfirst, ?_, ?_⟩
  · intro text htext
    rw [hfirst] at htext
    obtain ⟨source, -, hsource⟩ := List.exists_of_findSome?_eq_some htext
    simpa using (Option.filter_eq_some_iff.mp hsource).2
  · intro hblank text htext hnonblank
    have hskipped : Text.unlessBlank first = none := by
      simpa [Text.unlessBlank, Option.filter_eq_none_iff] using hblank
    rw [firstText, hskipped, Option.none_or, Option.mem_def.mp htext]
    simp [Text.unlessBlank, hnonblank]

theorem getD_eq_said {s : Sources} {α : Type} {field : File → Option α} (h : field {} = none) :
    field (s.file.getD {}) = s.said field := by
  cases hfile : s.file with
  | none => simpa [Sources.said, hfile] using h
  | some f => simp [Sources.said, hfile]

variable {s s' : Sources} {c c' : Config}

/-- A configuration results if command line and file ask for a policy and their settings pass the
check, and it is put together from these. -/
theorem resolve_eq_ok : s.resolve = .ok c ↔ ∃ policy,
    policyOf s.overrides (s.file.getD {}) = .ok policy ∧
    (settingsOf s.overrides (s.file.getD {}) policy).check = .ok () ∧
    c = {
      npmRegistryUrl := (s.file.getD {}).npmRegistryUrl.getD (Registry.publicUrl .npm)
      pypiRegistryUrl := (s.file.getD {}).pypiRegistryUrl.getD (Registry.publicUrl .pypi)
      analysisServiceUrl :=
        firstText (s.env serviceUrlVariable) (s.file.getD {}).analysisServiceUrl
      analysisApiKey := firstText (s.env apiKeyVariable) (s.file.getD {}).analysisApiKey
      settings := settingsOf s.overrides (s.file.getD {}) policy } := by
  rw [Sources.resolve, Config.resolve]
  cases hpolicy : policyOf s.overrides (s.file.getD {}) with
  | error e => simp [bind, Except.bind]
  | ok policy =>
    cases hcheck : (settingsOf s.overrides (s.file.getD {}) policy).check with
    | error fault => simp [bind, Except.bind, hcheck, throw, throwThe, MonadExceptOf.throw]
    | ok u => simp [bind, Except.bind, hcheck, pure, Except.pure, eq_comm]

/-- A merged count is zero only if the command line says so: an accepted file and the defaults
never do. -/
theorem count_ne_zero {a b : Option Nat} {d : Nat} (hb : b ≠ some 0) (hd : d ≠ 0) :
    (a.or b).getD d ≠ 0 ↔ a ≠ some 0 := by
  cases a with
  | some n => simp
  | none =>
    cases b with
    | some n => simpa using hb
    | none => simpa using hd

theorem Sources.Accepted.problem?_getD (h : s.Accepted) : (s.file.getD {}).problem? = none := by
  cases hfile : s.file with
  | none => rfl
  | some f => exact h f hfile

theorem policyOf_of_accepted {o : Overrides} {f : File} (h : f.problem? = none) :
    ∃ policy, policyOf o f = .ok policy := by
  cases hflag : o.skipsFailedRoots with
  | true => exact ⟨.skipRoot, by rw [policyOf, if_pos hflag]⟩
  | false =>
    cases htext : f.rootFailurePolicy with
    | none => exact ⟨.failFast, by simp only [policyOf, hflag, htext, Bool.false_eq_true, if_false]⟩
    | some text =>
      obtain ⟨policy, hpolicy⟩ := File.policy_of_accepted h htext
      exact ⟨policy, by simp only [policyOf, hflag, htext, hpolicy, Bool.false_eq_true, if_false]⟩

/-- Failed roots are skipped if the flag or the file says so. -/
theorem policyOf_eq_skipRoot {o : Overrides} {f : File} {policy : RootFailurePolicy}
    (h : policyOf o f = .ok policy) :
    policy = .skipRoot ↔ o.skipsFailedRoots = true ∨
      ∃ text ∈ f.rootFailurePolicy, RootFailurePolicy.ofText? text = some .skipRoot := by
  unfold policyOf at h
  split at h
  · rename_i hflag
    cases h
    simp [hflag]
  · rename_i hflag
    cases htext : f.rootFailurePolicy with
    | none =>
      rw [htext] at h
      cases h
      simp [hflag]
    | some text =>
      simp only [htext] at h
      cases hnamed : RootFailurePolicy.ofText? text with
      | none =>
        rw [hnamed] at h
        cases h
      | some named =>
        rw [hnamed] at h
        cases h
        simp [hflag, hnamed]

/-- The merged settings pass the check exactly if no override is zero. -/
theorem check_settingsOf (h : s.Accepted) (policy : RootFailurePolicy) :
    (settingsOf s.overrides (s.file.getD {}) policy).check = .ok () ↔ s.Nonzero := by
  obtain ⟨hcapacity, hworkers, hfetches, htimeout⟩ := File.counts_of_accepted h.problem?_getD
  have hfetches' : (s.file.getD {}).maxConcurrentFetches.getD 32 ≠ 0 :=
    (count_ne_zero (a := none) hfetches (by decide)).mpr nofun
  have hmillis (secs : Nat) : 1000 * secs ≠ 0 ↔ secs ≠ 0 := by omega
  rw [Settings.check_eq_ok, Sources.Nonzero, ← count_ne_zero hcapacity (by decide : 100 ≠ 0),
    ← count_ne_zero hworkers (by decide : 10 ≠ 0), ← count_ne_zero htimeout (by decide : 300 ≠ 0)]
  simp only [settingsOf, hmillis, hfetches', ne_eq, not_false_eq_true, true_and]

/-- With an accepted file, a configuration results unless a number on the command line is zero. -/
theorem resolves_iff (h : s.Accepted) : (∃ c, s.resolve = .ok c) ↔ s.Nonzero := by
  constructor
  · rintro ⟨c, hc⟩
    obtain ⟨policy, -, hcheck, -⟩ := resolve_eq_ok.mp hc
    exact (check_settingsOf h policy).mp hcheck
  · intro hnonzero
    obtain ⟨policy, hpolicy⟩ := policyOf_of_accepted h.problem?_getD
    exact ⟨_, resolve_eq_ok.mpr ⟨policy, hpolicy, (check_settingsOf h policy).mpr hnonzero, rfl⟩⟩

/-- What is resolved is merged by the rules. -/
theorem merged_of_resolve (h : s.resolve = .ok c) : Merged s c := by
  obtain ⟨policy, hpolicy, hcheck, rfl⟩ := resolve_eq_ok.mp h
  have hsaid {α : Type} (field : File → Option α) (hempty : field {} = none) :
      s.said field = field (s.file.getD {}) := (getD_eq_said hempty).symm
  constructor
  case npmRegistryUrl => rw [hsaid _ rfl, firstSaid_pair]
  case pypiRegistryUrl => rw [hsaid _ rfl, firstSaid_pair]
  case analysisServiceUrl => exact hsaid (·.analysisServiceUrl) rfl ▸ prefers_firstText _ _
  case analysisApiKey => exact hsaid (·.analysisApiKey) rfl ▸ prefers_firstText _ _
  case queueCapacity => rw [hsaid _ rfl, firstSaid_triple, settingsOf]
  case analysisWorkers => rw [hsaid _ rfl, firstSaid_triple, settingsOf]
  case maxConcurrentFetches => rw [hsaid _ rfl, firstSaid_pair, settingsOf]
  case scanTimeout => rw [hsaid _ rfl, firstSaid_triple, settingsOf, Option.map_some]
  case policy => exact hsaid (·.rootFailurePolicy) rfl ▸ policyOf_eq_skipRoot hpolicy
  case check => exact hcheck

/-! ## Independence -/

/-- What makes up a configuration, one by one. -/
inductive Setting
  | npmRegistryUrl
  | pypiRegistryUrl
  | analysisServiceUrl
  | analysisApiKey
  | queueCapacity
  | analysisWorkers
  | maxConcurrentFetches
  | scanTimeout
  | policy

/-- Two sources say the same of a setting. -/
def Setting.Agrees (s s' : Sources) : Setting → Prop
  | npmRegistryUrl => s.said (·.npmRegistryUrl) = s'.said (·.npmRegistryUrl)
  | pypiRegistryUrl => s.said (·.pypiRegistryUrl) = s'.said (·.pypiRegistryUrl)
  | analysisServiceUrl => s.env serviceUrlVariable = s'.env serviceUrlVariable ∧
      s.said (·.analysisServiceUrl) = s'.said (·.analysisServiceUrl)
  | analysisApiKey => s.env apiKeyVariable = s'.env apiKeyVariable ∧
      s.said (·.analysisApiKey) = s'.said (·.analysisApiKey)
  | queueCapacity => s.overrides.queueCapacity = s'.overrides.queueCapacity ∧
      s.said (·.queueCapacity) = s'.said (·.queueCapacity)
  | analysisWorkers => s.overrides.analysisWorkers = s'.overrides.analysisWorkers ∧
      s.said (·.analysisWorkers) = s'.said (·.analysisWorkers)
  | maxConcurrentFetches => s.said (·.maxConcurrentFetches) = s'.said (·.maxConcurrentFetches)
  | scanTimeout => s.overrides.scanTimeoutSecs = s'.overrides.scanTimeoutSecs ∧
      s.said (·.scanTimeoutSecs) = s'.said (·.scanTimeoutSecs)
  | policy => s.overrides.skipsFailedRoots = s'.overrides.skipsFailedRoots ∧
      s.said (·.rootFailurePolicy) = s'.said (·.rootFailurePolicy)

/-- Two configurations have the same value of a setting. -/
def Setting.Same (c c' : Config) : Setting → Prop
  | npmRegistryUrl => c.npmRegistryUrl = c'.npmRegistryUrl
  | pypiRegistryUrl => c.pypiRegistryUrl = c'.pypiRegistryUrl
  | analysisServiceUrl => c.analysisServiceUrl = c'.analysisServiceUrl
  | analysisApiKey => c.analysisApiKey = c'.analysisApiKey
  | queueCapacity => c.settings.queueCapacity = c'.settings.queueCapacity
  | analysisWorkers => c.settings.analysisWorkers = c'.settings.analysisWorkers
  | maxConcurrentFetches => c.settings.maxConcurrentFetches = c'.settings.maxConcurrentFetches
  | scanTimeout => c.settings.scanTimeout = c'.settings.scanTimeout
  | policy => c.settings.policy = c'.settings.policy

/-- A setting depends on what is said about it, and on nothing else. -/
theorem Setting.same_of_agrees {setting : Setting} (h : Merged s c) (h' : Merged s' c')
    (hagrees : setting.Agrees s s') : setting.Same c c' := by
  cases setting with
  | npmRegistryUrl =>
    exact Option.some.inj (by rw [h.npmRegistryUrl, h'.npmRegistryUrl, hagrees])
  | pypiRegistryUrl =>
    exact Option.some.inj (by rw [h.pypiRegistryUrl, h'.pypiRegistryUrl, hagrees])
  | analysisServiceUrl =>
    obtain ⟨henv, hfile⟩ := hagrees
    exact h.analysisServiceUrl.used_eq.trans (henv ▸ hfile ▸ h'.analysisServiceUrl.used_eq.symm)
  | analysisApiKey =>
    obtain ⟨henv, hfile⟩ := hagrees
    exact h.analysisApiKey.used_eq.trans (henv ▸ hfile ▸ h'.analysisApiKey.used_eq.symm)
  | queueCapacity =>
    obtain ⟨hoverride, hfile⟩ := hagrees
    exact Option.some.inj (by rw [h.queueCapacity, h'.queueCapacity, hoverride, hfile])
  | analysisWorkers =>
    obtain ⟨hoverride, hfile⟩ := hagrees
    exact Option.some.inj (by rw [h.analysisWorkers, h'.analysisWorkers, hoverride, hfile])
  | maxConcurrentFetches =>
    exact Option.some.inj (by rw [h.maxConcurrentFetches, h'.maxConcurrentFetches, hagrees])
  | scanTimeout =>
    obtain ⟨hoverride, hfile⟩ := hagrees
    exact Option.some.inj (by rw [h.scanTimeout, h'.scanTimeout, hoverride, hfile])
  | policy =>
    obtain ⟨hflag, hfile⟩ := hagrees
    have hskips : c.settings.policy = .skipRoot ↔ c'.settings.policy = .skipRoot := by
      rw [h.policy, h'.policy, hflag, hfile]
    show c.settings.policy = c'.settings.policy
    cases hc : c.settings.policy <;> cases hc' : c'.settings.policy <;> simp [hc, hc'] at hskips ⊢

/-- **Merging is exact.** With a file that has passed its own check, or none, a configuration
results unless a number on the command line is zero. Every setting of it is then what its own
sources say, in the order of their precedence, and no source of another setting matters to it. -/
theorem merges_exactly (s : Sources) (h : s.Accepted) :
    ((∃ c, s.resolve = .ok c) ↔ s.Nonzero) ∧
    (∀ c, s.resolve = .ok c → Merged s c) ∧
    ∀ (s' : Sources) (c c' : Config), s.resolve = .ok c → s'.resolve = .ok c' →
      ∀ setting : Setting, setting.Agrees s s' → setting.Same c c' :=
  ⟨resolves_iff h, fun _ hc => merged_of_resolve hc, fun _ _ _ hc hc' _ hagrees =>
    Setting.same_of_agrees (merged_of_resolve hc) (merged_of_resolve hc') hagrees⟩

/-- A file that is overridden in one number, next to a variable that is blank. -/
def layered : Sources where
  overrides := { queueCapacity := some 5 }
  file := some {
    analysisServiceUrl := some "https://scan.test"
    queueCapacity := some 7
    analysisWorkers := some 3
    rootFailurePolicy := some "Skip_Root" }
  env := fun name => if name = serviceUrlVariable then some " " else none

/-- The override takes the place of the number in the file, the blank variable does not take the
place of the URL there, and what else the command line and the environment say does not matter. -/
theorem merges_exactly_layered : layered.Accepted ∧ layered.Nonzero ∧
    ∃ c, layered.resolve = .ok c ∧ c.settings.queueCapacity = 5 ∧ c.settings.analysisWorkers = 3 ∧
      c.settings.policy = .skipRoot ∧ c.analysisServiceUrl = some "https://scan.test" ∧
      ∃ c', Sources.resolve { layered with
          overrides := { queueCapacity := some 5, analysisWorkers := some 1 }
          env := fun _ => none } = .ok c' ∧
        c.settings.queueCapacity = c'.settings.queueCapacity := by
  have haccepted : layered.Accepted := by
    rintro f ⟨⟩
    decide +kernel
  have hnonzero : layered.Nonzero := ⟨by decide, by decide, by decide⟩
  obtain ⟨hresolves, hmerged, hindependent⟩ := merges_exactly layered haccepted
  obtain ⟨c, hc⟩ := hresolves.mpr hnonzero
  obtain ⟨c', hc'⟩ := (resolves_iff (s := { layered with
    overrides := { queueCapacity := some 5, analysisWorkers := some 1 }
    env := fun _ => none }) haccepted).mpr ⟨by decide, by decide, by decide⟩
  have hm := hmerged c hc
  refine ⟨haccepted, hnonzero, c, hc, Option.some.inj hm.queueCapacity,
    Option.some.inj hm.analysisWorkers, hm.policy.mpr (.inr ⟨_, rfl, by decide +kernel⟩),
    hm.analysisServiceUrl.unhidden ?_ _ rfl (by decide +kernel), c', hc',
    hindependent _ c c' hc hc' .queueCapacity ⟨rfl, rfl⟩⟩
  rintro text ⟨⟩
  decide +kernel

end Config

end PackageGate
