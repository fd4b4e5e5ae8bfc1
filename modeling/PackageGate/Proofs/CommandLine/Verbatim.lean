import PackageGate.Proofs.CommandLine.Written

/-!
# Arguments that are passed on

What is typed behind manager and action belongs to the package manager, and is to reach it as it
was typed. The reader looks at the first of these arguments all the same: it takes a lone `--`,
an option of the guard's or a cluster of its letters for itself. From the second one on, nothing
is looked at.

- `CommandLine.IsOwn`: the arguments that the guard takes for itself.
- `CommandLine.passes_on_iff`: arguments are passed on as they are typed exactly if the first is
  none of these, and always behind a lone `--`.
- `CommandLine.drops_escape`: the `--` of the command itself is lost.
-/

namespace PackageGate.CommandLine

/-- What is taken for the guard's own where the package manager's arguments begin. -/
inductive IsOwn : String → Prop
  | escape : IsOwn "--"
  | named (s : Switch) (value : Option String) : IsOwn (s.spelled value)
  | letters {cluster : List Char} : cluster ≠ [] → (∀ c ∈ cluster, c ∈ ['v', 'h', 'V']) →
    IsOwn (String.ofList ('-' :: cluster))

/-- The command line asks for `o`, and gives `m` the arguments `arguments`. -/
def PassesOn (argv : List String) (o : Options) (m : Manager) (arguments : List String) : Prop :=
  ∃ args, read argv = .ok args ∧ args.options = o ∧ args.command.manager = m ∧
    args.command.arguments = arguments

theorem Switch.ofLetter?_eq_none {c : Char} : ofLetter? c = none ↔ c ∉ ['v', 'h', 'V'] := by
  simp only [List.mem_cons, List.not_mem_nil, or_false]
  constructor
  · rintro h (rfl | rfl | rfl) <;> cases h
  · intro h
    unfold ofLetter?
    split
    · exact absurd (.inl rfl) h
    · exact absurd (.inr (.inl rfl)) h
    · exact absurd (.inr (.inr rfl)) h
    · rfl

/-- A name that is followed by nothing or by an equals sign is a spelling. -/
theorem Switch.exists_spelled {s : Switch} {body : List Char}
    (h : body.takeWhile (· ≠ '=') = s.name.toList) :
    ∃ value, String.ofList ('-' :: '-' :: body) = s.spelled value := by
  have hbody := List.takeWhile_append_dropWhile (p := (· ≠ '=')) (l := body)
  rw [h] at hbody
  cases hrest : body.dropWhile (· ≠ '=') with
  | nil =>
    refine ⟨none, String.toList_inj.1 ?_⟩
    rw [hrest] at hbody
    rw [toList_spelled, String.toList_ofList, ← hbody]
    rfl
  | cons c value =>
    have hc : c = '=' := by
      have hhead := List.head?_dropWhile_not (· ≠ '=') body
      rw [hrest] at hhead
      simpa using hhead
    refine ⟨some (String.ofList value), String.toList_inj.1 ?_⟩
    rw [hrest, hc] at hbody
    rw [toList_spelled, String.toList_ofList, ← hbody]
    simp only [Option.elim_some, String.toList_ofList]

namespace Reader

variable {r r' : Reader} {o : Options} {m : Manager} {action arg : String} {rest : List String}
  {args : Arguments}

/-! ## Options behind the action -/

theorem map_some_ne_none {α ε : Type} (x : Except ε α) : x.map some ≠ .ok none := by
  cases x <;> nofun

/-- An argument of the guard's own is taken, or refused. -/
theorem option_ne_none_of_isOwn (hescape : arg ≠ "--") (hown : IsOwn arg) (r : Reader) :
    r.option arg ≠ .ok none := by
  cases hown with
  | escape => exact absurd rfl hescape
  | named s value =>
    rw [option_spelled]
    split
    · exact map_some_ne_none _
    · split
      · nofun
      · exact map_some_ne_none _
  | @letters cluster hne hletters =>
    obtain ⟨c, cluster, rfl⟩ := List.exists_cons_of_ne_nil hne
    have hdash : c ≠ '-' := by
      rintro rfl
      exact absurd (hletters '-' List.mem_cons_self) (by decide)
    have hlisted : ((c :: cluster).any fun c => (Switch.ofLetter? c).isNone) = false :=
      List.any_eq_false.2 fun c hc hnone =>
        Switch.ofLetter?_eq_none.1 (Option.isNone_iff_eq_none.1 hnone) (hletters c hc)
    rw [option_of_cluster (String.toList_ofList) hdash]
    simp only [short, hlisted, Bool.and_false, Bool.false_eq_true, if_false]
    exact map_some_ne_none _

/-- With manager and action known, anything else is left to the package manager. -/
theorem option_eq_none_of_not_isOwn (hopen : r.isOpen = true) (hown : ¬ IsOwn arg) :
    r.option arg = .ok none := by
  unfold option
  split
  · rename_i body hlist
    cases hname : Switch.ofName? (body.takeWhile (· ≠ '=')) with
    | none => simp only [long, hname, hopen, if_true]
    | some s =>
      obtain ⟨value, hvalue⟩ := Switch.exists_spelled (Switch.ofName?_eq_some.1 hname)
      rw [← hlist, String.ofList_toList] at hvalue
      exact absurd (hvalue ▸ .named s value) hown
  · rename_i c cluster _ hlist
    cases hlisted : (c :: cluster).any fun c => (Switch.ofLetter? c).isNone with
    | true => simp only [short, hopen, hlisted, Bool.and_self, if_true]
    | false =>
      refine absurd ?_ hown
      rw [← String.ofList_toList (s := arg), hlist]
      refine .letters (List.cons_ne_nil c cluster) fun d hd => ?_
      have hknown := List.any_eq_false.1 hlisted d hd
      exact Decidable.byContradiction fun hnot =>
        hknown (by rw [Switch.ofLetter?_eq_none.2 hnot]; rfl)
  · rfl

/-- With manager and action known, the reader leaves an argument alone exactly if it is none of the
guard's own. -/
theorem option_eq_none_iff (hopen : r.isOpen = true) (hescape : arg ≠ "--") :
    r.option arg = .ok none ↔ ¬ IsOwn arg :=
  ⟨fun h hown => option_ne_none_of_isOwn hescape hown r h, option_eq_none_of_not_isOwn hopen⟩

/-! ## The rest of a command line -/

theorem args_of_finish (h : r.finish rest = .ok args) : args.command.args = rest := by
  unfold finish at h
  cases hsettle : r.settle with
  | error stop =>
    rw [hsettle] at h
    cases h
  | ok r' =>
    rw [hsettle] at h
    simp only [bind, Except.bind] at h
    split at h
    · cases h
      rfl
    · cases h

theorem length_le_of_positional {next : Reader → Except Stop Arguments}
    (hnext : ∀ r, next r = .ok args → args.command.args.length ≤ rest.length)
    (h : r.positional arg rest next = .ok args) :
    args.command.args.length ≤ (arg :: rest).length := by
  unfold positional at h
  cases hsettle : r.settle with
  | error stop =>
    rw [hsettle] at h
    cases h
  | ok r' =>
    rw [hsettle] at h
    simp only [bind, Except.bind] at h
    split at h
    · exact Nat.le_succ_of_le (hnext _ h)
    · exact Nat.le_succ_of_le (hnext _ h)
    · exact Nat.le_of_eq (congrArg List.length (args_of_finish h))

/-- A command has no more arguments than are left to be read. -/
theorem length_le_of_run {isEscaped : Bool} (h : r.run isEscaped rest = .ok args) :
    args.command.args.length ≤ rest.length := by
  induction rest generalizing r isEscaped with
  | nil => exact Nat.le_of_eq (congrArg List.length (args_of_finish h))
  | cons arg rest ih =>
    unfold run at h
    split at h
    · exact length_le_of_positional (fun _ => ih) h
    split at h
    · exact Nat.le_succ_of_le (ih h)
    split at h
    · cases h
    · exact Nat.le_succ_of_le (ih h)
    · split at h
      · exact Nat.le_succ_of_le (ih h)
      · exact length_le_of_positional (fun _ => ih) h

/-! ## Behind the action -/

/-- The reader behind manager and action. -/
def IsReady (r : Reader) (o : Options) (m : Manager) (action : String) : Prop :=
  r.met = 2 ∧ r.settle = .ok ⟨o, some m, some action, none, 2⟩

theorem IsReady.finish_eq (h : r.IsReady o m action) (rest : List String) :
    r.finish rest = .ok ⟨o, m, action, rest⟩ := by
  unfold finish
  rw [h.2]
  rfl

/-- Behind manager and action a positional argument and all that follows it are passed on. -/
theorem IsReady.positional_eq (h : r.IsReady o m action) (arg : String) (rest : List String)
    (next : Reader → Except Stop Arguments) :
    r.positional arg rest next = .ok ⟨o, m, action, arg :: rest⟩ := by
  unfold positional
  rw [h.2]
  rfl

/-- Behind a lone `--` nothing is looked at. -/
theorem IsReady.run_escaped (h : r.IsReady o m action) (rest : List String) :
    r.run true rest = .ok ⟨o, m, action, rest⟩ := by
  cases rest with
  | nil => exact h.finish_eq []
  | cons arg rest =>
    simp only [run, if_true]
    exact h.positional_eq arg rest _

/-- The first argument decides. -/
theorem IsReady.run_eq_iff (h : r.IsReady o m action) (rest : List String) :
    r.run false rest = .ok ⟨o, m, action, rest⟩ ↔ ∀ first ∈ rest.head?, ¬ IsOwn first := by
  cases rest with
  | nil =>
    refine iff_of_true (h.finish_eq []) ?_
    intro first hfirst
    cases hfirst
  | cons first rest =>
    have hopen : r.isOpen = true := by
      rw [isOpen, h.1]
      rfl
    -- if the guard takes the first argument, one too few is left for the command
    have hshort : ∀ {r' isEscaped}, run r' isEscaped rest ≠ .ok ⟨o, m, action, first :: rest⟩ :=
      fun hrun => Nat.not_succ_le_self _ (length_le_of_run hrun)
    simp only [List.head?_cons, Option.mem_some_iff, forall_eq']
    by_cases hescape : first = "--"
    · subst hescape
      exact iff_of_false hshort (not_not_intro .escape)
    · rw [← option_eq_none_iff hopen hescape]
      simp only [run, Bool.false_eq_true, if_false, if_neg hescape]
      cases hoption : r.option first with
      | error stop => refine iff_of_false ?_ ?_ <;> (intro h; cases h)
      | ok found =>
        cases found with
        | some r' =>
          refine iff_of_false hshort ?_
          intro h
          cases h
        | none =>
          simp only [not_awaitsValue h.2, Bool.false_eq_true, if_false]
          exact iff_of_true (h.positional_eq first rest _) trivial

/-- Manager and action are taken one after the other. -/
theorem Holds.run_command (h : Holds r o) (m : Manager)
    (haction : action.toList.head? ≠ some '-') :
    ∃ r' : Reader, r'.IsReady o m action ∧
      ∀ rest, r.run false (m.program :: action :: rest) = r'.run false rest := by
  have hmanager : ∀ c rest, m.program.toList ≠ '-' :: c :: rest := by
    intro c rest
    cases m <;> nofun
  have hplain : ∀ c rest, action.toList ≠ '-' :: c :: rest := fun c rest hlist =>
    haction (congrArg List.head? hlist)
  have hname : Manager.ofName? m.program = some m := by
    cases m <;> rfl
  -- the manager stays pending until its action is met
  let named : Reader := { holding o with pending := some (.manager m.program), met := 1 }
  have hnamed : named.settle = .ok ⟨o, some m, none, none, 1⟩ := by
    simp only [settle, named, hname]
    rfl
  obtain ⟨hne, hoption⟩ := option_of_plain hmanager r
  obtain ⟨hne', hoption'⟩ := option_of_plain hplain named
  refine ⟨⟨o, some m, none, some (.action action), 2⟩, ⟨rfl, rfl⟩, fun rest => ?_⟩
  have hfirst : r.run false (m.program :: action :: rest) = named.run false (action :: rest) := by
    simp only [run, Bool.false_eq_true, if_false, if_neg hne, hoption, not_awaitsValue h]
    unfold positional
    rw [h]
    rfl
  rw [hfirst]
  simp only [run, Bool.false_eq_true, if_false, if_neg hne', hoption', not_awaitsValue hnamed]
  unfold positional
  rw [hnamed]
  rfl

end Reader

variable {o : Options} {ws : List Written} {action : String}

/-- A command line passes arguments on exactly if that is how it is read. -/
theorem passesOn_iff {argv rest : List String} {m : Manager} :
    PassesOn argv o m (action :: rest) ↔ read argv = .ok ⟨o, m, action, rest⟩ := by
  constructor
  · rintro ⟨⟨_, _, _, _⟩, hread, rfl, rfl, harguments⟩
    cases harguments
    exact hread
  · intro hread
    exact ⟨_, hread, rfl, rfl, rfl⟩

/-- **Arguments are passed on verbatim** behind manager and action exactly if the first of them is
none that the guard takes for its own, and behind a lone `--` in any case. The options in front of
the manager are taken as they are written. -/
theorem passes_on_iff (hasks : AsksAll {} ws o) (m : Manager)
    (haction : action.toList.head? ≠ some '-') (rest : List String) :
    (PassesOn (ws.flatMap Written.args ++ m.program :: action :: rest) o m (action :: rest) ↔
        ∀ first ∈ rest.head?, ¬ IsOwn first) ∧
      PassesOn (ws.flatMap Written.args ++ m.program :: action :: "--" :: rest) o m
        (action :: rest) := by
  obtain ⟨r, hr, hrun⟩ := (Reader.holds_holding {}).run_asksAll hasks
  obtain ⟨r', hready, hcommand⟩ := hr.run_command m haction
  have hread : ∀ rest, read (ws.flatMap Written.args ++ m.program :: action :: rest) =
      r'.run false rest :=
    fun rest => (hrun _).trans (hcommand rest)
  rw [passesOn_iff, passesOn_iff, hread, hread]
  refine ⟨hready.run_eq_iff rest, ?_⟩
  simp only [Reader.run, Bool.false_eq_true, if_false, if_true]
  exact hready.run_escaped rest

/-- A call with options in every spelling. An unknown option is the package manager's; behind it
stand options that are the guard's in front of the manager. -/
theorem passes_on_iff_scripted :
    AsksAll {} [.named .dryRun none, .spaced .workers "4", .letters 1,
        .named .config (some "--gate.yml")]
      { config := some "--gate.yml", isDryRun := true, workers := some 4, verbosity := 2 } ∧
    "install".toList.head? ≠ some '-' ∧
    PassesOn ["--dry-run", "--workers", "4", "-vv", "--config=--gate.yml", "npm", "install",
        "--save-dev", "--", "--timeout=1"]
      { config := some "--gate.yml", isDryRun := true, workers := some 4, verbosity := 2 } .npm
      ["install", "--save-dev", "--", "--timeout=1"] := by
  have hfour : IsNumeral "4" 4 := ⟨['4'], by decide, List.forall_mem_singleton.2 rfl, .inl rfl, rfl,
    by decide⟩
  have hasks : AsksAll {} [.named .dryRun none, .spaced .workers "4", .letters 1,
      .named .config (some "--gate.yml")]
      { config := some "--gate.yml", isDryRun := true, workers := some 4, verbosity := 2 } :=
    .cons (.dryRun rfl) (.cons (.workers rfl (.inr ⟨rfl, nofun⟩) hfour)
      (.cons (.letters 1) (.cons (.config rfl (.inl rfl) (by decide)) .nil)))
  have hflag : ¬ IsOwn "--save-dev" :=
    (Reader.option_eq_none_iff (r := { Reader.start with met := 2 }) rfl (by decide)).1 rfl
  have haction : "install".toList.head? ≠ some '-' := by decide
  have hpassed := (passes_on_iff hasks .npm haction ["--save-dev", "--", "--timeout=1"]).1.2
    (by rintro first hfirst; cases hfirst; exact hflag)
  exact ⟨hasks, haction, hpassed⟩

/-- The `--` in front of a script's own arguments does not reach the package manager. -/
theorem drops_escape :
    AsksAll {} [] {} ∧ "test".toList.head? ≠ some '-' ∧
      read ["npm", "test", "--", "--watch"] = .ok ⟨{}, .npm, "test", ["--watch"]⟩ ∧
      ¬ PassesOn ["npm", "test", "--", "--watch"] {} .npm ["test", "--", "--watch"] := by
  have hread : read ["npm", "test", "--", "--watch"] = .ok ⟨{}, .npm, "test", ["--watch"]⟩ := rfl
  refine ⟨.nil, by decide, hread, fun hpassed => ?_⟩
  rw [passesOn_iff, hread] at hpassed
  simp at hpassed

end PackageGate.CommandLine
