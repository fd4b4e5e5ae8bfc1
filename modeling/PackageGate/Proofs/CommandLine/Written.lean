import Mathlib.Algebra.GroupWithZero.Nat
import PackageGate.CommandLine.Reader

/-!
# Options as they are written

How the guard's own options are spelled in front of a package manager, and what they ask for, said
without the reader; and that the reader takes them so.

- `CommandLine.Written`: an option as the user writes it.
- `CommandLine.Asks`, `CommandLine.AsksAll`: what written options ask for.
- `CommandLine.Reader.run_asksAll`: reading them leaves the reader with just that.
-/

namespace PackageGate.CommandLine

/-! ## Numerals -/

/-- Digits, with a plus sign in front if need be, that stand for the number `n`. -/
def IsNumeral (text : String) (n : Nat) : Prop :=
  ∃ digits, digits ≠ [] ∧ (∀ c ∈ digits, c.isDigit = true) ∧
    (text.toList = digits ∨ text.toList = '+' :: digits) ∧
    n = Nat.ofDigitChars 10 digits 0 ∧ n < 2 ^ 64

theorem le_ofDigitChars (k : Nat) (digits : List Char) : k ≤ Nat.ofDigitChars 10 digits k := by
  induction digits generalizing k with
  | nil => exact Nat.le_refl k
  | cons c digits ih =>
    have hstep := ih (10 * k + (c.toNat - '0'.toNat))
    rw [Nat.ofDigitChars_cons]
    omega

/-- No digits on the way are refused if all of them together are small enough. -/
theorem digits_eq_ok {digits : List Char} (hdigits : ∀ c ∈ digits, c.isDigit = true) (k : Nat)
    (hsmall : Nat.ofDigitChars 10 digits k < 2 ^ 64) :
    Number.digits k digits = .ok (Nat.ofDigitChars 10 digits k) := by
  induction digits generalizing k with
  | nil => rfl
  | cons c digits ih =>
    obtain ⟨hc, hrest⟩ := List.forall_mem_cons.1 hdigits
    rw [Nat.ofDigitChars_cons] at hsmall ⊢
    have hnow : 10 * k + (c.toNat - '0'.toNat) < 2 ^ 64 :=
      Nat.lt_of_le_of_lt (le_ofDigitChars _ digits) hsmall
    have hstep : Number.digits k (c :: digits) = if !c.isDigit then .error .digit
        else if 10 * k + (c.toNat - '0'.toNat) < 2 ^ 64
          then Number.digits (10 * k + (c.toNat - '0'.toNat)) digits
          else .error .tooLarge := rfl
    rw [hstep, hc, if_neg (by decide), if_pos hnow]
    exact ih hrest _ hsmall

/-- A numeral is read as the number it stands for. -/
theorem IsNumeral.read_eq {text : String} {n : Nat} (h : IsNumeral text n) :
    Number.read text = .ok n := by
  obtain ⟨digits, hne, hdigits, htext, rfl, hsmall⟩ := h
  obtain ⟨c, cs, rfl⟩ := List.exists_cons_of_ne_nil hne
  have hread := digits_eq_ok hdigits 0 hsmall
  -- a sign is no digit, so none is skipped where the text is all digits
  have hplus : c ≠ '+' := by
    rintro rfl
    exact absurd (hdigits '+' List.mem_cons_self) (by decide)
  unfold Number.read
  rcases htext with htext | htext
  · rw [htext]
    split
    · rename_i hnil
      cases hnil
    · rename_i hlone
      exact absurd (List.cons.inj hlone).1 hplus
    · rename_i hsigned
      exact absurd (List.cons.inj hsigned).1 hplus
    · exact hread
  · rw [htext]
    exact hread

/-! ## Spellings -/

/-- A switch by its name, with a value behind an equals sign if it is given one. -/
def Switch.spelled (s : Switch) : Option String → String
  | none => "--" ++ s.name
  | some value => "--" ++ s.name ++ "=" ++ value

/-- An option as the user writes it. -/
inductive Written
  | named (s : Switch) (value : Option String)
  /-- With its value as the next argument. -/
  | spaced (s : Switch) (value : String)
  /-- As `n + 1` letters behind one dash, each of which asks for more to be logged. -/
  | letters (n : Nat)

namespace Written

/-- The arguments that an option is written in. -/
def args : Written → List String
  | named s value => [s.spelled value]
  | spaced s value => [s.spelled none, value]
  | letters n => [String.ofList ('-' :: List.replicate (n + 1) 'v')]

/-- It is the option `s` with a value. The next argument is no value if it is an option itself. -/
def Gives (w : Written) (s : Switch) (value : String) : Prop :=
  w = .named s (some value) ∨
    w = .spaced s value ∧ ∀ c rest, value.toList ≠ '-' :: c :: rest

end Written

/-- What an option asks for beside `o`. Only `verbose` may be given again. -/
inductive Asks (o : Options) : Written → Options → Prop
  | dryRun : o.isDryRun = false → Asks o (.named .dryRun none) { o with isDryRun := true }
  | skipFailedRoots : o.skipsFailedRoots = false →
    Asks o (.named .skipFailedRoots none) { o with skipsFailedRoots := true }
  | verbose : Asks o (.named .verbose none) (o.louder 1)
  | letters (n : Nat) : Asks o (.letters n) (o.louder (n + 1))
  | config {w : Written} {path : String} : o.config = none → w.Gives .config path → path ≠ "" →
    Asks o w { o with config := some path }
  | workers {w : Written} {text : String} {n : Nat} : o.workers = none → w.Gives .workers text →
    IsNumeral text n → Asks o w { o with workers := some n }
  | queueCapacity {w : Written} {text : String} {n : Nat} : o.queueCapacity = none →
    w.Gives .queueCapacity text → IsNumeral text n → Asks o w { o with queueCapacity := some n }
  | timeout {w : Written} {text : String} {n : Nat} : o.timeout = none →
    w.Gives .timeout text → IsNumeral text n → Asks o w { o with timeout := some n }

/-- What options ask for one after another, beside `o`. -/
inductive AsksAll : Options → List Written → Options → Prop
  | nil {o : Options} : AsksAll o [] o
  | cons {o o' o'' : Options} {w : Written} {ws : List Written} : Asks o w o' →
    AsksAll o' ws o'' → AsksAll o (w :: ws) o''

theorem Options.louder_louder (o : Options) (a b : Nat) :
    (o.louder a).louder b = o.louder (a + b) := by
  have hcount : min verbosityLimit (min verbosityLimit (o.verbosity + a) + b) =
      min verbosityLimit (o.verbosity + (a + b)) := by
    omega
  simp only [louder, hcount]

/-! ## Names -/

theorem Switch.ne_equals_of_mem_name (s : Switch) : ∀ c ∈ s.name.toList, c ≠ '=' := by
  have hname : '=' ∉ s.name.toList := by
    cases s <;> decide +kernel
  exact fun c hc heq => hname (heq ▸ hc)

/-- A switch is found under its own name only. -/
theorem Switch.ofName?_eq_some {s : Switch} {name : List Char} :
    Switch.ofName? name = some s ↔ name = s.name.toList := by
  constructor
  · intro h
    have hfound : decide (s.name.toList = name) = true :=
      List.find?_some (p := fun s : Switch => decide (s.name.toList = name)) h
    exact (of_decide_eq_true hfound).symm
  · rintro rfl
    cases s <;> rfl

theorem Switch.toList_spelled (s : Switch) (value : Option String) :
    (s.spelled value).toList =
      '-' :: '-' :: (s.name.toList ++ (value.elim [] fun v => '=' :: v.toList)) := by
  cases value with
  | none => simp only [spelled, String.toList_append, Option.elim_none, List.append_nil]; rfl
  | some v => simp only [spelled, String.toList_append, Option.elim_some, List.append_assoc]; rfl

namespace Reader

variable {r : Reader} {o o' : Options}

/-- The name in front of the equals sign is the switch, what is behind it the value. -/
theorem option_spelled (r : Reader) (s : Switch) (value : Option String) :
    r.option (s.spelled value) =
      if s.takesValue then (r.take s value).map some
      else match value with
        | some value => .error (.refused (.superfluousValue s.shown value))
        | none => (r.turn s).map some := by
  have hname : ∀ c ∈ s.name.toList, (decide (c ≠ '=')) = true :=
    fun c hc => decide_eq_true (s.ne_equals_of_mem_name c hc)
  have hfound := Switch.ofName?_eq_some.2 (rfl : s.name.toList = s.name.toList)
  rw [option, Switch.toList_spelled]
  simp only [long]
  rw [List.takeWhile_append_of_pos hname, List.dropWhile_append_of_pos hname]
  cases value with
  | none => simp [hfound]
  | some v => simp [hfound]

/-- The options and nothing else. -/
def holding (o : Options) : Reader := { start with options := o }

/-- Once it is settled, the reader has the options `o` and nothing else. -/
def Holds (r : Reader) (o : Options) : Prop := r.settle = .ok (holding o)

theorem holds_holding (o : Options) : Holds (holding o) o := rfl

/-! ## Steps of the reader -/

theorem not_awaitsValue {r' : Reader} (h : r.settle = .ok r') : r.awaitsValue = false := by
  unfold settle at h
  unfold awaitsValue
  split at h
  · rename_i hpending
    rw [hpending]
  · cases h
  all_goals
    rename_i hpending
    rw [hpending]

/-- What a switch does depends only on the options that the reader holds. -/
theorem Holds.turn (h : Holds r o) (s : Switch) : r.turn s = (holding o).turn s := by
  unfold Reader.turn
  rw [h, holds_holding o]

theorem Holds.take (h : Holds r o) (s : Switch) (value : Option String) :
    r.take s value = (holding o).take s value := by
  unfold Reader.take
  rw [h, holds_holding o]

theorem run_of_option {r' : Reader} {arg : String} (harg : arg ≠ "--")
    (h : r.option arg = .ok (some r')) (rest : List String) :
    r.run false (arg :: rest) = r'.run false rest := by
  simp only [run, Bool.false_eq_true, if_false, if_neg harg, h]

/-- An argument that does not begin with a dash, or is nothing more, is no option. -/
theorem option_of_plain {arg : String} (h : ∀ c rest, arg.toList ≠ '-' :: c :: rest)
    (r : Reader) : arg ≠ "--" ∧ r.option arg = .ok none := by
  constructor
  · rintro rfl
    exact h '-' [] rfl
  · unfold option
    split
    · rename_i hlist
      exact absurd hlist (h _ _)
    · rename_i hlist
      exact absurd hlist (h _ _)
    · rfl

theorem option_of_cluster {arg : String} {c : Char} {cluster : List Char}
    (h : arg.toList = '-' :: c :: cluster) (hc : c ≠ '-') (r : Reader) :
    r.option arg = r.short (c :: cluster) := by
  unfold option
  rw [h]
  split
  · rename_i heq
    exact absurd (List.cons.inj (List.cons.inj heq).2).1 hc
  · rename_i heq
    rw [(List.cons.inj heq).2]
  · rename_i hnot
    exact absurd rfl (hnot c cluster)

theorem spelled_ne_escape (s : Switch) (value : Option String) : s.spelled value ≠ "--" := by
  intro heq
  have hlist := congrArg String.toList heq
  rw [Switch.toList_spelled] at hlist
  cases s <;> cases hlist

/-- A flag that takes no value, written out. -/
theorem Holds.run_flag (h : Holds r o) {s : Switch} (hflag : s.takesValue = false)
    (hturn : (holding o).turn s = .ok (holding o')) (rest : List String) :
    r.run false (s.spelled none :: rest) = (holding o').run false rest := by
  refine run_of_option (spelled_ne_escape s none) ?_ rest
  rw [option_spelled, hflag, h.turn, hturn]
  rfl

theorem turn_of_not_has {s : Switch} (hhas : o.has s = false) :
    (holding o).turn s = match s with
      | .help => .error .help
      | .version => .error .version
      | .dryRun => .ok (holding { o with isDryRun := true })
      | .skipFailedRoots => .ok (holding { o with skipsFailedRoots := true })
      | .verbose => .ok (holding (o.louder 1))
      | _ => .ok (holding o) := by
  have hnot : (holding o).options.has s = false := hhas
  unfold Reader.turn
  rw [holds_holding o]
  simp only [bind, Except.bind, hnot, Bool.false_eq_true, if_false]
  cases s <;> rfl

theorem turn_verbose (o : Options) :
    (holding o).turn .verbose = .ok (holding (o.louder 1)) :=
  turn_of_not_has rfl

/-- Every letter counts. -/
theorem Holds.letters_replicate (h : Holds r o) (n : Nat) :
    r.letters (List.replicate (n + 1) 'v') = .ok (holding (o.louder (n + 1))) := by
  induction n generalizing r o with
  | zero =>
    simp only [List.replicate, letters, Switch.ofLetter?, h.turn, turn_verbose]
  | succ n ih =>
    have hnext := ih (holds_holding (o.louder 1))
    rw [Options.louder_louder, Nat.add_comm 1] at hnext
    rw [List.replicate_succ]
    simp only [letters, Switch.ofLetter?, h.turn, turn_verbose]
    exact hnext

/-- A cluster of letters makes the guard louder, once for each. -/
theorem Holds.run_letters (h : Holds r o) (n : Nat) (rest : List String) :
    r.run false ((Written.letters n).args ++ rest) =
      (holding (o.louder (n + 1))).run false rest := by
  have hlist : (String.ofList ('-' :: List.replicate (n + 1) 'v')).toList =
      '-' :: 'v' :: List.replicate n 'v' := by
    rw [String.toList_ofList, List.replicate_succ]
  refine run_of_option ?_ ?_ rest
  · intro heq
    rw [heq] at hlist
    cases hlist
  · have hlisted :
        (List.replicate (n + 1) 'v').any (fun c => (Switch.ofLetter? c).isNone) = false :=
      List.any_eq_false.2 fun c hc => by
        rw [List.eq_of_mem_replicate hc]
        decide
    have hletters := h.letters_replicate n
    rw [List.replicate_succ] at hlisted hletters
    rw [option_of_cluster hlist (by decide)]
    simp only [short, hlisted, Bool.and_false, Bool.false_eq_true, if_false, hletters]
    rfl

/-- A value that is given in any of the spellings is set. -/
theorem Holds.run_gives (h : Holds r o) {w : Written} {s : Switch} {value : String}
    (hgives : w.Gives s value) (htakes : s.takesValue = true)
    (hset : o.setValue s value = .ok o') :
    ∃ r', Holds r' o' ∧ ∀ rest, r.run false (w.args ++ rest) = r'.run false rest := by
  have hheld : Holds { holding o with pending := some (.value s (some value)) } o' := by
    unfold Holds settle
    simp only [holding, hset]
    rfl
  -- a value behind an equals sign is set at once, one in the next argument is left pending
  rcases hgives with rfl | ⟨rfl, hplain⟩
  · refine ⟨holding o', holds_holding o', fun rest => ?_⟩
    refine run_of_option (spelled_ne_escape s _) ?_ rest
    rw [option_spelled, htakes, if_pos rfl, h.take]
    have htaken : (holding o).take s (some value) = .ok (holding o') := hheld
    rw [htaken]
    rfl
  · refine ⟨{ holding o with pending := some (.value s (some value)) }, hheld, fun rest => ?_⟩
    have hfirst := run_of_option (r := r) (spelled_ne_escape s none)
      (by rw [option_spelled, htakes, if_pos rfl, h.take]; rfl) (value :: rest)
    obtain ⟨hne, hoption⟩ := option_of_plain hplain
      { holding o with pending := some (.value s none) }
    refine hfirst.trans ?_
    simp only [run, Bool.false_eq_true, if_false, if_neg hne, hoption]
    rfl

/-- An option leaves the reader with what it asks for. -/
theorem Holds.run_asks (h : Holds r o) {w : Written} (hasks : Asks o w o') :
    ∃ r', Holds r' o' ∧ ∀ rest, r.run false (w.args ++ rest) = r'.run false rest := by
  cases hasks with
  | dryRun hnone =>
    have hturn := turn_of_not_has (s := .dryRun) hnone
    exact ⟨_, holds_holding _, h.run_flag rfl hturn⟩
  | skipFailedRoots hnone =>
    have hturn := turn_of_not_has (s := .skipFailedRoots) hnone
    exact ⟨_, holds_holding _, h.run_flag rfl hturn⟩
  | verbose => exact ⟨_, holds_holding _, h.run_flag rfl (turn_verbose o)⟩
  | letters n => exact ⟨_, holds_holding _, h.run_letters n⟩
  | config hnone hgives hne =>
    refine h.run_gives hgives rfl ?_
    simp [Options.setValue, Options.has, hnone, hne]
  | workers hnone hgives hnumeral | queueCapacity hnone hgives hnumeral
  | timeout hnone hgives hnumeral =>
    refine h.run_gives hgives rfl ?_
    simp [Options.setValue, Options.has, Options.number, hnone, hnumeral.read_eq]
    rfl

/-- Options leave the reader with what they ask for. -/
theorem Holds.run_asksAll (h : Holds r o) {ws : List Written} (hasks : AsksAll o ws o') :
    ∃ r', Holds r' o' ∧ ∀ rest,
      r.run false (ws.flatMap Written.args ++ rest) = r'.run false rest := by
  induction hasks generalizing r with
  | nil => exact ⟨r, h, fun _ => rfl⟩
  | cons hfirst _ ih =>
    obtain ⟨r', hr', hrun⟩ := h.run_asks hfirst
    obtain ⟨r'', hr'', hruns⟩ := ih hr'
    refine ⟨r'', hr'', fun rest => ?_⟩
    rw [List.flatMap_cons, List.append_assoc, hrun, hruns]

end Reader

end PackageGate.CommandLine
