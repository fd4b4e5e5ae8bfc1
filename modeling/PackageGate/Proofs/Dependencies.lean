import PackageGate.Proofs.Http.Lookup
import PackageGate.Proofs.Requirement.Declared
import PackageGate.Registry

/-!
# Declared dependencies

- `Manifest.AsksLast`: the entry that counts of those for one name.
- `Manifest.mem_ofEntries`: a manifest has an edge for each name, with what its last entry asks for.
- `Pypi.Describes`: what the index says of a release.
- `Pypi.keeps_requirement_iff`: when a requirement of a release has an edge in its own version.
-/

namespace PackageGate

namespace Manifest

variable {name other range version : String} {entry : String × String}
  {entries deps before behind : List (String × String)}

/-! ## The last entry counts -/

/-- Of the entries for `name`, the last one asks for `range`. -/
def AsksLast (entries : List (String × String)) (name range : String) : Prop :=
  (entries.filter (·.1 = name)).getLast? = some (name, range)

instance : Decidable (AsksLast entries name range) :=
  inferInstanceAs (Decidable (_ = _))

/-- Entries behind override those in front. -/
theorem asksLast_append : AsksLast (before ++ behind) name range ↔
    AsksLast behind name range ∨ (∀ e ∈ behind, e.1 ≠ name) ∧ AsksLast before name range := by
  have hnone : (∀ e ∈ behind, e.1 ≠ name) ↔ (behind.filter (·.1 = name)).getLast? = none := by
    rw [List.getLast?_eq_none_iff, List.filter_eq_nil_iff]
    simp only [decide_eq_true_eq, ne_eq]
  unfold AsksLast
  rw [hnone, List.filter_append, List.getLast?_append]
  cases (behind.filter (·.1 = name)).getLast? <;> simp

theorem asksLast_singleton : AsksLast [entry] name range ↔ entry = (name, range) := by
  unfold AsksLast
  by_cases hname : entry.1 = name
  · simp [hname]
  · have hne : entry ≠ (name, range) := by
      rintro rfl
      exact hname rfl
    simp [hname, hne]

/-! ## Dependencies in order -/

/-- Dependencies stand in rising order of their names. -/
def Rising (deps : List (String × String)) : Prop := deps.Pairwise (·.1 < ·.1)

/-- In front of dependencies with greater names, an entry is the only one for its name. -/
theorem mem_cons_of_lt (h : ∀ e ∈ deps, other < e.1) : (name, version) ∈ (other, range) :: deps ↔
    name = other ∧ version = range ∨ name ≠ other ∧ (name, version) ∈ deps := by
  have hfresh : (name, version) ∈ deps → name ≠ other := by
    rintro hmem rfl
    exact String.lt_irrefl name (h _ hmem)
  rw [List.mem_cons, Prod.mk.injEq, and_iff_right_of_imp hfresh]

theorem Rising.lt_of_lt {old : String} (h : Rising ((other, old) :: deps)) (hlt : name < other) :
    ∀ e ∈ (other, old) :: deps, name < e.1 :=
  List.forall_mem_cons.2 ⟨hlt, fun e he => String.lt_trans hlt ((List.pairwise_cons.1 h).1 e he)⟩

/-- What is inserted stands for its name, and the other names keep what they had. -/
theorem mem_insertDependency (h : Rising deps) :
    (name, version) ∈ insertDependency other range deps ↔
      name = other ∧ version = range ∨ name ≠ other ∧ (name, version) ∈ deps := by
  induction deps with
  | nil => simp [insertDependency]
  | cons dep deps ih =>
    obtain ⟨key, old⟩ := dep
    obtain ⟨hkey, hdeps⟩ := List.pairwise_cons.1 h
    rw [insertDependency]
    split
    · rename_i hlt
      exact mem_cons_of_lt (h.lt_of_lt hlt)
    split
    · rename_i _ heq
      subst heq
      rw [mem_cons_of_lt hkey]
      refine or_congr_right (and_congr_right fun hne => ?_)
      rw [List.mem_cons, or_iff_right fun heq => hne (congrArg Prod.fst heq)]
    · rename_i _ hne
      rw [List.mem_cons, List.mem_cons, ih hdeps, Prod.mk.injEq]
      by_cases hname : name = other
      · simp [hname, hne]
      · simp [hname]

theorem mem_of_mem_insertDependency (h : entry ∈ insertDependency name range deps) :
    entry = (name, range) ∨ entry ∈ deps := by
  induction deps with
  | nil => exact .inl (List.mem_singleton.1 h)
  | cons dep deps ih =>
    rw [insertDependency] at h
    split at h
    · exact List.mem_cons.1 h
    split at h
    · exact (List.mem_cons.1 h).imp_right (List.mem_cons_of_mem _)
    · rcases List.mem_cons.1 h with rfl | h
      · exact .inr List.mem_cons_self
      · exact (ih h).imp_right (List.mem_cons_of_mem _)

/-- Insertion keeps the names strictly rising. -/
theorem Rising.insertDependency (h : Rising deps) :
    Rising (insertDependency name range deps) := by
  induction deps with
  | nil => exact List.pairwise_singleton _ _
  | cons dep deps ih =>
    obtain ⟨key, old⟩ := dep
    obtain ⟨hkey, hdeps⟩ := List.pairwise_cons.1 h
    rw [Manifest.insertDependency]
    split
    · rename_i hlt
      exact List.pairwise_cons.2 ⟨h.lt_of_lt hlt, h⟩
    split
    · rename_i _ heq
      exact List.pairwise_cons.2 ⟨heq ▸ hkey, hdeps⟩
    · rename_i hle hne
      refine List.pairwise_cons.2 ⟨fun e he => ?_, ih hdeps⟩
      rcases mem_of_mem_insertDependency he with rfl | he
      · exact Std.lt_of_le_of_ne hle (Ne.symm hne)
      · exact hkey e he

/-- Entries that are put in one after another: the last one for a name counts, and without any the
dependency stays that was there. -/
theorem mem_foldl_insertDependency (h : Rising deps) :
    (name, version) ∈ entries.foldl (fun deps e => insertDependency e.1 e.2 deps) deps ↔
      AsksLast entries name version ∨ (∀ e ∈ entries, e.1 ≠ name) ∧ (name, version) ∈ deps := by
  -- over any dependencies to begin with, as the first entry is put in before the others
  induction entries generalizing deps with
  | nil => simp [AsksLast]
  | cons entry entries ih =>
    obtain ⟨other, last⟩ := entry
    rw [List.foldl_cons, ih h.insertDependency, mem_insertDependency h,
      ← List.singleton_append, asksLast_append, asksLast_singleton, Prod.mk.injEq, or_assoc]
    refine or_congr_right ?_
    by_cases hname : name = other
    · subst hname
      simp [eq_comm]
    · have hne : other ≠ name := Ne.symm hname
      simp [hname, hne]

/-- A manifest has an edge for each name, with what its last entry asks for. -/
theorem mem_ofEntries : (name, range) ∈ ofEntries entries ↔ AsksLast entries name range := by
  rw [ofEntries, mem_foldl_insertDependency List.Pairwise.nil]
  simp

end Manifest

namespace Pypi

open Manifest (AsksLast)
open Requirement

variable {ω : Type} {t : Http.Transport ω} {base : String} {p : Package} {world : ω} {info : Info}
  {m : Manifest} {before behind : List String} {entry : String} {r : Parts}

/-! ## What the index says -/

/-- Asked for the release `p`, the index at `base` sends a document that says `info` of it. -/
def Describes (t : Http.Transport ω) (base : String) (p : Package) (world : ω) (info : Info) :
    Prop :=
  ∃ url body,
    documentUrl base p.name (if p.version = Specifier.latest then none else some p.version) =
      .ok url ∧
    (Http.Request.getting url).problem? = none ∧
    Http.Delivers t url body (Http.Lookup.attempts - 1) world ∧
    (Json.read? body).bind readInfo = some info

/-- The manifests of releases come from what the index says of them. -/
theorem ask_manifest_eq_ok_iff :
    (Registry.ask t ((Registry.mk .pypi base).manifest p) world).1.result = .ok m ↔
      ∃ info, Describes t base p world info ∧ m = info.manifest p := by
  have hmanifest : (Registry.mk .pypi base).manifest p = manifest base p := rfl
  rw [hmanifest, manifest]
  cases hurl : documentUrl base p.name
      (if p.version = Specifier.latest then none else some p.version) with
  | error why =>
    refine iff_of_false nofun ?_
    rintro ⟨info, ⟨url, body, hok, -⟩, -⟩
    rw [hurl] at hok
    cases hok
  | ok url =>
    have hread : ∀ body, (Json.read? body).bind (fun v => (readInfo v).map (·.manifest p)) =
        some m ↔ ∃ info, (Json.read? body).bind readInfo = some info ∧ m = info.manifest p := by
      intro body
      cases Json.read? body with
      | none => exact iff_of_false nofun (fun ⟨_, h, _⟩ => nomatch h)
      | some doc =>
        exact Option.map_eq_some_iff.trans
          (exists_congr fun _ => and_congr_right fun _ => eq_comm)
    refine Http.Lookup.runFrom_eq_ok_iff.trans ?_
    simp only [hread]
    constructor
    · rintro ⟨hproblem, body, hsent, info, hinfo, hm⟩
      exact ⟨info, ⟨url, body, hurl, hproblem, hsent, hinfo⟩, hm⟩
    · rintro ⟨info, ⟨url', body, hurl', hproblem, hsent, hinfo⟩, hm⟩
      cases hurl.symm.trans hurl'
      exact ⟨hproblem, body, hsent, info, hinfo, hm⟩

variable {name range version : String}

/-- An entry that declares nothing does not count. -/
theorem mem_dependencies_of_none (hlist : info.requirements = some (before ++ entry :: behind))
    (hentry : ofDeclared entry = none) : (name, range) ∈ (info.manifest p).dependencies ↔
      AsksLast (behind.filterMap ofDeclared) name range ∨
      (∀ e ∈ behind.filterMap ofDeclared, e.1 ≠ name) ∧
        AsksLast (before.filterMap ofDeclared) name range := by
  rw [Info.manifest, hlist, Option.getD_some, Manifest.mem_ofEntries, List.filterMap_append,
    List.filterMap_cons_none hentry, Manifest.asksLast_append]

/-- An entry that declares a dependency counts unless one behind it names the same package. -/
theorem mem_dependencies_of_some (hlist : info.requirements = some (before ++ entry :: behind))
    (hentry : ofDeclared entry = some (name, version)) :
    (name, range) ∈ (info.manifest p).dependencies ↔
      AsksLast (behind.filterMap ofDeclared) name range ∨
      (∀ e ∈ behind.filterMap ofDeclared, e.1 ≠ name) ∧ version = range := by
  rw [Info.manifest, hlist, Option.getD_some, Manifest.mem_ofEntries, List.filterMap_append,
    List.filterMap_cons_some hentry, Manifest.asksLast_append, ← List.singleton_append,
    Manifest.asksLast_append, Manifest.asksLast_singleton, Prod.mk.injEq, and_iff_right rfl]
  refine or_iff_left ?_
  rintro ⟨hnone, -⟩
  exact hnone (name, version) List.mem_cons_self rfl

/-- **Requirements become edges**: a requirement of a release, if it does not belong to an extra,
has an edge in its own version exactly if it is the last entry for its package, no value of its
marker holds the word `extra` and it does not compare the version as a text, or if another entry
that counts asks for the same. -/
theorem keeps_requirement_iff (hdescribes : Describes t base p world info)
    (hlist : info.requirements = some (before ++ entry :: behind)) (hentry : IsWritten r entry)
    (hextra : ¬ r.ComparesExtra) :
    ∃ m, (Registry.ask t ((Registry.mk .pypi base).manifest p) world).1.result = .ok m ∧
      ((r.name, r.ownVersion) ∈ m.dependencies ↔
        AsksLast (behind.filterMap ofDeclared) r.name r.ownVersion ∨
        (∀ e ∈ behind.filterMap ofDeclared, e.1 ≠ r.name) ∧
          (¬ r.QuotesExtra ∧ ¬ IsArbitrary r.clauses ∨
            r.QuotesExtra ∧ AsksLast (before.filterMap ofDeclared) r.name r.ownVersion)) := by
  refine ⟨info.manifest p, ask_manifest_eq_ok_iff.2 ⟨info, hdescribes, rfl⟩, ?_⟩
  -- whether the entry counts is settled by its marker, its version by its clauses
  by_cases hquotes : r.QuotesExtra
  · rw [mem_dependencies_of_none hlist (hentry.ofDeclared_eq_none (.inr hquotes))]
    simp only [hquotes, not_true_eq_false, false_and, false_or, true_and]
  · obtain ⟨version, hread, hversion⟩ := hentry.exists_ofDeclared hextra hquotes
    rw [mem_dependencies_of_some hlist hread, hversion]
    simp only [hquotes, not_false_eq_true, true_and, false_and, or_false]

/-! ## Lists of an index -/

/-- The document of a release with a list of requirements. -/
def document (requirements : List String) : String :=
  "\x7b\"info\": \x7b\"requires_dist\": [" ++
    ", ".intercalate (requirements.map fun entry => "\"" ++ entry ++ "\"") ++ "]\x7d\x7d"

/-- An index that sends one document, whatever it is asked for. -/
def serving (body : String) : Http.Transport Unit := fun _ world => (.answered ⟨200⟩ body, world)

/-- What an index says that sends the document of a release. -/
theorem describes_serving (requirements : List String)
    (hread : (Json.read? (document requirements)).bind readInfo =
      some ⟨none, none, some requirements⟩) :
    Describes (serving (document requirements)) "https://pypi.org" ⟨"click", "8.1"⟩ ()
      ⟨none, none, some requirements⟩ :=
  ⟨⟨"https://pypi.org", ["pypi", "click", "8.1", "json"]⟩, _, rfl, by decide +kernel,
    .now rfl rfl, hread⟩

/-- A requirement with an extra, a pin in parentheses and a marker. -/
def marked : Parts where
  name := "colorama"
  extras := ["docs"]
  clauses := [⟨.equal, "0.5".toList⟩]
  operands := [.named "sys_platform", .quoted '\'' "win32".toList, .named "python_version",
    .quoted '\'' "3".toList]

theorem isWritten_marked : IsWritten marked
    "colorama[docs] (== 0.5) ; sys_platform == 'win32' or (python_version<'3')" := by
  have hdemand : marked.IsDemand "colorama[docs] (== 0.5) ".toList := by
    refine ⟨[], [], "[docs]".toList, [' '], "(== 0.5)".toList, [' '], nofun, by decide +kernel,
      nofun, ?_, by decide, ?_, by decide, by decide +kernel⟩
    · exact .listed (.one ⟨[], [], nofun, nofun, by decide +kernel, rfl⟩)
    · exact .inParens (.one ⟨[], [' '], [], nofun, by decide, nofun, by decide +kernel, rfl⟩)
  have hsystem : IsMarker [.named "sys_platform", .quoted '\'' "win32".toList]
      " sys_platform == 'win32'".toList :=
    @IsMarker.comparison _ _ [' '] [' '] _ [' '] (by decide +kernel) (by decide +kernel)
      (by decide) (by decide) (.inl ⟨.equal, rfl⟩) (by decide)
  have hversion : IsMarker [.named "python_version", .quoted '\'' "3".toList]
      "python_version<'3'".toList :=
    @IsMarker.comparison _ _ [] [] _ [] (by decide +kernel) (by decide +kernel) nofun nofun
      (.inl ⟨.less, rfl⟩) nofun
  have hparens : IsMarker _ " (python_version<'3')".toList :=
    @IsMarker.inParens _ [' '] _ [] (by decide) hversion nofun
  have hmarker : IsMarker marked.operands
      " sys_platform == 'win32' or (python_version<'3')".toList :=
    @IsMarker.joined _ _ _ _ [' '] _ hsystem (by decide) (.inr rfl) hparens
  exact @IsWritten.marked _ _ _ _ [] hdemand hmarker nofun (by decide +kernel)

/-- A list with that requirement behind another pin of its package. -/
def kept : List String :=
  ["colorama==0.4; os_name == 'nt'",
    "colorama[docs] (== 0.5) ; sys_platform == 'win32' or (python_version<'3')", "idna (>=2.5)"]

/-- An entry with extras, a bracketed version and a marker that compares no extra is kept. -/
theorem keeps_requirement_iff_marked :
    Describes (serving (document kept)) "https://pypi.org" ⟨"click", "8.1"⟩ ()
      ⟨none, none, some kept⟩ ∧
    IsWritten marked "colorama[docs] (== 0.5) ; sys_platform == 'win32' or (python_version<'3')" ∧
    ¬ marked.ComparesExtra ∧
    ∃ m, (Registry.ask (serving (document kept))
        ((Registry.mk .pypi "https://pypi.org").manifest ⟨"click", "8.1"⟩) ()).1.result = .ok m ∧
      ("colorama", "0.5") ∈ m.dependencies := by
  have hdescribes := describes_serving kept (by decide +kernel)
  have hextra : ¬ marked.ComparesExtra := by decide +kernel
  have hquotes : ¬ marked.QuotesExtra := by
    rintro ⟨quote, text, hmem, hword⟩
    have hoccurs := (occursIn_iff "extra".toList).2 hword
    simp only [marked, List.mem_cons, Operand.quoted.injEq, reduceCtorEq, List.not_mem_nil,
      false_or, or_false] at hmem
    rcases hmem with ⟨-, rfl⟩ | ⟨-, rfl⟩ <;> exact absurd hoccurs (by decide +kernel)
  have hpin : ¬ IsArbitrary marked.clauses := by
    rintro ⟨version, heq, -⟩
    cases heq
  have hlist : some kept = some (["colorama==0.4; os_name == 'nt'"] ++
      "colorama[docs] (== 0.5) ; sys_platform == 'win32' or (python_version<'3')" ::
        ["idna (>=2.5)"]) := rfl
  obtain ⟨m, hm, hedge⟩ := keeps_requirement_iff hdescribes hlist isWritten_marked hextra
  exact ⟨hdescribes, isWritten_marked, hextra, m, hm,
    hedge.2 (.inr ⟨by decide +kernel, .inl ⟨hquotes, hpin⟩⟩)⟩

/-- A word in a value, a later entry for the same package, and three equals signs. -/
def lost : List String :=
  ["colorama==0.4; platform_version == '5.4-extra'", "numpy==1.26; python_version < '3.9'",
    "numpy==2.0; python_version >= '3.9'", "six===1.16"]

/-- A name and one clause behind it, without gaps. -/
theorem isDemand_clause {name : String} {version : List Char} (hname : IsIdentifier name.toList)
    (hversion : IsVersion version) (comparison : Comparison) (os : List Operand) :
    (Parts.mk name [] [⟨comparison, version⟩] os).IsDemand
      (name.toList ++ (comparison.text ++ version)) := by
  have hclause : (Clause.mk comparison version).IsWritten (comparison.text ++ version) :=
    ⟨[], [], [], nofun, nofun, nofun, hversion, by simp⟩
  exact ⟨[], [], [], [], _, [], nofun, hname, nofun, .absent, nofun, .bare (.one hclause), nofun,
    by simp⟩

/-- A pin under a marker that compares a variable with a value. -/
def underMarker (name version known value : String) : Parts where
  name := name
  extras := []
  clauses := [⟨.equal, version.toList⟩]
  operands := [.named known, .quoted '\'' value.toList]

/-- A name, one clause and a marker with a literal in single quotes. -/
theorem isWritten_underMarker {name version known value : String} (sign : Comparison)
    (hname : IsIdentifier name.toList) (hversion : IsVersion version.toList)
    (hknown : known ∈ knownNames) (hvalue : '\'' ∉ value.toList)
    (hentry : entry.toList = name.toList ++ (['=', '='] ++ version.toList) ++ ';' ::
      ([' '] ++ (known.toList ++ ([' '] ++ (sign.text ++ ([' '] ++
        '\'' :: (value.toList ++ ['\'']))))))) :
    IsWritten (underMarker name version known value) entry := by
  have hspace : IsSpace [' '] := by decide
  have hmarker : IsMarker [.named known, .quoted '\'' value.toList] _ :=
    .comparison hknown ⟨.inr rfl, hvalue⟩ hspace hspace (.inl ⟨sign, rfl⟩) hspace
  refine @IsWritten.marked _ _ _ _ [] (isDemand_clause hname hversion .equal _) hmarker nofun ?_
  rw [List.append_nil]
  exact hentry

/-- The first two pins of the list and the last one have no edge in their own version: of the first
one a value holds the word `extra`, behind the second one another pin names the same package, and
the last one compares the version as a text. -/
theorem loses_requirements :
    Describes (serving (document lost)) "https://pypi.org" ⟨"click", "8.1"⟩ ()
      ⟨none, none, some lost⟩ ∧
    ∃ m, (Registry.ask (serving (document lost))
        ((Registry.mk .pypi "https://pypi.org").manifest ⟨"click", "8.1"⟩) ()).1.result = .ok m ∧
      m.dependencies = [("numpy", "2.0"), ("six", "=1.16")] ∧
      ∀ edge ∈ [("colorama", "0.4"), ("numpy", "1.26"), ("six", "*")], edge ∉ m.dependencies ∧
        ∃ entry ∈ lost, ∃ r, IsWritten r entry ∧ ¬ r.ComparesExtra ∧
          (r.name, r.ownVersion) = edge := by
  have hdescribes := describes_serving lost (by decide +kernel)
  have hdependencies : (Info.manifest ⟨none, none, some lost⟩ ⟨"click", "8.1"⟩).dependencies =
      [("numpy", "2.0"), ("six", "=1.16")] := by decide +kernel
  refine ⟨hdescribes, _, ask_manifest_eq_ok_iff.2 ⟨_, hdescribes, rfl⟩, hdependencies, ?_⟩
  rw [hdependencies]
  have hcolorama : IsWritten (underMarker "colorama" "0.4" "platform_version" "5.4-extra")
      "colorama==0.4; platform_version == '5.4-extra'" :=
    isWritten_underMarker .equal (by decide +kernel) (by decide +kernel) (by decide +kernel)
      (by decide +kernel) (by decide +kernel)
  have hnumpy : IsWritten (underMarker "numpy" "1.26" "python_version" "3.9")
      "numpy==1.26; python_version < '3.9'" :=
    isWritten_underMarker .less (by decide +kernel) (by decide +kernel) (by decide +kernel)
      (by decide +kernel) (by decide +kernel)
  have hsix : IsWritten ⟨"six", [], [⟨.arbitrary, "1.16".toList⟩], []⟩ "six===1.16" :=
    .unmarked (isDemand_clause (by decide +kernel) (by decide +kernel) .arbitrary []) rfl
  simp only [List.forall_mem_cons]
  refine ⟨⟨by decide +kernel, _, ?_, _, hcolorama, by decide +kernel, rfl⟩,
    ⟨by decide +kernel, _, ?_, _, hnumpy, by decide +kernel, rfl⟩,
    ⟨by decide +kernel, _, ?_, _, hsix, by decide +kernel, rfl⟩, nofun⟩ <;> decide +kernel

end Pypi

end PackageGate
