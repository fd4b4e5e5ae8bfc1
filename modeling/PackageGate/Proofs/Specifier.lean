import PackageGate.Proofs.Catalog
import PackageGate.Proofs.Confinement
import PackageGate.Proofs.Gate.Decision
import PackageGate.Proofs.Trimming

/-!
# Roots and dependencies with the same specifier

A specifier may stand on a command line or in a manifest. Either way it is normalized before a
registry is asked, but only a dependency makes up for a specifier that comes out empty.

- `Specifier.IsBareMark`: a range mark and nothing that it marks.
- `Specifier.normalize_eq_empty`: exactly these specifiers come out empty.
- `Specifier.Settled`: what a root and a dependency with one specifier come to.
- `Specifier.settled_alike_iff`: they come to the same unless the specifier is a bare mark, and only
  then a registry is asked for an empty version.
- `Specifier.bare_mark_unsettled`: a root with a bare mark.
-/

namespace PackageGate

namespace Specifier

open Text (IsGap trim)

variable {raw : String} {cs : List Char}

/-- A range mark with nothing but blanks around it. -/
def IsBareMark (raw : String) : Prop :=
  ∃ front mark behind, IsGap front ∧ mark ∈ ['^', '~'] ∧ IsGap behind ∧
    raw.toList = front ++ ([mark] ++ behind)

/-- A bare mark is a caret or a tilde with blanks around it. -/
theorem isBareMark_iff : IsBareMark raw ↔ trim raw.toList = ['^'] ∨ trim raw.toList = ['~'] := by
  constructor
  · rintro ⟨front, mark, behind, hfront, hmark, hbehind, hraw⟩
    rw [hraw, Text.trim_append hfront hbehind]
    simp only [List.mem_cons, List.not_mem_nil, or_false] at hmark
    rcases hmark with rfl | rfl
    · exact .inl rfl
    · exact .inr rfl
  · obtain ⟨front, behind, hfront, hbehind, hraw⟩ := Text.exists_trim raw.toList
    rintro (htrim | htrim)
    · exact ⟨front, '^', behind, hfront, by simp, hbehind, htrim ▸ hraw⟩
    · exact ⟨front, '~', behind, hfront, by simp, hbehind, htrim ▸ hraw⟩

instance (raw : String) : Decidable (IsBareMark raw) := decidable_of_iff _ isBareMark_iff.symm

theorem dropMark_eq_nil : dropMark cs = [] ↔ cs = [] ∨ cs = ['^'] ∨ cs = ['~'] := by
  unfold dropMark
  split <;> simp_all

/-- A specifier that is not blank comes out empty if it is a bare mark, and only then. -/
theorem normalize_eq_empty (h : Text.isBlankText raw = false) :
    normalize raw = "" ↔ IsBareMark raw := by
  have hnil : trim raw.toList ≠ [] := by
    intro hnil
    have hblank := Text.isGap_iff.1 (Text.trim_eq_nil.1 hnil)
    rw [h] at hblank
    cases hblank
  rw [isBareMark_iff, normalize]
  by_cases hstar : trim raw.toList = ['*']
  · rw [if_pos hstar, hstar]
    decide
  · rw [if_neg hstar, ← String.toList_inj, String.toList_ofList]
    exact dropMark_eq_nil.trans (or_iff_right hnil)

/-- A dependency whose normal form is empty asks for the latest version. -/
theorem ofEdge_eq (raw : String) :
    ofEdge raw = if normalize raw = "" then latest else normalize raw := by
  simp only [ofEdge, String.isEmpty_iff]

/-- What a dependency asks for is never empty. -/
theorem ofEdge_ne_empty (raw : String) : ofEdge raw ≠ "" := by
  rw [ofEdge_eq]
  split
  · decide
  · assumption

/-- A root asks for what a dependency with its specifier asks for, unless that comes out empty. -/
theorem normalize_eq_ofEdge : normalize raw = ofEdge raw ↔ normalize raw ≠ "" := by
  rw [ofEdge_eq]
  split
  · rename_i hempty
    rw [hempty]
    decide
  · rename_i hne
    exact iff_of_true rfl hne

/-! ## Requests for an empty version -/

theorem problem?_eq_empty {text : String} :
    Http.Component.problem? text = some .empty ↔ text = "" := by
  rw [← String.toList_inj, Http.Component.problem?]
  by_cases hnil : text.toList = []
  · rw [if_pos hnil]
    exact iff_of_true rfl hnil
  · rw [if_neg hnil]
    refine iff_of_false ?_ hnil
    split_ifs <;> nofun

/-- The version is refused as empty. -/
def refusal : Failure := .of (.component "Version" .empty)

/-- A version is checked before anything is done with it. -/
theorem check_bind_eq_refusal {α : Type} {version : String} {rest : Except Failure α}
    (hrest : rest ≠ .error refusal) :
    (Http.Component.check "Version" version >>= fun _ => rest) = .error refusal ↔ version = "" := by
  rw [← problem?_eq_empty]
  unfold Http.Component.check
  cases Http.Component.problem? version with
  | none => exact iff_of_false hrest nofun
  | some why =>
    constructor
    · intro h
      cases Except.error.inj h
      rfl
    · rintro ⟨⟩
      rfl

/-- Where the newest version can be asked for, a manifest is refused with its version being empty
exactly if the version is empty. -/
theorem manifest_eq_refusal {r : Registry} {name version : String}
    (hname : ∃ l, r.latest name = .ok l) :
    r.manifest ⟨name, version⟩ = .error refusal ↔ version = "" := by
  obtain ⟨e, base⟩ := r
  obtain ⟨l, hl⟩ := hname
  cases e with
  | npm =>
    obtain ⟨segment, hsegment, -⟩ := Question.bind_eq_ok hl
    refine check_bind_eq_refusal ?_
    show (Npm.nameSegment name >>= _) ≠ _
    rw [hsegment]
    nofun
  | pypi =>
    obtain ⟨url, hurl, -⟩ := Question.bind_eq_ok hl
    obtain ⟨hname, -⟩ := Question.check_bind_eq_ok.1 hurl
    have hchecked : Http.Component.check "Package name" name = .ok () := by
      rw [Http.Component.check, hname]
    show Pypi.manifest base ⟨name, version⟩ = _ ↔ _
    unfold Pypi.manifest
    by_cases hlatest : version = latest
    · -- The tag is not written into the URL, so it is not checked either.
      simp only [hlatest, if_true, Pypi.documentUrl, hchecked]
      exact iff_of_false nofun (by decide)
    · simp only [hlatest, if_false, Pypi.documentUrl, hchecked]
      -- The accepted name leaves only the check of the version in front.
      show (Http.Component.check "Version" version >>= fun _ => Except.ok _) >>= _ = _ ↔ _
      rw [bind_assoc]
      exact check_bind_eq_refusal nofun

/-! ## Roots and dependencies -/

/-- What a root of the package `name` with the specifier `raw` comes to, namely `version`, and how
a dependency with the same specifier compares with it. -/
structure Settled (name raw version : String) : Prop where
  /-- The specifier alone settles the version. -/
  direct : Resolution.direct? ⟨name, raw⟩ = some ⟨name, version⟩
  /-- The gate goes on to walk the root in that version, and asks no registry. -/
  walked : ∀ (g : Gate) (s : Gate.Scan), g.phase = .resolving s → s.root = ⟨name, raw⟩ →
    ∃ g', g.step .resolve = some g' ∧ g'.lookups = g.lookups ∧
      g'.phase = .walking s ⟨name, version⟩ g.explorer.nextWalk ∧
      g'.explorer = g.explorer.begin ⟨name, version⟩
  edge : ∀ p, Walk.edgePackage? name raw = some p → p = ⟨name, ofEdge raw⟩
  edge_ne_empty : ofEdge raw ≠ ""
  /-- The dependency asks for the same version, unless the specifier is a bare mark. -/
  alike_iff : version = ofEdge raw ↔ ¬IsBareMark raw
  empty_iff : version = "" ↔ IsBareMark raw
  /-- Only then the request for the root's manifest is refused with its version being empty. -/
  refused_iff : ∀ r : Registry, (∃ l, r.latest name = .ok l) →
    (r.manifest ⟨name, version⟩ = .error refusal ↔ IsBareMark raw)

/-- A root whose text is not blank is taken at its normal form, which may be empty. -/
theorem direct?_of_nonblank {root : Package} (h : Text.isBlankText root.version = false) :
    Resolution.direct? root = some (root.withVersion (normalize root.version)) := by
  rw [Resolution.direct?, h, if_neg Bool.false_ne_true]

/-- **A root and a dependency with one specifier come to the same version**, unless the specifier is
a bare mark: then the root is left with an empty version, which every registry refuses. -/
theorem settled_alike_iff (name : String) {raw : String} (h : Text.isBlankText raw = false) :
    ∃ version, Settled name raw version := by
  have hdirect : Resolution.direct? ⟨name, raw⟩ = some ⟨name, normalize raw⟩ :=
    direct?_of_nonblank h
  have halike : normalize raw = ofEdge raw ↔ ¬IsBareMark raw :=
    normalize_eq_ofEdge.trans (not_congr (normalize_eq_empty h))
  refine ⟨normalize raw, {
    direct := hdirect
    walked := fun g s hphase hroot => ⟨g.walk s ⟨name, normalize raw⟩, ?_, ?_, rfl, rfl⟩
    edge := fun p hp => ?_
    edge_ne_empty := ofEdge_ne_empty raw
    alike_iff := halike
    empty_iff := normalize_eq_empty h
    refused_iff := fun r hname => (manifest_eq_refusal hname).trans (normalize_eq_empty h) }⟩
  · simp only [Gate.step, hphase, Gate.resolve, hroot, hdirect]
  · show (g.events ++ [_]).filterMap _ = g.events.filterMap _
    rw [List.filterMap_append]
    exact List.append_nil _
  · obtain ⟨hname, hversion, -⟩ := Package.nonblank_of_make (Catalog.make_of_edgePackage? hp)
    rw [← hname, ← hversion]

/-- Only the outer one of two marks goes, and what is left is asked for on both ways. -/
theorem settled_alike_iff_nested : Text.isBlankText " ^~1.0 " = false ∧ ¬IsBareMark " ^~1.0 " ∧
    ofEdge " ^~1.0 " = "~1.0" ∧ ∃ version, Settled "lodash" " ^~1.0 " version :=
  ⟨by decide, by decide, by decide, settled_alike_iff "lodash" (by decide)⟩

/-- A root with a bare mark is settled in an empty version, for which no manifest can be asked,
while a dependency with it asks for the newest release. -/
theorem bare_mark_unsettled :
    Text.isBlankText "^" = false ∧
    Resolution.direct? ⟨"lodash", "^"⟩ = some ⟨"lodash", ""⟩ ∧ ofEdge "^" = latest ∧
    Walk.edgePackage? "lodash" "^" = some ⟨"lodash", latest⟩ ∧
    Npm.manifest "https://registry.npmjs.org" ⟨"lodash", ""⟩ = .error refusal ∧
    ¬∀ name raw : String, Text.isBlankText raw = false →
      Resolution.direct? ⟨name, raw⟩ = some ⟨name, ofEdge raw⟩ := by
  refine ⟨by decide, by decide, by decide, by decide, rfl, ?_⟩
  intro hall
  have hlodash := hall "lodash" "^" (by decide)
  revert hlodash
  decide

end Specifier

end PackageGate
