import Mathlib.Data.List.Forall2
import PackageGate.Proofs.Http.Address

/-!
# Endpoints

An endpoint is a path of fixed segments and of texts from outside. A URL is confined to it if its
address is that path under the base: a segment for each part, from which the part can be read
back, and nothing else.

- `Http.Part`: a part of an endpoint, with the segment that it is written as.
- `Http.Confined`: a URL that goes to an endpoint under a base.
- `Http.confined_iff`: URLs with accepted texts are, unless a text is a lone dot.
-/

namespace PackageGate.Http

/-- A part of the path of an endpoint. -/
inductive Part
  | fixed (segment : String)
  | text (value : String)
  /-- A name with a scope in front of it. -/
  | inScope (scope name : String)
deriving DecidableEq

namespace Part

/-- The text that a part stands for. -/
def value : Part → String
  | fixed segment => segment
  | text value => value
  | inScope scope name => "@" ++ scope ++ "/" ++ name

/-- The segment that a part is written as. -/
def segment : Part → String
  | fixed segment => segment
  | text value => Component.encode value
  | inScope scope name => "@" ++ Component.encode scope ++ "%2F" ++ Component.encode name

/-- The texts of a part may become components of a path. -/
def IsAccepted : Part → Prop
  | fixed segment => segment ∈ ["pypi", "json", "v1", "reports"]
  | text value => Component.problem? value = none
  | inScope scope name => Component.problem? scope = none ∧ Component.problem? name = none

/-- A part can be read back from a segment. Of a scoped name, scope and name stand apart. -/
def IsWritten : Part → String → Prop
  | fixed segment, s => s = segment
  | text value, s => Component.decode? s = some value
  | inScope scope name, s => Component.decode? s = some ("@" ++ scope ++ "/" ++ name) ∧
    ∃ scope' name', s = "@" ++ scope' ++ "%2F" ++ name' ∧
      Component.decode? scope' = some scope ∧ Component.decode? name' = some name

end Part

open Address

/-- The URL goes to the endpoint with the given parts under the base at `b`, and nowhere else. -/
def Confined (b : Address) (parts : List Part) (u : Url) : Prop :=
  ∃ segments, u.address = .ok { b with path := b.path.dropLast ++ segments } ∧
    List.Forall₂ Part.IsWritten parts segments ∧ ∀ s ∈ segments, '/' ∉ s.toList

namespace Component

/-! ## Encoded texts as segments -/

/-- What is encoded is plain. -/
theorem isPlain_encode (s : String) : IsPlain (encode s) := by
  have hplain : ∀ c ∈ (encode s).toList, isPlain c = true ∧ c ≠ '/' := by
    intro c hc
    rcases isUnreserved_or_percent hc with hunreserved | rfl
    · refine ⟨by simp only [isPlain, hunreserved, Bool.true_or], ?_⟩
      rintro rfl
      exact absurd hunreserved (by decide)
    · exact ⟨rfl, by decide⟩
  exact ⟨fun hslash => (hplain '/' hslash).2 rfl, fun c hc => (hplain c hc).1⟩

/-- A lone dot is written as it is, and nothing else is written as one. -/
theorem isDot_encode {s : String} : isDot (encode s) = true ↔ s = "." := by
  constructor
  · intro h
    have hdecoded : ∀ t ∈ [".", "%2e", "%2E"], decode? t = some "." := by decide +kernel
    have hread := hdecoded _ (List.contains_iff_mem.1 h)
    rw [decode?_encode] at hread
    exact Option.some.inj hread
  · rintro rfl
    rfl

theorem isDoubleDot_encode {s : String} (h : problem? s = none) :
    isDoubleDot (encode s) = false := by
  cases hdouble : isDoubleDot (encode s) with
  | false => rfl
  | true =>
    have hdecoded : ∀ a ∈ [".", "%2e", "%2E"], ∀ b ∈ [".", "%2e", "%2E"],
        decode? (a ++ b) = some ".." := by decide +kernel
    obtain ⟨a, ha, hany⟩ := List.any_eq_true.1 hdouble
    obtain ⟨b, hb, heq⟩ := List.any_eq_true.1 hany
    have hread := hdecoded a ha b hb
    rw [← of_decide_eq_true heq, decode?_encode] at hread
    rw [Option.some.inj hread] at h
    cases h

end Component

/-! ## Parts as segments -/

theorem isUndotted_of_head {s : String} (h : s.toList.head? = some '@') : IsUndotted s := by
  have hne : ∀ t : String, t.toList.head? ≠ some '@' → s ≠ t := by
    rintro t ht rfl
    exact ht h
  constructor
  · simp only [isDot, List.contains_eq_mem, decide_eq_false_iff_not, List.mem_cons,
      List.not_mem_nil, or_false, not_or]
    exact ⟨hne _ (by decide), hne _ (by decide), hne _ (by decide)⟩
  · refine List.any_eq_false.2 fun a ha => ?_
    rw [Bool.not_eq_true]
    refine List.any_eq_false.2 fun b hb => ?_
    rw [decide_eq_true_iff]
    refine hne _ ?_
    revert a b
    decide

namespace Part

variable {p : Part}

/-- What holds of the names of the endpoints holds of every fixed part. -/
theorem fixed_cases {P : String → Prop} {segment : String} (h : (fixed segment).IsAccepted)
    (hpypi : P "pypi") (hjson : P "json") (hv1 : P "v1") (hreports : P "reports") : P segment := by
  simp only [IsAccepted, List.mem_cons, List.not_mem_nil, or_false] at h
  rcases h with rfl | rfl | rfl | rfl
  · exact hpypi
  · exact hjson
  · exact hv1
  · exact hreports

theorem isPlain_segment (h : p.IsAccepted) : IsPlain p.segment := by
  cases p with
  | fixed segment =>
    refine fixed_cases h ?_ ?_ ?_ ?_
    all_goals decide +kernel
  | text value => exact Component.isPlain_encode value
  | inScope scope name =>
    have hscope := Component.isPlain_encode scope
    have hname := Component.isPlain_encode name
    have hmark : IsPlain "%2F" := by decide +kernel
    have hat : IsPlain "@" := by decide +kernel
    simp only [IsPlain, segment, String.toList_append, List.mem_append, not_or, or_imp, forall_and]
    exact ⟨⟨⟨⟨hat.1, hscope.1⟩, hmark.1⟩, hname.1⟩, ⟨⟨hat.2, hscope.2⟩, hmark.2⟩, hname.2⟩

theorem isUndotted_inScope (scope name : String) : IsUndotted (inScope scope name).segment := by
  refine isUndotted_of_head ?_
  simp only [segment, String.toList_append, List.append_assoc]
  rfl

theorem isUndotted_fixed {segment : String} (h : (fixed segment).IsAccepted) :
    IsUndotted segment := by
  refine fixed_cases h ?_ ?_ ?_ ?_
  all_goals exact ⟨by decide, by decide⟩

theorem isDoubleDot_segment (h : p.IsAccepted) : isDoubleDot p.segment = false := by
  cases p with
  | fixed segment => exact (isUndotted_fixed h).2
  | text value => exact Component.isDoubleDot_encode h
  | inScope scope name => exact (isUndotted_inScope scope name).2

/-- Only a lone dot is a dot as a segment. -/
theorem isDot_segment (h : p.IsAccepted) : isDot p.segment = true ↔ p = .text "." := by
  cases p with
  | fixed name => exact iff_of_false (by rw [segment, (isUndotted_fixed h).1]; decide) nofun
  | text value => rw [segment, Component.isDot_encode, text.injEq]
  | inScope scope name =>
    exact iff_of_false (by rw [(isUndotted_inScope scope name).1]; decide) nofun

/-- The segment of an accepted part is decoded to its value. -/
theorem decode?_segment (h : p.IsAccepted) : Component.decode? p.segment = some p.value := by
  cases p with
  | fixed segment =>
    refine fixed_cases (P := fun s => Component.decode? s = some s) h ?_ ?_ ?_ ?_
    all_goals decide +kernel
  | text value => exact Component.decode?_encode value
  | inScope scope name => exact Component.decode?_encode_scoped scope name

/-- A part can be read back from its segment. -/
theorem isWritten_segment (p : Part) : p.IsWritten p.segment := by
  cases p with
  | fixed segment => rfl
  | text value => exact Component.decode?_encode value
  | inScope scope name =>
    exact ⟨Component.decode?_encode_scoped scope name, _, _, rfl, Component.decode?_encode scope,
      Component.decode?_encode name⟩

end Part

/-! ## Confined URLs -/

section Endpoint

variable {base : String} {b : Address} {parts : List Part}

theorem forall_segments {P : String → Prop} (haccepted : ∀ p ∈ parts, p.IsAccepted)
    (h : ∀ {p : Part}, p.IsAccepted → P p.segment) : ∀ s ∈ parts.map Part.segment, P s :=
  List.forall_mem_map.2 fun p hp => h (haccepted p hp)

/-- Accepted parts stand under the base, as far as dots leave them. -/
theorem address_of_accepted (hbase : IsBase base b) (hne : parts ≠ [])
    (haccepted : ∀ p ∈ parts, p.IsAccepted) :
    (Url.mk base (parts.map Part.segment)).address =
      .ok { b with path := b.path.dropLast ++ removeDots [] (parts.map Part.segment) } :=
  Url.address_under hbase (by simpa using hne) (forall_segments haccepted Part.isPlain_segment)
    (forall_segments haccepted Part.isDoubleDot_segment)

/-- Without lone dots, segments are left as they are. -/
theorem removeDots_segments (haccepted : ∀ p ∈ parts, p.IsAccepted) (hdot : .text "." ∉ parts) :
    removeDots [] (parts.map Part.segment) = parts.map Part.segment := by
  refine removeDots_of_undotted (List.forall_mem_map.2 fun p hp => ⟨?_, ?_⟩)
  · rw [← Bool.not_eq_true, Part.isDot_segment (haccepted p hp)]
    rintro rfl
    exact hdot hp
  · exact Part.isDoubleDot_segment (haccepted p hp)

/-- Where a lone dot is removed, the parts are not what is left. -/
theorem not_mem_dot_of_written (haccepted : ∀ p ∈ parts, p.IsAccepted)
    (h : List.Forall₂ Part.IsWritten parts (removeDots [] (parts.map Part.segment))) :
    .text "." ∉ parts := by
  induction parts with
  | nil => exact List.not_mem_nil
  | cons p parts ih =>
    obtain ⟨hp, hparts⟩ := List.forall_mem_cons.1 haccepted
    have hdoubles := forall_segments (P := fun s => isDoubleDot s = false) haccepted
      Part.isDoubleDot_segment
    have hdouble := (List.forall_mem_cons.1 hdoubles).2
    rw [List.map_cons, removeDots_cons hdoubles] at h
    cases hdot : isDot p.segment with
    | true =>
      rw [hdot, if_pos rfl] at h
      obtain rfl := (Part.isDot_segment hp).1 hdot
      -- a dot at the end leaves an empty segment, which is not read as one; elsewhere it leaves
      -- none, and too few segments for the parts
      cases parts with
      | nil =>
        cases h with
        | cons hwritten _ =>
          have hread : Component.decode? "" = some "." := hwritten
          exact absurd hread (by decide +kernel)
      | cons p' parts =>
        have hlength := h.length_eq
        have hle := length_removeDots_le hdouble
        simp only [List.map_cons, List.isEmpty_cons, Bool.false_eq_true, if_false,
          List.length_cons, List.length_map] at hlength hle
        omega
    | false =>
      rw [hdot] at h
      cases h with
      | cons _ hrest =>
        have hne : Part.text "." ≠ p := by
          rintro rfl
          cases hdot
        exact List.not_mem_cons_of_ne_of_not_mem hne (ih hparts hrest)

/-- A URL with accepted texts is confined to its endpoint, unless a text is a lone dot. -/
theorem confined_iff (hbase : IsBase base b) (hne : parts ≠ [])
    (haccepted : ∀ p ∈ parts, p.IsAccepted) :
    Confined b parts ⟨base, parts.map Part.segment⟩ ↔ .text "." ∉ parts := by
  have haddress := address_of_accepted hbase hne haccepted
  constructor
  · rintro ⟨segments, hconfined, hwritten, -⟩
    rw [haddress] at hconfined
    have hpath := congrArg Address.path (Except.ok.inj hconfined)
    rw [← List.append_cancel_left hpath] at hwritten
    exact not_mem_dot_of_written haccepted hwritten
  · intro hdot
    rw [removeDots_segments haccepted hdot] at haddress
    refine ⟨_, haddress, ?_, ?_⟩
    · exact List.forall₂_map_right_iff.2 (List.forall₂_same.2 fun p _ => p.isWritten_segment)
    · exact forall_segments haccepted fun h => (Part.isPlain_segment h).1

/-- URLs under one base have different texts, unless all of their parts stand for the same. -/
theorem value_eq_of_text {parts' : List Part} (hbase : IsBase base b)
    (hne : parts ≠ []) (hne' : parts' ≠ []) (haccepted : ∀ p ∈ parts, p.IsAccepted)
    (haccepted' : ∀ p ∈ parts', p.IsAccepted) (hdot : .text "." ∉ parts)
    (hdot' : .text "." ∉ parts') (h : (Url.mk base (parts.map Part.segment)).text =
      (Url.mk base (parts'.map Part.segment)).text) :
    parts.map Part.value = parts'.map Part.value := by
  have hdecoded : ∀ {ps : List Part}, (∀ p ∈ ps, p.IsAccepted) →
      (ps.map Part.segment).map Component.decode? = (ps.map Part.value).map some := by
    intro ps hps
    rw [List.map_map, List.map_map]
    exact List.map_congr_left fun p hp => Part.decode?_segment (hps p hp)
  rw [Url.text, Url.text, address_of_accepted hbase hne haccepted,
    address_of_accepted hbase hne' haccepted', removeDots_segments haccepted hdot,
    removeDots_segments haccepted' hdot'] at h
  have hsegments : parts.map Part.segment = parts'.map Part.segment :=
    text_inj (forall_segments haccepted Part.isPlain_segment)
      (forall_segments haccepted' Part.isPlain_segment) h
  have hvalues := congrArg (List.map Component.decode?) hsegments
  rw [hdecoded haccepted, hdecoded haccepted'] at hvalues
  exact List.map_injective_iff.2 (fun _ _ => Option.some.inj) hvalues

end Endpoint

end PackageGate.Http
