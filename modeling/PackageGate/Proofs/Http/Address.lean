import PackageGate.Http.Exchange
import PackageGate.Proofs.Http.Component
import PackageGate.Proofs.Reading
import PackageGate.Proofs.Trimming

/-!
# Addresses under a base

A URL is a base with segments behind it, and its address is read from its text. Reading keeps what
the base says: scheme, host, endpoint and folder. What it makes of the segments is what it does to
the dots among them.

- `Address.IsBase`: a base URL, with the address of its root folder.
- `Url.address_under`: the address of a URL under a base.
- `Address.removeDots_of_undotted`: segments without dots are left as they are.
-/

namespace PackageGate.Http

namespace Address

/-! ## Plain characters -/

/-- A character of encoded components, and the slash between them. -/
def isPlain (c : Char) : Bool := Component.isUnreserved c || c = '%' || c = '@' || c = '/'

/-- Plain characters are visible, and only the slash means anything in a URL. -/
theorem ne_of_isPlain {c d : Char} (h : isPlain c = true) (hd : isPlain d = false) : c ≠ d := by
  rintro rfl
  rw [h] at hd
  cases hd

theorem toNat_of_isPlain {c : Char} (h : isPlain c = true) : 0x20 < c.toNat ∧ c.toNat < 0x7F := by
  simp only [isPlain, Component.isUnreserved, Bool.or_eq_true, decide_eq_true_eq] at h
  rcases h with ((((((h | rfl) | rfl) | rfl) | rfl) | rfl) | rfl) | rfl
  · have := Text.toNat_of_isAlphanum h
    omega
  all_goals decide

theorem isInPath_of_isPlain {c : Char} (h : isPlain c = true) : isInPath c = true := by
  have hquery := ne_of_isPlain (d := '?') h (by decide)
  have hfragment := ne_of_isPlain (d := '#') h (by decide)
  simp only [isInPath, Bool.and_eq_true, decide_eq_true_eq]
  exact ⟨hquery, hfragment⟩

theorem isEncodedInPath_of_isPlain {c : Char} (h : isPlain c = true) :
    isEncodedInPath c = false := by
  have hrange := toNat_of_isPlain h
  have hmeaning : ['"', '<', '>', '#', '?', '`', '\x7b', '\x7d'].all (!isPlain ·) = true := by
    decide +kernel
  have hne : ∀ d ∈ ['"', '<', '>', '#', '?', '`', '\x7b', '\x7d'], c ≠ d :=
    fun d hd => ne_of_isPlain h (Bool.not_eq_true' _ ▸ List.all_eq_true.1 hmeaning d hd)
  simp only [List.mem_cons, List.not_mem_nil, or_false, forall_eq_or_imp, forall_eq] at hne
  simp [isEncodedInPath, isAlwaysEncoded, hne]
  omega

/-- Plain characters stand for themselves in a path. -/
theorem encode_of_isPlain {cs : List Char} (h : ∀ c ∈ cs, isPlain c = true) :
    encode isEncodedInPath cs = String.ofList cs := by
  unfold encode
  congr 1
  induction cs with
  | nil => rfl
  | cons c cs ih =>
    obtain ⟨hc, hcs⟩ := List.forall_mem_cons.1 h
    rw [List.flatMap_cons, ih hcs, isEncodedInPath_of_isPlain hc]
    rfl

/-! ## Significant characters -/

/-- A base as it counts in front of something else. -/
def front (base : String) : List Char :=
  (base.toList.dropWhile fun c => decide (c.toNat ≤ 0x20)).filter fun c =>
    c ≠ '\t' && c ≠ '\n' && c ≠ '\r'

/-- What is put behind a base is significant, all of it. -/
theorem significant_append (base : String) {cs : List Char} (hne : cs ≠ [])
    (hcs : ∀ c ∈ cs, isPlain c = true) :
    significant (base ++ String.ofList cs) = front base ++ cs := by
  have hvisible : ∀ c ∈ cs, decide (c.toNat ≤ 0x20) = false := fun c hc =>
    decide_eq_false (Nat.not_le_of_gt (toNat_of_isPlain (hcs c hc)).1)
  have hleft : (base.toList ++ cs).dropWhile (fun c => decide (c.toNat ≤ 0x20)) =
      (base.toList.dropWhile fun c => decide (c.toNat ≤ 0x20)) ++ cs := by
    obtain ⟨c, r, rfl⟩ := List.exists_cons_of_ne_nil hne
    exact Text.dropWhile_append_cons (p := fun c : Char => decide (c.toNat ≤ 0x20))
      (hvisible c List.mem_cons_self) _ r
  have hright : ∀ front : List Char,
      ((front ++ cs).reverse.dropWhile fun c => decide (c.toNat ≤ 0x20)).reverse = front ++ cs := by
    intro front
    have hlast := hvisible _ (List.getLast_mem hne)
    rw [← List.dropLast_concat_getLast hne, ← List.append_assoc, List.reverse_concat,
      List.dropWhile_cons_of_neg (by rw [hlast]; exact Bool.false_ne_true), List.reverse_cons,
      List.reverse_reverse]
  have hkept : cs.filter (fun c => c ≠ '\t' && c ≠ '\n' && c ≠ '\r') = cs := by
    refine List.filter_eq_self.2 fun c hc => ?_
    have htab := ne_of_isPlain (d := '\t') (hcs c hc) (by decide)
    have hline := ne_of_isPlain (d := '\n') (hcs c hc) (by decide)
    have hreturn := ne_of_isPlain (d := '\r') (hcs c hc) (by decide)
    simp only [Bool.and_eq_true, decide_eq_true_eq]
    exact ⟨⟨htab, hline⟩, hreturn⟩
  unfold significant
  simp only [String.toList_append, String.toList_ofList]
  rw [hleft, hright, List.filter_append, hkept]
  rfl

/-! ## In front of the path -/

/-- Whether a word in front of a colon stands for the web, and then whether for the secure one. -/
def isSecure? (word : List Char) : Option Bool :=
  if word.map Char.toLower = "http".toList then some false
  else if word.map Char.toLower = "https".toList then some true
  else none

theorem scheme?_of_colon {word : List Char} (h : ':' ∉ word) (rest : List Char) :
    scheme? (word ++ ':' :: rest) = (isSecure? word).map (·, rest) := by
  have hword : ∀ c ∈ word, decide (c ≠ ':') = true := fun c hc =>
    decide_eq_true (ne_of_mem_of_not_mem hc h)
  unfold scheme?
  rw [List.takeWhile_append_of_pos hword, List.dropWhile_append_of_pos hword]
  simp only [List.takeWhile_cons_of_neg, List.dropWhile_cons_of_neg, ne_eq, not_true_eq_false,
    decide_false, Bool.false_eq_true, not_false_eq_true, List.append_nil, reduceCtorEq, if_false,
    List.tail_cons, isSecure?]
  split
  · rfl
  · split <;> rfl

theorem scheme?_eq_none {cs : List Char} (h : ':' ∉ cs) : scheme? cs = none := by
  have hnone : cs.dropWhile (· ≠ ':') = [] := by
    rw [← List.append_nil cs, List.dropWhile_append_of_pos]
    · rfl
    · exact fun c hc => decide_eq_true (ne_of_mem_of_not_mem hc h)
  unfold scheme?
  rw [if_pos hnone]

/-- Host and endpoint of what stands between the slashes. -/
def readPlace (isSecure : Bool) (place : List Char) : Except Problem (Host × Option Nat) :=
  let user := behindUser place
  let hostText := hostPart false user
  match if hostText = [] then .error .empty else Host.read hostText with
  | .error why => .error (.host why)
  | .ok host => (readEndpoint isSecure (user.drop hostText.length)).map (host, ·)

/-- Scheme, host and endpoint, and what stands behind them. -/
def locate (cs : List Char) : Except Problem ((Bool × Host × Option Nat) × List Char) :=
  match scheme? cs with
  | none => .error .relative
  | some (isSecure, rest) =>
    let rest := rest.dropWhile isSlash
    let place := rest.takeWhile fun c => !isSlash c && isInPath c
    (readPlace isSecure place).map fun (host, endpoint) =>
      ((isSecure, host, endpoint), rest.drop place.length)

/-- The address of a place with `rest` behind it. -/
def ofRest : (Bool × Host × Option Nat) → List Char → Address
  | (isSecure, host, endpoint), rest =>
    let path := rest.takeWhile isInPath
    let rest := rest.drop path.length
    let query := match rest with
      | '?' :: r => some (r.takeWhile (· ≠ '#'))
      | _ => none
    let fragment := match rest.dropWhile (· ≠ '#') with
      | _ :: r => some r
      | [] => none
    { isSecure, host, endpoint
      path := readPath path
      query := query.map (encode isEncodedInQuery)
      fragment := fragment.map (encode isEncodedInFragment) }

theorem read_eq (text : String) :
    read text = (locate (significant text)).map fun (place, rest) => ofRest place rest := by
  unfold read locate
  cases hscheme : scheme? (significant text) with
  | none => rfl
  | some found =>
    obtain ⟨isSecure, rest⟩ := found
    simp only [readPlace]
    generalize (rest.dropWhile isSlash).takeWhile (fun c => !isSlash c && isInPath c) = place
    cases (if hostPart false (behindUser place) = [] then .error .empty
        else Host.read (hostPart false (behindUser place))) with
    | error why => rfl
    | ok host => cases readEndpoint isSecure _ <;> rfl

/-- What stands behind the last slash of a base has no part in scheme, host and endpoint. -/
theorem locate_append {front rest : List Char} {place : Bool × Host × Option Nat}
    (h : locate (front ++ ['/']) = .ok (place, rest)) :
    ∃ folder, rest = folder ++ ['/'] ∧
      (∀ c ∈ folder.head?, (!isSlash c && isInPath c) = false) ∧
      ∀ cs, locate (front ++ '/' :: cs) = .ok (place, folder ++ '/' :: cs) := by
  -- without a colon the base would be relative, and have no address
  have hcolon : ':' ∈ front := by
    by_cases hcolon : ':' ∈ front
    · exact hcolon
    · rw [locate, scheme?_eq_none (by simpa using hcolon)] at h
      cases h
  obtain ⟨word, behind, rfl, hword⟩ := List.eq_append_cons_of_mem hcolon
  simp only [List.append_assoc, List.cons_append] at h ⊢
  unfold locate at h ⊢
  simp only [scheme?_of_colon hword] at h ⊢
  cases hsecure : isSecure? word with
  | none =>
    rw [hsecure] at h
    cases h
  | some isSecure =>
    simp only [hsecure, Option.map_some] at h ⊢
    -- slashes alone name no host, so the one behind the base is none of those in front of the host
    have hbehind : (behind.dropWhile isSlash).isEmpty = false := by
      cases hempty : (behind.dropWhile isSlash).isEmpty with
      | false => rfl
      | true =>
        rw [List.dropWhile_append, if_pos hempty] at h
        cases h
    have hrest : ∀ cs, (behind ++ '/' :: cs).dropWhile isSlash =
        behind.dropWhile isSlash ++ '/' :: cs := fun cs => by
      rw [List.dropWhile_append, hbehind]
      rfl
    have hplace : ∀ cs, (behind.dropWhile isSlash ++ '/' :: cs).takeWhile
        (fun c => !isSlash c && isInPath c) =
        (behind.dropWhile isSlash).takeWhile fun c => !isSlash c && isInPath c := fun cs =>
      Text.takeWhile_append_cons (p := fun c => !isSlash c && isInPath c) rfl _ cs
    have hlength := (List.takeWhile_prefix (l := behind.dropWhile isSlash)
      fun c => !isSlash c && isInPath c).length_le
    simp only [hrest, hplace, List.drop_append_of_le_length hlength] at h ⊢
    cases hread : readPlace isSecure ((behind.dropWhile isSlash).takeWhile
        fun c => !isSlash c && isInPath c) with
    | error why =>
      rw [hread] at h
      cases h
    | ok found =>
      rw [hread] at h
      cases h
      refine ⟨_, rfl, fun c hc => ?_, fun cs => rfl⟩
      rw [Text.drop_length_takeWhile] at hc
      exact Text.eq_false_of_head?_dropWhile (p := fun c => !isSlash c && isInPath c) hc

/-! ## Behind the place -/

variable {place : Bool × Host × Option Nat} {rest : List Char}

theorem ofRest_of_inPath (h : ∀ c ∈ rest, isInPath c = true) :
    ofRest place rest = ⟨place.1, place.2.1, place.2.2, readPath rest, none, none⟩ := by
  have hpath : rest.takeWhile isInPath = rest := by
    have happend : (rest ++ []).takeWhile isInPath = rest ++ [].takeWhile isInPath :=
      List.takeWhile_append_of_pos h
    rwa [List.append_nil, List.takeWhile_nil, List.append_nil] at happend
  simp only [ofRest, hpath, List.drop_length, List.dropWhile_nil, Option.map_none]

/-- An address without query and fragment is all path. -/
theorem inPath_of_ofRest (hquery : (ofRest place rest).query = none)
    (hfragment : (ofRest place rest).fragment = none) : ∀ c ∈ rest, isInPath c = true := by
  have hnil : rest.dropWhile isInPath = [] := by
    cases hbehind : rest.dropWhile isInPath with
    | nil => rfl
    | cons c r =>
      have hc : isInPath c = false :=
        Text.eq_false_of_head?_dropWhile (congrArg List.head? hbehind)
      simp only [ofRest, Text.drop_length_takeWhile, hbehind, Option.map_eq_none_iff]
        at hquery hfragment
      by_cases hmark : c = '?'
      · subst hmark
        cases hquery
      · have hhash : c = '#' := by simpa [isInPath, hmark] using hc
        subst hhash
        rw [List.dropWhile_cons_of_neg (by decide)] at hfragment
        cases hfragment
  have hall := List.takeWhile_append_dropWhile (p := isInPath) (l := rest)
  rw [hnil, List.append_nil] at hall
  intro c hc
  rw [← hall] at hc
  exact List.all_eq_true.1 List.all_takeWhile c hc

/-! ## Paths -/

theorem splitWhere_append_cons {isMark : Char → Bool} {c : Char} (hc : isMark c = true)
    (as bs : List Char) : Text.splitWhere isMark (as ++ c :: bs) =
      Text.splitWhere isMark as ++ Text.splitWhere isMark bs := by
  induction as with
  | nil => exact Text.splitWhere_cons_of_mark hc bs
  | cons a as ih =>
    obtain ⟨part, parts, hparts⟩ :=
      List.exists_cons_of_ne_nil (Text.splitWhere_ne_nil isMark as)
    simp only [List.cons_append, Text.splitWhere, ih, hparts]
    cases isMark a <;> rfl

/-- The segments of a folder stand in front of what is in it. -/
theorem readPath_append {folder : List Char} (h : ∀ c ∈ folder.head?, isSlash c = true) :
    ∃ front, ∀ cs, readPath (folder ++ '/' :: cs) =
      removeDots [] (front ++ (Text.splitWhere isSlash cs).map (encode isEncodedInPath)) := by
  cases folder with
  | nil => exact ⟨[], fun cs => rfl⟩
  | cons c folder =>
    have hc : isSlash c = true := h c rfl
    refine ⟨(Text.splitWhere isSlash folder).map (encode isEncodedInPath), fun cs => ?_⟩
    unfold readPath
    simp only [List.cons_append, List.head?_cons, Option.any_some, hc, if_true, List.tail_cons]
    rw [splitWhere_append_cons rfl, List.map_append]

/-! ## Dots -/

/-- What is left of segments that have others behind them; back to front. -/
def climb (kept : List String) : List String → List String
  | [] => kept
  | s :: r =>
    if isDoubleDot s then climb (above kept) r
    else if isDot s then climb kept r
    else climb (s :: kept) r

/-- The segments in front are climbed first. -/
theorem removeDots_append {segments : List String} (hne : segments ≠ []) (front : List String)
    (kept : List String) :
    removeDots kept (front ++ segments) = removeDots (climb kept front) segments := by
  induction front generalizing kept with
  | nil => rfl
  | cons s front ih =>
    have hlast : (front ++ segments).isEmpty = false := by
      cases hempty : (front ++ segments).isEmpty with
      | false => rfl
      | true => exact absurd (List.append_eq_nil_iff.1 (List.isEmpty_iff.1 hempty)).2 hne
    simp only [List.cons_append, removeDots, hlast, Bool.false_eq_true, if_false, climb]
    split
    · exact ih _
    split
    · exact ih _
    · exact ih _

/-- Without double dots, the folder in front is kept. -/
theorem removeDots_eq_append {segments : List String}
    (h : ∀ s ∈ segments, isDoubleDot s = false) (kept : List String) :
    removeDots kept segments = kept.reverse ++ removeDots [] segments := by
  induction segments generalizing kept with
  | nil => exact (List.append_nil _).symm
  | cons s r ih =>
    obtain ⟨hs, hr⟩ := List.forall_mem_cons.1 h
    simp only [removeDots, hs, Bool.false_eq_true, if_false]
    -- both sides go on with what is kept, so both take the induction hypothesis
    split
    · rw [ih hr, ih hr (if r.isEmpty = true then [""] else [])]
      cases r.isEmpty
      · rfl
      · rw [if_pos rfl, if_pos rfl, List.reverse_cons, List.append_assoc]
        rfl
    · rw [ih hr, ih hr [s], List.reverse_cons, List.append_assoc]
      rfl

/-- A segment that is left as it is, with no dots for a folder. -/
def IsUndotted (s : String) : Prop := isDot s = false ∧ isDoubleDot s = false

theorem removeDots_of_undotted {segments : List String} (h : ∀ s ∈ segments, IsUndotted s) :
    removeDots [] segments = segments := by
  induction segments with
  | nil => rfl
  | cons s r ih =>
    obtain ⟨⟨hdot, hdouble⟩, hr⟩ := List.forall_mem_cons.1 h
    have hrest := removeDots_eq_append (fun s hs => (hr s hs).2) [s]
    simp only [removeDots, hdot, hdouble, Bool.false_eq_true, if_false]
    rw [hrest, ih hr]
    rfl

/-- A lone dot goes, and leaves an empty segment where it is the last. -/
theorem removeDots_cons {s : String} {r : List String}
    (h : ∀ t ∈ s :: r, isDoubleDot t = false) : removeDots [] (s :: r) =
      if isDot s then (if r.isEmpty then [""] else removeDots [] r) else s :: removeDots [] r := by
  obtain ⟨hs, hr⟩ := List.forall_mem_cons.1 h
  simp only [removeDots, hs, Bool.false_eq_true, if_false]
  split
  · cases r <;> rfl
  · exact removeDots_eq_append hr [s]

/-- Without double dots there are no more segments than before. -/
theorem length_removeDots_le {segments : List String}
    (h : ∀ s ∈ segments, isDoubleDot s = false) :
    (removeDots [] segments).length ≤ segments.length := by
  induction segments with
  | nil => exact Nat.le_refl 0
  | cons s r ih =>
    have hrest := ih fun t ht => h t (List.mem_cons_of_mem s ht)
    rw [removeDots_cons h]
    split
    · split
      · exact Nat.le_add_left 1 r.length
      · exact Nat.le_succ_of_le hrest
    · exact Nat.succ_le_succ hrest

/-! ## Under a base -/

/-- The characters of segments, each behind a slash. -/
def slashed (segments : List String) : List Char := segments.flatMap fun s => '/' :: s.toList

/-- The characters of a URL are plain, but for its base; a slash is in front of each segment. -/
def IsPlain (s : String) : Prop := '/' ∉ s.toList ∧ ∀ c ∈ s.toList, isPlain c = true

instance (s : String) : Decidable (IsPlain s) := @instDecidableAnd _ _ _ (List.decidableBAll _ _)

theorem isPlain_of_mem_slashed {segments : List String} (h : ∀ s ∈ segments, IsPlain s) :
    ∀ c ∈ slashed segments, isPlain c = true := by
  intro c hc
  obtain ⟨s, hs, hcs⟩ := List.mem_flatMap.1 hc
  rcases List.mem_cons.1 hcs with rfl | hcs
  · rfl
  · exact (h s hs).2 c hcs

theorem IsPlain.isSlash_eq_false {s : String} (h : IsPlain s) :
    ∀ c ∈ s.toList, isSlash c = false := by
  intro c hc
  have hslash : c ≠ '/' := ne_of_mem_of_not_mem hc h.1
  have hback : c ≠ '\\' := ne_of_isPlain (h.2 c hc) (by decide)
  simp only [isSlash, hslash, hback, decide_false, Bool.or_self]

/-- A plain segment is encoded already. -/
theorem IsPlain.encode_eq {s : String} (h : IsPlain s) : encode isEncodedInPath s.toList = s := by
  rw [encode_of_isPlain h.2, String.ofList_toList]

/-- Plain segments are found again between their slashes. -/
theorem splitWhere_slashed {s : String} {segments : List String}
    (h : ∀ t ∈ s :: segments, IsPlain t) :
    (Text.splitWhere isSlash (s.toList ++ slashed segments)).map (encode isEncodedInPath) =
      s :: segments := by
  induction segments generalizing s with
  | nil =>
    have hs := h s List.mem_cons_self
    simp only [slashed, List.flatMap_nil, List.append_nil]
    rw [Text.splitWhere_of_unmarked hs.isSlash_eq_false, List.map_singleton, hs.encode_eq]
  | cons t segments ih =>
    obtain ⟨hs, hrest⟩ := List.forall_mem_cons.1 h
    have hsplit := ih hrest
    rw [slashed, List.flatMap_cons, List.cons_append, ← slashed,
      Text.splitWhere_append hs.isSlash_eq_false rfl, List.map_cons, hs.encode_eq, hsplit]

/-- Segments are told apart by the slashes in front of them. -/
theorem slashed_inj {xs ys : List String} (hxs : ∀ s ∈ xs, IsPlain s) (hys : ∀ s ∈ ys, IsPlain s)
    (h : slashed xs = slashed ys) : xs = ys := by
  cases xs with
  | nil =>
    cases ys with
    | nil => rfl
    | cons y ys => cases h
  | cons x xs =>
    cases ys with
    | nil => cases h
    | cons y ys =>
      have htail : x.toList ++ slashed xs = y.toList ++ slashed ys := (List.cons.inj h).2
      rw [← splitWhere_slashed hxs, htail, splitWhere_slashed hys]

/-- The text of an address tells the segments behind a folder. -/
theorem text_inj {b : Address} {folder xs ys : List String} (hxs : ∀ s ∈ xs, IsPlain s)
    (hys : ∀ s ∈ ys, IsPlain s) (h : ({ b with path := folder ++ xs } : Address).text =
      ({ b with path := folder ++ ys } : Address).text) : xs = ys := by
  have hpath : ∀ zs : List String, (String.join ((folder ++ zs).map ("/" ++ ·))).toList =
      slashed folder ++ slashed zs := by
    intro zs
    rw [String.toList_join, List.flatMap_map, List.flatMap_append, slashed, slashed]
    simp only [String.toList_append]
    rfl
  have hlist := congrArg String.toList h
  simp only [text, String.toList_append, hpath] at hlist
  have hpaths := List.append_cancel_right (List.append_cancel_right hlist)
  exact slashed_inj hxs hys (List.append_cancel_left (List.append_cancel_left hpaths))

/-- `b` is the address of a folder that URLs are put together behind: it is a path and no more. -/
def IsBase (base : String) (b : Address) : Prop :=
  Address.read (base ++ "/") = .ok b ∧ b.query = none ∧ b.fragment = none

/-- A base says where its folder is, and leaves the path open. -/
theorem IsBase.exists_place {base : String} {b : Address} (h : IsBase base b) :
    ∃ place folder kept, b = ⟨place.1, place.2.1, place.2.2, kept.reverse ++ [""], none, none⟩ ∧
      (∀ c ∈ folder, isInPath c = true) ∧
      (∀ cs, locate (front base ++ '/' :: cs) = .ok (place, folder ++ '/' :: cs)) ∧
      ∀ s segments, (∀ t ∈ s :: segments, IsPlain t) →
        readPath (folder ++ '/' :: (s.toList ++ slashed segments)) =
          removeDots kept (s :: segments) := by
  obtain ⟨hread, hquery, hfragment⟩ := h
  have hslash : significant (base ++ "/") = front base ++ ['/'] :=
    significant_append base (List.cons_ne_nil _ _) (List.forall_mem_singleton.2 rfl)
  rw [read_eq, hslash] at hread
  cases hlocate : locate (front base ++ ['/']) with
  | error why =>
    rw [hlocate] at hread
    cases hread
  | ok found =>
    obtain ⟨place, rest⟩ := found
    rw [hlocate] at hread
    obtain rfl : ofRest place rest = b := Except.ok.inj hread
    have hinPath := inPath_of_ofRest hquery hfragment
    obtain ⟨folder, rfl, hhead, hlocated⟩ := locate_append hlocate
    have hfolder : ∀ c ∈ folder, isInPath c = true :=
      fun c hc => hinPath c (List.mem_append_left _ hc)
    have hhead' : ∀ c ∈ folder.head?, isSlash c = true := by
      intro c hc
      have hstop := hhead c hc
      rw [hfolder c (List.mem_of_mem_head? hc), Bool.and_true] at hstop
      simpa using hstop
    obtain ⟨segments₀, hpath⟩ := readPath_append hhead'
    have hbase : readPath (folder ++ ['/']) = (climb [] segments₀).reverse ++ [""] := by
      have hempty : IsUndotted "" := ⟨by decide, by decide⟩
      rw [hpath]
      show removeDots [] (segments₀ ++ [""]) = _
      rw [removeDots_append (List.cons_ne_nil _ _),
        removeDots_eq_append (List.forall_mem_singleton.2 hempty.2),
        removeDots_of_undotted (List.forall_mem_singleton.2 hempty)]
    refine ⟨place, folder, climb [] segments₀, ?_, hfolder, hlocated, ?_⟩
    · rw [ofRest_of_inPath hinPath, hbase]
    · intro s segments hplain
      rw [hpath, splitWhere_slashed hplain, removeDots_append (List.cons_ne_nil _ _)]

end Address

open Address

/-- A URL is written as its base and the segments behind it. -/
theorem Url.written_eq (base : String) (segments : List String) :
    (Url.mk base segments).written = base ++ String.ofList (slashed segments) := by
  have hsegments : String.join (segments.map ("/" ++ ·)) = String.ofList (slashed segments) := by
    rw [← String.toList_inj, String.toList_join, List.flatMap_map, String.toList_ofList, slashed]
    simp only [String.toList_append]
    rfl
  rw [written, hsegments]

/-- The address of a URL under a base: the segments stand behind the folder of the base, as far as
dots leave them. -/
theorem Url.address_under {base : String} {b : Address} (h : IsBase base b)
    {segments : List String} (hne : segments ≠ []) (hplain : ∀ s ∈ segments, IsPlain s)
    (hdots : ∀ s ∈ segments, isDoubleDot s = false) :
    (Url.mk base segments).address =
      .ok { b with path := b.path.dropLast ++ removeDots [] segments } := by
  obtain ⟨place, folder, kept, rfl, hfolder, hlocate, hpath⟩ := h.exists_place
  obtain ⟨s, segments, rfl⟩ := List.exists_cons_of_ne_nil hne
  have hcharacters := isPlain_of_mem_slashed hplain
  have hsignificant : significant (base ++ String.ofList (slashed (s :: segments))) =
      front base ++ '/' :: (s.toList ++ slashed segments) :=
    significant_append base (List.cons_ne_nil _ _) hcharacters
  have hinPath : ∀ c ∈ folder ++ '/' :: (s.toList ++ slashed segments), isInPath c = true := by
    intro c hc
    rcases List.mem_append.1 hc with hc | hc
    · exact hfolder c hc
    · exact isInPath_of_isPlain (hcharacters c hc)
  rw [address, written_eq, read_eq, hsignificant, hlocate]
  show Except.ok (ofRest place _) = _
  rw [ofRest_of_inPath hinPath, hpath s segments hplain, removeDots_eq_append hdots,
    List.dropLast_concat]

end PackageGate.Http
