import Mathlib.Data.String.Basic
import Mathlib.Tactic.SplitIfs

/-!
# The bytes of texts

Texts are compared character by character. In UTF-8 this is the order of their bytes: a greater
character has a greater byte at the first place where the two differ.

- `Text.bytes`: the bytes of a text; `Text.bytes_eq`: those of its characters in turn.
- `Text.Precedes`: a text comes before another in the order of their bytes.
- `Text.precedes_iff_lt`: texts are in this order as they are compared.
-/

namespace PackageGate.Text

/-- The bytes of a text in UTF-8. -/
def bytes (s : String) : List UInt8 := s.toUTF8.toList

/-- The loop puts the bytes from the `i`th on behind those that it has taken. -/
theorem toList_loop_eq (bytes : ByteArray) (i : Nat) (front : List UInt8) :
    ByteArray.toList.loop bytes i front = front.reverse ++ bytes.data.toList.drop i := by
  have hsize : bytes.size = bytes.data.toList.length := rfl
  rw [ByteArray.toList.loop]
  split
  · rename_i hi
    rw [toList_loop_eq bytes (i + 1)]
    have hget : bytes.get! i = bytes.data.toList[i] := by
      show bytes.data[i]! = _
      rw [getElem!_pos bytes.data i hi]
      rfl
    rw [hget, List.reverse_cons, List.append_assoc, List.singleton_append,
      List.getElem_cons_drop]
  · rename_i hi
    rw [List.drop_eq_nil_of_le (by omega), List.append_nil]
termination_by bytes.size - i

theorem toList_eq (bytes : ByteArray) : bytes.toList = bytes.data.toList :=
  toList_loop_eq bytes 0 []

/-- The bytes of a text are those of its characters in turn. -/
theorem toByteArray_eq (s : String) :
    s.toByteArray = (s.toList.flatMap String.utf8EncodeChar).toByteArray := by
  rw [← List.utf8Encode, ← String.toByteArray_ofList, String.ofList_toList]

/-- The bytes of a text are those of its characters, one after another. -/
theorem bytes_eq (s : String) : bytes s = s.toList.flatMap String.utf8EncodeChar := by
  show s.toByteArray.toList = _
  rw [toByteArray_eq, toList_eq, List.data_toByteArray]

/-! ## Order -/

/-- The text `s` comes before `t` in the order of their bytes. -/
def Precedes (s t : String) : Prop := bytes s < bytes t

/-- Texts that begin with the bytes `m` and `n` are compared by these first. -/
theorem ofNat_cons_lt_iff {m n : Nat} {u v : List UInt8} (hm : m < 256) (hn : n < 256) :
    UInt8.ofNat m :: u < UInt8.ofNat n :: v ↔ m < n ∨ m = n ∧ u < v := by
  rw [List.cons_lt_cons_iff, UInt8.ofNat_lt_iff_lt hm hn, ← UInt8.toNat_inj,
    UInt8.toNat_ofNat_of_lt' hm, UInt8.toNat_ofNat_of_lt' hn]

/-- A greater character has greater bytes, whatever follows. -/
theorem encode_append_lt {c d : Char} (h : c < d) (u v : List UInt8) :
    String.utf8EncodeChar c ++ u < String.utf8EncodeChar d ++ v := by
  have hval : c.val.toNat < d.val.toNat := h
  have hbound : d.val.toNat < 0x110000 := by
    have hvalid := d.valid
    simp only [UInt32.isValidChar, Nat.isValidChar] at hvalid
    omega
  -- The bytes are the digits to base 64, with a mark in front that grows with their number.
  have hdigits (k : Nat) : k / 4096 = k / 64 / 64 ∧ k / 262144 = k / 64 / 64 / 64 := by omega
  simp only [String.utf8EncodeChar]
  generalize c.val.toNat = m at *
  generalize d.val.toNat = n at *
  simp only [(hdigits m).1, (hdigits m).2, (hdigits n).1, (hdigits n).2]
  split_ifs <;>
    simp (disch := omega) only [List.cons_append, List.nil_append, ofNat_cons_lt_iff] <;> omega

/-- Encoding keeps the order of texts, as it keeps that of characters. -/
theorem flatMap_encode_lt {cs ds : List Char} (h : cs < ds) :
    cs.flatMap String.utf8EncodeChar < ds.flatMap String.utf8EncodeChar := by
  induction cs generalizing ds with
  | nil =>
    cases ds with
    | nil => exact absurd h (List.lt_irrefl _)
    | cons d ds =>
      have hne : String.utf8EncodeChar d ≠ [] :=
        List.ne_nil_of_length_pos (String.length_utf8EncodeChar d ▸ d.utf8Size_pos)
      obtain ⟨b, r, hb⟩ := List.exists_cons_of_ne_nil hne
      rw [List.flatMap_nil, List.flatMap_cons, hb]
      exact List.nil_lt_cons _ _
  | cons c cs ih =>
    cases ds with
    | nil => exact absurd h (List.not_lt_nil _)
    | cons d ds =>
      rw [List.flatMap_cons, List.flatMap_cons]
      rcases List.cons_lt_cons_iff.mp h with hlt | ⟨rfl, hlt⟩
      · exact encode_append_lt hlt _ _
      · exact List.append_left_lt (ih hlt)

theorem precedes_of_lt {s t : String} (h : s < t) : Precedes s t := by
  rw [Precedes, bytes_eq, bytes_eq]
  exact flatMap_encode_lt h

/-- The order of the bytes is the order in which texts are compared. -/
theorem precedes_iff_lt {s t : String} : Precedes s t ↔ s < t := by
  refine ⟨fun h => ?_, precedes_of_lt⟩
  rcases lt_trichotomy s t with hlt | rfl | hgt
  · exact hlt
  · exact absurd h (List.lt_irrefl _)
  · exact absurd h (List.lt_asymm (precedes_of_lt hgt))

end PackageGate.Text
