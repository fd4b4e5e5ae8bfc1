import PackageGate.Http.Component
import PackageGate.Proofs.Bytes

/-!
# Encoded path components

An encoded component is made of a few harmless characters, and can be read back.

- `Component.decode?_encode`: decoding gives back what was encoded.
- `Component.isUnreserved_or_percent`: the characters of an encoded component.
-/

namespace PackageGate.Http.Component

/-! ## Bytes -/

/-- The bytes of a character. -/
def utf8 (c : Char) : List UInt8 := (String.singleton c).toUTF8.toList

theorem utf8_eq (c : Char) : utf8 c = String.utf8EncodeChar c := by
  show Text.bytes (String.singleton c) = _
  rw [Text.bytes_eq, String.toList_singleton, List.flatMap_singleton]

/-- The bytes of a text are those of its characters. -/
theorem fromUTF8?_flatMap_utf8 (s : String) :
    String.fromUTF8? (ByteArray.mk (s.toList.flatMap utf8).toArray) = some s := by
  have hbytes : ByteArray.mk (s.toList.flatMap utf8).toArray = s.toByteArray := by
    rw [Text.toByteArray_eq, ByteArray.ext_iff, List.data_toByteArray, funext utf8_eq]
  rw [hbytes, String.fromUTF8?, dif_pos s.isValidUTF8]
  rfl

/-! ## Reading back -/

theorem digitValue?_hexDigit : ∀ n < 16, digitValue? (hexDigit n) = some n := by
  decide

/-- An encoded byte is decoded to itself. -/
theorem decodeBytes_encodeByte (b : UInt8) (rest : List Char) :
    decodeBytes (encodeByte b ++ rest) = (decodeBytes rest).map (b :: ·) := by
  have hb : b.toNat < 256 := b.toNat_lt
  have hhigh := digitValue?_hexDigit (b.toNat / 16) (by omega)
  have hlow := digitValue?_hexDigit (b.toNat % 16) (by omega)
  have hsum : UInt8.ofNat (b.toNat / 16 * 16 + b.toNat % 16) = b := by
    rw [Nat.div_add_mod', UInt8.ofNat_toNat]
  simp only [encodeByte, List.cons_append, List.nil_append, decodeBytes, hhigh, hlow]
  cases decodeBytes rest with
  | none => rfl
  | some bytes => simp only [Option.bind_eq_bind, Option.bind_some, Option.map_some, hsum]; rfl

theorem decodeBytes_encodeBytes (bytes : List UInt8) (rest : List Char) :
    decodeBytes (bytes.flatMap encodeByte ++ rest) = (decodeBytes rest).map (bytes ++ ·) := by
  induction bytes with
  | nil =>
    simp only [List.flatMap_nil, List.nil_append]
    exact Option.map_id'.symm
  | cons b bytes ih =>
    rw [List.flatMap_cons, List.append_assoc, decodeBytes_encodeByte, ih, Option.map_map]
    rfl

theorem decodeBytes_cons {c : Char} (hc : c ≠ '%') (rest : List Char) :
    decodeBytes (c :: rest) = (decodeBytes rest).map (utf8 c ++ ·) := by
  rw [decodeBytes.eq_4 c rest (fun _ _ _ heq => absurd heq hc) hc]
  cases decodeBytes rest <;> rfl

theorem ne_percent_of_isUnreserved {c : Char} (h : isUnreserved c = true) : c ≠ '%' := by
  rintro rfl
  exact absurd h (by decide)

/-- A character is decoded to its bytes, encoded or not. -/
theorem decodeBytes_encodeChar (c : Char) (rest : List Char) :
    decodeBytes (encodeChar c ++ rest) = (decodeBytes rest).map (utf8 c ++ ·) := by
  unfold encodeChar
  split
  · rename_i hc
    exact decodeBytes_cons (ne_percent_of_isUnreserved hc) rest
  · exact decodeBytes_encodeBytes (utf8 c) rest

theorem decodeBytes_encode (cs rest : List Char) :
    decodeBytes (cs.flatMap encodeChar ++ rest) =
      (decodeBytes rest).map (cs.flatMap utf8 ++ ·) := by
  induction cs with
  | nil =>
    simp only [List.flatMap_nil, List.nil_append]
    exact Option.map_id'.symm
  | cons c cs ih =>
    rw [List.flatMap_cons, List.append_assoc, decodeBytes_encodeChar, ih, Option.map_map]
    simp only [Function.comp_def, List.flatMap_cons, List.append_assoc]

/-- Bytes that are those of a text are decoded to it. -/
theorem decode?_eq_some {encoded s : String}
    (h : decodeBytes encoded.toList = some (s.toList.flatMap utf8)) : decode? encoded = some s := by
  rw [decode?, h]
  exact fromUTF8?_flatMap_utf8 s

/-- Decoding gives back what was encoded. -/
theorem decode?_encode (s : String) : decode? (encode s) = some s := by
  refine decode?_eq_some ?_
  rw [encode, String.toList_ofList, ← List.append_nil (s.toList.flatMap encodeChar),
    decodeBytes_encode, decodeBytes, Option.map_some, List.append_nil]

/-- Scope and name are decoded with the separator between them. -/
theorem decode?_encode_scoped (scope name : String) :
    decode? ("@" ++ encode scope ++ "%2F" ++ encode name) =
      some ("@" ++ scope ++ "/" ++ name) := by
  refine decode?_eq_some ?_
  -- the sign in front is written as it is and read as it is; what is behind it is encoded
  have hencoded : ("@" ++ encode scope ++ "%2F" ++ encode name).toList =
      '@' :: (scope.toList.flatMap encodeChar ++
        (encodeByte 0x2F ++ (name.toList.flatMap encodeChar ++ []))) := by
    simp only [encode, String.toList_append, String.toList_ofList, List.append_nil,
      List.append_assoc]
    rfl
  rw [hencoded, decodeBytes_cons (by decide), decodeBytes_encode, decodeBytes_encodeByte,
    decodeBytes_encode, decodeBytes]
  have hat : "@".toList.flatMap utf8 = utf8 '@' := List.append_nil _
  have hslash : "/".toList.flatMap utf8 = [0x2F] := by decide +kernel
  simp only [Option.map_some, List.append_nil, String.toList_append, List.flatMap_append,
    List.append_assoc, hat, hslash]
  rfl

/-! ## Characters -/

theorem isUnreserved_hexDigit : ∀ n < 16, isUnreserved (hexDigit n) = true := by
  decide

/-- The characters of an encoded component. -/
theorem isUnreserved_or_percent {s : String} {c : Char} (h : c ∈ (encode s).toList) :
    isUnreserved c = true ∨ c = '%' := by
  rw [encode, String.toList_ofList] at h
  obtain ⟨d, -, hd⟩ := List.mem_flatMap.1 h
  unfold encodeChar at hd
  split at hd
  · rename_i hunreserved
    rw [List.mem_singleton.1 hd]
    exact .inl hunreserved
  · obtain ⟨b, -, hb⟩ := List.mem_flatMap.1 hd
    have hsize : b.toNat < 256 := b.toNat_lt
    simp only [encodeByte, List.mem_cons, List.not_mem_nil, or_false] at hb
    rcases hb with rfl | rfl | rfl
    · exact .inr rfl
    · exact .inl (isUnreserved_hexDigit _ (by omega))
    · exact .inl (isUnreserved_hexDigit _ (by omega))

end PackageGate.Http.Component
