import ColumnSampling.Bytes
import Mathlib.Tactic

/-!
# Hexadecimal text is read back

Digits are ASCII, so the bytes of a text of digits are the digits themselves. Each pair of them is
read as the byte it was written for.
-/

namespace ColumnSampling.Hex

theorem utf8Size_digit {n : ℕ} (small : n < 16) : (digit n).utf8Size = 1 := by
  interval_cases n <;> rfl

theorem value_digit {n : ℕ} (small : n < 16) :
    value? (digit n).val.toUInt8 = some n.toUInt8 := by
  interval_cases n <;> rfl

theorem utf8_ofList {cs : List Char} (ascii : ∀ c ∈ cs, c.utf8Size = 1) :
    (String.ofList cs).toUTF8.data.toList = cs.map fun c => c.val.toUInt8 := by
  have hflat : cs.flatMap String.utf8EncodeChar = cs.map fun c => c.val.toUInt8 := by
    induction cs with
    | nil => rfl
    | cons c cs ih =>
      rw [List.forall_mem_cons] at ascii
      rw [List.flatMap_cons, String.utf8EncodeChar_eq_singleton ascii.1, ih ascii.2]
      rfl
  simp [String.toUTF8, List.utf8Encode, hflat]

theorem utf8Size_of_mem_encodeList {bytes : List UInt8} {c : Char} (hc : c ∈ encodeList bytes) :
    c.utf8Size = 1 := by
  induction bytes with
  | nil => cases hc
  | cons b bytes ih =>
    have hb := b.toNat_lt
    rw [encodeList, List.foldr_cons, consByte, List.mem_cons, List.mem_cons] at hc
    rcases hc with rfl | rfl | hc
    · exact utf8Size_digit (by omega)
    · exact utf8Size_digit (by omega)
    · exact ih hc

theorem utf8_marked (bytes : List UInt8) :
    (String.ofList ('0' :: 'x' :: encodeList bytes)).toUTF8.data.toList =
      48 :: 120 :: (encodeList bytes).map fun c => c.val.toUInt8 := by
  apply utf8_ofList
  intro c hc
  rcases List.mem_cons.mp hc with rfl | hc
  · rfl
  · rcases List.mem_cons.mp hc with rfl | hc
    · rfl
    · exact utf8Size_of_mem_encodeList hc

theorem length_encodeList (bytes : List UInt8) : (encodeList bytes).length = 2 * bytes.length := by
  induction bytes with
  | nil => rfl
  | cons b bytes ih =>
    rw [encodeList, List.foldr_cons, consByte, List.length_cons, List.length_cons]
    rw [encodeList] at ih
    rw [ih, List.length_cons]
    omega

theorem halves (b : UInt8) :
    (b.toNat / 16).toUInt8 * 16 + (b.toNat % 16).toUInt8 = b := by
  have hb := b.toNat_lt
  apply UInt8.toNat.inj
  simp only [UInt8.toNat_add, UInt8.toNat_mul]
  simp
  omega

theorem decodePairs_encodeList (bytes : List UInt8) (position : ℕ) (done : List UInt8) :
    decodePairs position ((encodeList bytes).map fun c => c.val.toUInt8) done =
      .ok (done.reverse ++ bytes) := by
  induction bytes generalizing position done with
  | nil => simp [encodeList, decodePairs]
  | cons b bytes ih =>
    have hb := b.toNat_lt
    have hhigh := value_digit (n := b.toNat / 16) (by omega)
    have hlow := value_digit (n := b.toNat % 16) (by omega)
    rw [encodeList, List.foldr_cons, consByte, List.map_cons, List.map_cons, decodePairs, hhigh,
      hlow]
    simp only [halves]
    rw [← encodeList, ih, List.reverse_cons, List.append_assoc, List.singleton_append]

/-- The digits of a byte string are read as that byte string. -/
theorem decodeList_encodeList (bytes : List UInt8) :
    decodeList ((encodeList bytes).map fun c => c.val.toUInt8) = .ok bytes := by
  have heven : ¬ ((encodeList bytes).map fun c => c.val.toUInt8).length % 2 = 1 := by
    rw [List.length_map, length_encodeList]
    omega
  rw [decodeList, if_neg heven, decodePairs_encodeList]
  rfl

end ColumnSampling.Hex
