import ColumnSampling.NodeId
import ColumnSampling.Proofs.Bytes.Endian
import Mathlib.Logic.Function.Iterate
import Mathlib.Tactic

/-!
# Node ids as numbers

The walk over the node ids is a counter kept in bytes. Adding one with a carry from byte to byte is
adding one to the number that the bytes stand for, modulo `2 ^ 256`, so after `k` steps the counter
stands at the number of the first id plus `k`, wrapped around.
-/

namespace ColumnSampling.NodeId

theorem toList_injective : Function.Injective toList := by
  rintro ⟨⟨⟨x⟩, _⟩⟩ ⟨⟨⟨y⟩, _⟩⟩ h
  obtain rfl : x = y := Array.toList_inj.mp h
  rfl

/-- Adding one with carries adds one to the number, unless it was the greatest. -/
theorem ofLittle_increment (bytes : List UInt8) :
    Endian.ofLittle (increment bytes) = (Endian.ofLittle bytes + 1) % 256 ^ bytes.length := by
  induction bytes with
  | nil => simp [increment, Endian.ofLittle]
  | cons b rest ih =>
    have hb : b.toNat < 256 := b.toNat_lt
    have hrest := Endian.ofLittle_lt rest
    have hwidth : 256 ^ (b :: rest).length = 256 * 256 ^ rest.length := pow_succ' _ _
    rw [increment, hwidth, Endian.ofLittle]
    split_ifs with hcarry
    · have hall : b.toNat = 255 := by rw [hcarry]; rfl
      have hnext : b.toNat + 256 * Endian.ofLittle rest + 1 = 256 * (Endian.ofLittle rest + 1) := by
        omega
      rw [Endian.ofLittle, ih, hnext, Nat.mul_mod_mul_left]
      simp
    · have hlow : b.toNat ≠ 255 := fun h => hcarry (UInt8.toNat_inj.mp h)
      have hsucc : (b + 1).toNat = b.toNat + 1 := by
        rw [UInt8.toNat_add]
        exact Nat.mod_eq_of_lt (by simp; omega)
      rw [Endian.ofLittle, hsucc, Nat.mod_eq_of_lt (by omega)]
      omega

theorem toNat_eq (id : NodeId) : id.toNat = Endian.ofLittle id.toList.reverse :=
  Endian.ofBig_eq id.toList

theorem toNat_lt (id : NodeId) : id.toNat < 2 ^ 256 := by
  have h := Endian.ofLittle_lt id.toList.reverse
  rw [← toNat_eq, List.length_reverse, length_toList] at h
  norm_num at h ⊢
  exact h

theorem littleEndian_eq (id : NodeId) :
    id.littleEndian = ⟨(Endian.little 32 id.toNat).toArray⟩ := by
  have h := Endian.little_ofLittle id.toList.reverse
  rw [← toNat_eq, List.length_reverse, length_toList] at h
  rw [littleEndian, h]

theorem toNat_next (id : NodeId) : id.next.toNat = (id.toNat + 1) % 2 ^ 256 := by
  have hbytes : id.next.toList.reverse = increment id.toList.reverse := by
    rw [next, toList, FixedBytes.toList_ofList, List.reverse_reverse]
  rw [toNat_eq, hbytes, ofLittle_increment, ← toNat_eq, List.length_reverse, length_toList]
  norm_num

theorem toNat_iterate_next (id : NodeId) (k : ℕ) :
    (next^[k] id).toNat = (id.toNat + k) % 2 ^ 256 := by
  induction k with
  | zero => exact (Nat.mod_eq_of_lt id.toNat_lt).symm
  | succ k ih => rw [Function.iterate_succ_apply', toNat_next, ih, Nat.mod_add_mod, Nat.add_assoc]

section Walk

variable {id id' : NodeId} {k : ℕ}

def ofNat (n : ℕ) : NodeId := ⟨.ofList (Endian.big 32 n) (by simp)⟩

theorem toNat_ofNat {n : ℕ} (h : n < 2 ^ 256) : (ofNat n).toNat = n := by
  rw [toNat, toList, ofNat, FixedBytes.toList_ofList]
  exact Endian.ofBig_big (h.trans_eq (by norm_num))

theorem ofNat_toNat (id : NodeId) : ofNat id.toNat = id := by
  apply toList_injective
  have h := Endian.big_ofBig id.toList
  rw [length_toList] at h
  rw [toList, ofNat, FixedBytes.toList_ofList]
  exact h

theorem toNat_injective : Function.Injective toNat :=
  Function.LeftInverse.injective ofNat_toNat

theorem existsUnique_toNat {n : ℕ} (h : n < 2 ^ 256) : ∃! id : NodeId, id.toNat = n :=
  ⟨ofNat n, toNat_ofNat h, fun _ hid => toNat_injective (hid.trans (toNat_ofNat h).symm)⟩

theorem iterate_next_eq_iff : next^[k] id = id' ↔ (id.toNat + k) % 2 ^ 256 = id'.toNat := by
  rw [← toNat_injective.eq_iff, toNat_iterate_next]

theorem existsUnique_iterate_next (id id' : NodeId) : ∃! k, k < 2 ^ 256 ∧ next^[k] id = id' := by
  have hid := id.toNat_lt
  have hid' := id'.toNat_lt
  refine ⟨(id'.toNat + 2 ^ 256 - id.toNat) % 2 ^ 256, ⟨Nat.mod_lt _ (by positivity), ?_⟩, ?_⟩
  · rw [iterate_next_eq_iff]
    omega
  · rintro k ⟨hk, h⟩
    rw [iterate_next_eq_iff] at h
    omega

theorem iterate_next_eq_self_iff : next^[k] id = id ↔ 2 ^ 256 ∣ k := by
  have hid := id.toNat_lt
  rw [iterate_next_eq_iff]
  omega

end Walk

theorem compare_eq_compare_toNat (a b : NodeId) : compare a b = compare a.toNat b.toNat :=
  (Endian.compare_ofBig (by simp)).symm

/--
Node ids count modulo `2 ^ 256`. Every number below is that of one id, and the next id is that of
the next number; from each id the walk meets each id once before it is back. What is hashed of an id
are the bytes of its number, the least significant one first, and ids are ordered by their numbers.
-/
theorem counts_modulo_two_pow :
    (∀ n < 2 ^ 256, ∃! id : NodeId, id.toNat = n) ∧
    (∀ (id : NodeId) k, (next^[k] id).toNat = (id.toNat + k) % 2 ^ 256) ∧
    (∀ id id' : NodeId, ∃! k, k < 2 ^ 256 ∧ next^[k] id = id') ∧
    (∀ (id : NodeId) k, next^[k] id = id ↔ 2 ^ 256 ∣ k) ∧
    (∀ id : NodeId, id.littleEndian = ⟨(Endian.little 32 id.toNat).toArray⟩) ∧
    ∀ a b : NodeId, compare a b = compare a.toNat b.toNat :=
  ⟨fun _ => existsUnique_toNat, toNat_iterate_next, existsUnique_iterate_next,
    fun _ _ => iterate_next_eq_self_iff, littleEndian_eq, compare_eq_compare_toNat⟩

end ColumnSampling.NodeId
