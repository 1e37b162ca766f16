import ColumnSampling.Bytes
import Mathlib.Tactic

/-!
# Bytes and the numbers they stand for

As many bytes as a width asks for are the same as a number below a power of 256: each is written as
the other and read back. The number of some bytes is compared like the bytes themselves, from the
most significant one on, and zeros in front do not count.
-/

namespace ColumnSampling.Endian

theorem ofLittle_lt (bytes : List UInt8) : ofLittle bytes < 256 ^ bytes.length := by
  induction bytes with
  | nil => simp [ofLittle]
  | cons b rest ih =>
    have hb := b.toNat_lt
    simp only [ofLittle, List.length_cons, pow_succ]
    omega

theorem little_ofLittle (bytes : List UInt8) : little bytes.length (ofLittle bytes) = bytes := by
  induction bytes with
  | nil => rfl
  | cons b rest ih =>
    have hb : b.toNat < 256 := b.toNat_lt
    have hrest : (b.toNat + 256 * ofLittle rest) / 256 = ofLittle rest := by omega
    have hfirst : (b.toNat + 256 * ofLittle rest).toUInt8 = b := by
      apply UInt8.toNat_inj.mp
      simp [Nat.toUInt8]
    rw [List.length_cons, little, ofLittle, hrest, hfirst, ih]

theorem big_inj {width m n : ℕ} (hm : m < 256 ^ width) (hn : n < 256 ^ width)
    (h : big width m = big width n) : m = n :=
  little_inj hm hn (List.reverse_inj.mp h)

theorem ofBig_eq (bytes : List UInt8) : ofBig bytes = ofLittle bytes.reverse := by
  induction bytes using List.reverseRecOn with
  | nil => rfl
  | append_singleton bytes b ih =>
    rw [ofBig, List.foldl_append, ← ofBig, ih, List.reverse_append]
    exact Nat.add_comm _ _

theorem ofBig_lt (bytes : List UInt8) : ofBig bytes < 256 ^ bytes.length := by
  rw [ofBig_eq, ← List.length_reverse]
  exact ofLittle_lt _

theorem big_ofBig (bytes : List UInt8) : big bytes.length (ofBig bytes) = bytes := by
  have h := little_ofLittle bytes.reverse
  rw [List.length_reverse] at h
  rw [big, ofBig_eq, h, List.reverse_reverse]

theorem ofBig_big {width n : ℕ} (h : n < 256 ^ width) : ofBig (big width n) = n := by
  rw [ofBig_eq, big, List.reverse_reverse, ofLittle_little]
  exact Nat.mod_eq_of_lt h

theorem ofLittle_concat (bytes : List UInt8) (b : UInt8) :
    ofLittle (bytes ++ [b]) = ofLittle bytes + 256 ^ bytes.length * b.toNat := by
  induction bytes with
  | nil => simp [ofLittle]
  | cons first rest ih =>
    rw [List.cons_append, ofLittle, ih, ofLittle, List.length_cons, pow_succ']
    ring

theorem ofBig_cons (b : UInt8) (bytes : List UInt8) :
    ofBig (b :: bytes) = 256 ^ bytes.length * b.toNat + ofBig bytes := by
  rw [ofBig_eq, ofBig_eq, List.reverse_cons, ofLittle_concat, List.length_reverse, Nat.add_comm]

theorem ofBig_dropWhile (bytes : List UInt8) : ofBig (bytes.dropWhile (· = 0)) = ofBig bytes := by
  induction bytes with
  | nil => rfl
  | cons b rest ih =>
    by_cases zero : b = 0
    · rw [List.dropWhile_cons_of_pos (by simpa using zero), ih, ofBig_cons, zero]
      simp
    · rw [List.dropWhile_cons_of_neg (by simpa using zero)]

/-- Without a leading zero, the number needs all of its bytes. -/
theorem pow_le_ofBig {bytes : List UInt8} (hne : bytes ≠ []) (h : bytes.head? ≠ some 0) :
    256 ^ (bytes.length - 1) ≤ ofBig bytes := by
  obtain ⟨b, rest, rfl⟩ := List.exists_cons_of_ne_nil hne
  have hb : b.toNat ≠ 0 := fun zero => h (congrArg some (UInt8.toNat_inj.mp zero))
  rw [List.length_cons, Nat.add_sub_cancel, ofBig_cons]
  exact (Nat.le_mul_of_pos_right _ (Nat.pos_of_ne_zero hb)).trans (Nat.le_add_right _ _)

theorem compare_eq_compare_toNat (x y : UInt8) : compare x y = compare x.toNat y.toNat := by
  simp only [compare, compareOfLessAndEq, UInt8.lt_iff_toNat_lt, UInt8.toNat_inj]

theorem compare_mul_add {width m n low low' : ℕ} (h : low < width) (h' : low' < width) :
    compare (width * m + low) (width * n + low') = (compare m n).then (compare low low') := by
  rcases lt_trichotomy m n with hlt | rfl | hgt
  · have hgap : width * (m + 1) ≤ width * n := Nat.mul_le_mul_left width hlt
    rw [Nat.compare_eq_lt.mpr hlt, Nat.compare_eq_lt.mpr (by rw [mul_add] at hgap; omega)]
    rfl
  · rw [Nat.compare_eq_eq.mpr rfl, Ordering.eq_then]
    simp only [compare, compareOfLessAndEq, Nat.add_lt_add_iff_left, Nat.add_left_cancel_iff]
  · have hgap : width * (n + 1) ≤ width * m := Nat.mul_le_mul_left width hgt
    rw [Nat.compare_eq_gt.mpr hgt, Nat.compare_eq_gt.mpr (by rw [mul_add] at hgap; omega)]
    rfl

/-- Numbers of one width are compared by their bytes, the most significant one first. -/
theorem compare_ofBig {xs ys : List UInt8} (h : xs.length = ys.length) :
    compare (ofBig xs) (ofBig ys) = compare xs ys := by
  induction xs generalizing ys with
  | nil =>
    obtain rfl : ys = [] := List.eq_nil_of_length_eq_zero h.symm
    rfl
  | cons x xs ih =>
    cases ys with
    | nil => cases h
    | cons y ys =>
      have hlength : xs.length = ys.length := Nat.succ.inj h
      have hx : ofBig xs < 256 ^ ys.length := hlength ▸ ofBig_lt xs
      rw [ofBig_cons, ofBig_cons, hlength, compare_mul_add hx (ofBig_lt ys), ih hlength,
        List.compare_cons_cons, compare_eq_compare_toNat]

end ColumnSampling.Endian
