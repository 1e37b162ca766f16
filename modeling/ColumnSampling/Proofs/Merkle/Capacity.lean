import ColumnSampling.Proofs.Guarded.Merkle
import ColumnSampling.Proofs.Merkle.Commitments
import Mathlib.Order.Bounds.Basic

/-!
# How many commitments a tree holds

The tree over the commitments of a block has as many leaves as the least power of two that is not
below the longest list. Words can tell it for limits up to `2 ^ 63`, and no further. Valid
parameters have a power of two as their limit, so their tree holds the allowed lists and no others.
-/

namespace ColumnSampling

section Rounding

variable {n k : ℕ} {w : UInt64}

theorem ceilLog2_le_iff : ceilLog2 n ≤ k ↔ n ≤ 2 ^ k := by
  unfold ceilLog2
  split_ifs with small
  · have hk : 1 ≤ 2 ^ k := Nat.one_le_two_pow
    exact ⟨fun _ => small.trans hk, fun _ => Nat.zero_le k⟩
  · rw [Nat.succ_le_iff, Nat.log2_lt (by omega)]
    omega

theorem isLeast_two_pow_ceilLog2 (n : ℕ) :
    IsLeast {c | c.isPowerOfTwo ∧ max 1 n ≤ c} (2 ^ ceilLog2 n) := by
  refine ⟨⟨⟨_, rfl⟩, max_le Nat.one_le_two_pow (ceilLog2_le_iff.mp le_rfl)⟩, ?_⟩
  rintro _ ⟨⟨k, rfl⟩, hk⟩
  exact Nat.pow_le_pow_right two_pos (ceilLog2_le_iff.mpr ((le_max_right 1 n).trans hk))

/-- All bits below the power of two that a word is rounded up to. -/
def bitsBelow (w : UInt64) : UInt64 :=
  if w ≤ 1 then 0 else ~~~0 >>> (63 - (w - 1).log2)

def roundUp (w : UInt64) : UInt64 := bitsBelow w + 1

theorem allOnes_shiftRight (hk : k ≤ 63) : (2 ^ 64 - 1) >>> (63 - k) = 2 ^ (k + 1) - 1 := by
  have hsplit : 2 ^ 64 = 2 ^ (k + 1) * 2 ^ (63 - k) := by
    rw [← pow_add]
    congr 1
    omega
  have hlow : 0 < 2 ^ (63 - k) := by positivity
  rw [Nat.shiftRight_eq_div_pow, hsplit]
  apply Nat.div_eq_of_lt_le
  · rw [Nat.sub_mul]
    omega
  · rw [Nat.sub_add_cancel Nat.one_le_two_pow]
    omega

theorem toNat_bitsBelow (w : UInt64) : (bitsBelow w).toNat = 2 ^ ceilLog2 w.toNat - 1 := by
  unfold bitsBelow ceilLog2
  by_cases small : w ≤ 1
  · have hw : w.toNat ≤ 1 := UInt64.le_iff_toNat_le.mp small
    rw [if_pos small, if_pos hw]
    rfl
  · have hw : 1 < w.toNat := by simpa [UInt64.le_iff_toNat_le] using small
    have hpred : (w - 1).toNat = w.toNat - 1 :=
      UInt64.toNat_sub_of_le w 1 (UInt64.le_iff_toNat_le.mpr hw.le)
    have hlog : (w - 1).log2.toNat = (w.toNat - 1).log2 := congrArg Nat.log2 hpred
    have hle : (w.toNat - 1).log2 ≤ 63 := by
      have hlt := w.toNat_lt
      rw [← Nat.lt_succ_iff, Nat.log2_lt (by omega)]
      omega
    have hshift : (63 - (w - 1).log2).toNat = 63 - (w.toNat - 1).log2 := by
      rw [UInt64.toNat_sub_of_le _ _ (UInt64.le_iff_toNat_le.mpr (hlog ▸ hle)), hlog]
      rfl
    rw [if_neg small, if_neg (by omega), UInt64.toNat_shiftRight, hshift,
      Nat.mod_eq_of_lt (by omega), ← allOnes_shiftRight hle]
    rfl

/-- Rounding up loses what does not fit into a word, and nothing else. -/
theorem toNat_roundUp (w : UInt64) : (roundUp w).toNat = 2 ^ ceilLog2 w.toNat % 2 ^ 64 := by
  have hpos : 0 < 2 ^ ceilLog2 w.toNat := by positivity
  rw [roundUp, UInt64.toNat_add, toNat_bitsBelow]
  exact congrArg (· % 2 ^ 64) (Nat.sub_add_cancel hpos)

end Rounding

namespace Parameters

variable {p : Parameters}

theorem commitmentsTreeDepth_lt_of_le (h : p.maxCommitmentsPerBlock.toNat ≤ 2 ^ 63) :
    p.commitmentsTreeDepth < 64 :=
  Nat.lt_succ_of_le (ceilLog2_le_iff.mpr h)

theorem commitmentsTreeDepth_of_lt (h : 2 ^ 63 < p.maxCommitmentsPerBlock.toNat) :
    p.commitmentsTreeDepth = 64 := by
  have hw := p.maxCommitmentsPerBlock.toNat_lt
  refine le_antisymm (ceilLog2_le_iff.mpr hw.le) ?_
  by_contra hlt
  exact absurd (ceilLog2_le_iff.mp (Nat.le_of_lt_succ (not_le.mp hlt))) (not_le.mpr h)

theorem toNat_roundUp_of_le (h : p.maxCommitmentsPerBlock.toNat ≤ 2 ^ 63) :
    (roundUp p.maxCommitmentsPerBlock).toNat = 2 ^ p.commitmentsTreeDepth := by
  rw [toNat_roundUp]
  exact Nat.mod_eq_of_lt (Nat.pow_lt_pow_right one_lt_two (commitmentsTreeDepth_lt_of_le h))

theorem log2_roundUp_of_le (h : p.maxCommitmentsPerBlock.toNat ≤ 2 ^ 63) :
    (roundUp p.maxCommitmentsPerBlock).log2.toNat = p.commitmentsTreeDepth :=
  (congrArg Nat.log2 (toNat_roundUp_of_le h)).trans Nat.log2_two_pow

theorem roundUp_of_lt (h : 2 ^ 63 < p.maxCommitmentsPerBlock.toNat) :
    roundUp p.maxCommitmentsPerBlock = 0 := by
  apply UInt64.toNat_inj.mp
  have hdepth : ceilLog2 p.maxCommitmentsPerBlock.toNat = 64 := commitmentsTreeDepth_of_lt h
  rw [toNat_roundUp, hdepth]
  rfl

theorem commitmentsTreeDepthGuarded_of_overflow (h : 2 ^ 63 < p.maxCommitmentsPerBlock.toNat) :
    p.commitmentsTreeDepthGuarded = .error (.overflow (2 ^ 64)) := by
  rw [commitmentsTreeDepthGuarded, commitmentsTreeDepth_of_lt h]
  rfl

theorem Valid.capacity_eq (valid : p.Valid) :
    Merkle.capacity p.commitmentsTreeDepth = p.maxCommitmentsPerBlock.toNat :=
  valid.maxCommitments_eq.symm

end Parameters

namespace Commitment

variable {commitments : List Commitment} {depth : ℕ}

theorem exists_listRoot_iff : (∃ root, listRoot commitments depth = .ok root) ↔
    commitments.length ≤ Merkle.capacity depth := by
  simp only [listRoot_eq_ok, exists_and_left, exists_eq', and_true]

/--
The tree over the commitments has room for the least power of two that is not below the limit, for
limits up to `2 ^ 63`; rounding up a greater one overflows. For valid parameters that is the limit
itself: a list has a root exactly if it is within the limit, and a longer one is reported with its
length and the limit.
-/
theorem listRoot_iff_within_limit (p : Parameters) :
    (p.maxCommitmentsPerBlock.toNat ≤ 2 ^ 63 →
      IsLeast {c | c.isPowerOfTwo ∧ max 1 p.maxCommitmentsPerBlock.toNat ≤ c}
        (2 ^ p.commitmentsTreeDepth) ∧
      (roundUp p.maxCommitmentsPerBlock).log2.toNat = p.commitmentsTreeDepth ∧
      p.commitmentsTreeDepthGuarded = .ok p.commitmentsTreeDepth) ∧
    (2 ^ 63 < p.maxCommitmentsPerBlock.toNat →
      roundUp p.maxCommitmentsPerBlock = 0 ∧
      p.commitmentsTreeDepthGuarded = .error (.overflow (2 ^ 64))) ∧
    (p.check = .ok () → p.commitmentsTreeDepth ≤ 63 ∧ ∀ commitments : List Commitment,
      ((∃ root, listRoot commitments p.commitmentsTreeDepth = .ok root) ↔
        commitments.length ≤ p.maxCommitmentsPerBlock.toNat) ∧
      (∀ cause, listRoot commitments p.commitmentsTreeDepth = .error cause ↔
        p.maxCommitmentsPerBlock.toNat < commitments.length ∧
          cause = .tooManyCommitments commitments.length p.commitmentsTreeDepth
            p.maxCommitmentsPerBlock.toNat) ∧
      listRootGuarded commitments p.commitmentsTreeDepth =
        .ok (listRoot commitments p.commitmentsTreeDepth)) := by
  refine ⟨fun h => ⟨isLeast_two_pow_ceilLog2 _, Parameters.log2_roundUp_of_le h, ?_⟩,
    fun h => ⟨Parameters.roundUp_of_lt h, Parameters.commitmentsTreeDepthGuarded_of_overflow h⟩,
    fun h => ?_⟩
  · exact Parameters.commitmentsTreeDepthGuarded_of_lt (Parameters.commitmentsTreeDepth_lt_of_le h)
  · have valid := Parameters.valid_of_check h
    have hdepth := valid.commitmentsTreeDepth_lt
    have hcapacity := valid.capacity_eq
    refine ⟨Nat.le_of_lt_succ hdepth, fun commitments => ⟨?_, ?_, ?_⟩⟩
    · rw [exists_listRoot_iff, hcapacity]
    · intro cause
      rw [listRoot_eq_error, hcapacity]
    · exact listRootGuarded_eq hdepth commitments

/-- The limits 5, 2 and `2 ^ 63`, and one that is too great. -/
theorem listRoot_of_limits :
    IsLeast {c | c.isPowerOfTwo ∧ max 1 5 ≤ c} 8 ∧
    ({ maxCommitmentsPerBlock := 2 } : Parameters).check = .ok () ∧
    (∃ root, listRoot [.zero 48, .zero 48] 1 = .ok root) ∧
    listRoot [.zero 48, .zero 48, .zero 48] 1 = .error (.tooManyCommitments 3 1 2) ∧
    ({ maxCommitmentsPerBlock := 0x8000000000000000 } : Parameters).commitmentsTreeDepth ≤ 63 ∧
    roundUp 0x8000000000000001 = 0 := by
  obtain ⟨least, -, -⟩ := listRoot_iff_within_limit { maxCommitmentsPerBlock := 5 }
  obtain ⟨-, -, two⟩ := listRoot_iff_within_limit { maxCommitmentsPerBlock := 2 }
  obtain ⟨-, -, greatest⟩ :=
    listRoot_iff_within_limit { maxCommitmentsPerBlock := 0x8000000000000000 }
  obtain ⟨-, above, -⟩ := listRoot_iff_within_limit { maxCommitmentsPerBlock := 0x8000000000000001 }
  obtain ⟨-, holds⟩ := two rfl
  obtain ⟨hroot, -, -⟩ := holds [.zero 48, .zero 48]
  obtain ⟨-, herror, -⟩ := holds [.zero 48, .zero 48, .zero 48]
  exact ⟨(least (by decide)).1, rfl, hroot.mpr (by decide), (herror _).mpr ⟨by decide, rfl⟩,
    (greatest rfl).1, (above (by decide)).1⟩

end Commitment

end ColumnSampling
