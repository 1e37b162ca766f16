import ColumnSampling.Parameters
import Mathlib.Tactic

/-!
# Accepted parameters

What a record of parameters satisfies once its check has found no broken rule. Everything that the
engine proves about valid parameters starts from these facts, never from the order of the check.
-/

namespace ColumnSampling.Parameters

/-- The rules for parameters, each as a fact. -/
structure Valid (p : Parameters) : Prop where
  nonZero : ∀ field ∈ p.nonZero, field.2 ≠ 0
  columns_mod_groups : p.numberOfColumns % p.numberOfCustodyGroups = 0
  columns_eq : p.columns = cellsPerExtendedBlob
  atMostGroups : ∀ field ∈ p.atMostGroups, field.2 ≤ p.numberOfCustodyGroups
  maxCommitments_eq : p.maxCommitmentsPerBlock.toNat = 2 ^ p.commitmentsTreeDepth
  inclusionProofDepth_eq : p.inclusionProofDepth.toNat = blockBodyTreeDepth
  rootLength_eq : p.rootLength.toNat = bytesPerRoot

theorem valid_of_check {p : Parameters} (h : p.check = .ok ()) : p.Valid := by
  have accepted : p.fault? = none := by
    unfold check at h
    split at h
    · simp at h
    · assumption
  cases nonZero : p.nonZero.find? (·.2 = 0) with
  | some field => simp [fault?, nonZero] at accepted
  | none =>
    cases bounded : p.atMostGroups.find? (p.numberOfCustodyGroups < ·.2) with
    | some field =>
      simp only [fault?, nonZero, bounded] at accepted
      split_ifs at accepted
    | none =>
      simp only [fault?, nonZero, bounded] at accepted
      split_ifs at accepted with divides columns power depth length
      constructor
      · intro field hf
        simpa using List.find?_eq_none.mp nonZero field hf
      · exact not_not.mp divides
      · exact not_not.mp columns
      · intro field hf
        simpa using List.find?_eq_none.mp bounded field hf
      · exact not_not.mp power
      · exact not_not.mp depth
      · exact not_not.mp length

theorem valid_default : Valid {} := valid_of_check rfl

namespace Valid

variable {p : Parameters} (valid : p.Valid)

include valid

theorem columns_eq_128 : p.columns = 128 := valid.columns_eq

theorem columnsForRecovery_eq_64 : p.columnsForRecovery = 64 := by
  rw [columnsForRecovery, valid.columns_eq_128]

/-- A list that its tree holds has a length that fits into a leaf. -/
theorem capacity_lt : Nat.pow 2 p.commitmentsTreeDepth < 256 ^ 32 := by
  have h := p.maxCommitmentsPerBlock.toNat_lt
  rw [valid.maxCommitments_eq] at h
  exact h.trans (by decide)

end Valid

end ColumnSampling.Parameters
