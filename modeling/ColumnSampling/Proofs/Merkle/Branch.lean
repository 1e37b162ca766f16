import ColumnSampling.Proofs.Merkle.Inputs

/-!
# Branches of a sparse tree

The siblings that a climb collects fold back to the root it reaches, for every position of the tree
and however many leaves are given. Folding them hashes nothing that the climb did not hash.
-/

namespace ColumnSampling.Merkle

theorem climb_fst (depth : ℕ) (zero : Root) (layer : List Root) (i j : ℕ) :
    (climb depth zero layer i).1 = (climb depth zero layer j).1 := by
  induction depth generalizing zero layer i j with
  | zero => rfl
  | succ depth ih => exact ih _ _ _ _

@[simp] theorem length_climb (depth : ℕ) (zero : Root) (layer : List Root) (position : ℕ) :
    (climb depth zero layer position).2.length = depth := by
  induction depth generalizing zero layer position with
  | zero => rfl
  | succ depth ih => simp [climb, ih]

@[simp] theorem length_branch (leaves : List Root) (depth index : ℕ) :
    (branch leaves depth index).length = depth :=
  length_climb _ _ _ _

/-- A node of the layer above is the hash of two neighbours, also beyond the end of the layer. -/
theorem getD_pairUp (zero : Root) (layer : List Root) (j : ℕ) :
    (pairUp zero layer).getD j (hashPair zero zero) =
      hashPair (layer.getD (2 * j) zero) (layer.getD (2 * j + 1) zero) := by
  fun_induction pairUp zero layer generalizing j with
  | case1 => simp
  | case2 last => cases j <;> simp [Nat.mul_add]
  | case3 left right rest ih =>
    cases j with
    | zero => simp
    | succ j => simpa [Nat.mul_add] using ih j

theorem pair_mem_inputs (zero : Root) (layer : List Root) (j : ℕ) :
    (layer.getD (2 * j) zero).bytes ++ (layer.getD (2 * j + 1) zero).bytes ∈
      (zero.bytes ++ zero.bytes) :: pairInputs zero layer := by
  fun_induction pairInputs zero layer generalizing j with
  | case1 => simp
  | case2 last => cases j <;> simp [Nat.mul_add]
  | case3 left right rest ih =>
    cases j with
    | zero => simp
    | succ j =>
      have h := ih j
      simp only [Nat.mul_add, Nat.mul_one, List.mem_cons] at h ⊢
      simp only [List.getD_cons_succ, Nat.add_right_comm _ 2 1]
      tauto

theorem stepInput_sibling (zero : Root) (layer : List Root) (position : ℕ) :
    stepInput (layer.getD position zero) (layer.getD (sibling position) zero) position =
      (layer.getD (2 * (position / 2)) zero).bytes ++
        (layer.getD (2 * (position / 2) + 1) zero).bytes := by
  unfold stepInput sibling
  rcases Nat.mod_two_eq_zero_or_one position with even | odd
  · have left : 2 * (position / 2) = position := by omega
    simp [even, left]
  · have left : 2 * (position / 2) = position - 1 := by omega
    have right : position - 1 + 1 = position := by omega
    simp [odd, left, right]

/-- The branch of a position folds back to the root. -/
theorem foldBranch_climb (depth : ℕ) (zero : Root) (layer : List Root) {position : ℕ}
    (inside : position < capacity depth) :
    foldBranch (layer.getD position zero) (climb depth zero layer position).2 position =
      (climb depth zero layer position).1 := by
  induction depth generalizing zero layer position with
  | zero =>
    obtain rfl : position = 0 := by simpa [capacity] using inside
    cases layer <;> rfl
  | succ depth ih =>
    have half : position / 2 < capacity depth := by
      simp only [capacity, Nat.pow_eq, pow_succ] at inside ⊢
      omega
    rw [climb, foldBranch_cons, stepInput_sibling]
    have parent := getD_pairUp zero layer (position / 2)
    rw [hashPair, hashPair] at parent
    rw [← parent]
    exact ih _ _ half

theorem foldBranch_branch (leaves : List Root) {depth index : ℕ} (inside : index < capacity depth) :
    foldBranch (leaves.getD index (.zero 32)) (branch leaves depth index) index =
      root leaves depth := by
  unfold branch root rootAndBranch
  rw [foldBranch_climb depth _ _ inside]
  exact climb_fst _ _ _ _ _

theorem checkBranch_eq_true {leaf top : Root} {given : List Root} {depth index : ℕ} :
    checkBranch leaf given depth index top = true ↔
      given.length = depth ∧ foldBranch leaf given index = top := by
  rw [checkBranch, Bool.and_eq_true, decide_eq_true_iff, decide_eq_true_iff]

theorem foldBranch_append (leaf : Root) (lower upper : List Root) (index : ℕ) :
    foldBranch leaf (lower ++ upper) index =
      foldBranch (foldBranch leaf lower index) upper (index / 2 ^ lower.length) := by
  induction lower generalizing leaf index with
  | nil => simp [foldBranch]
  | cons node lower ih =>
    rw [List.cons_append, foldBranch_cons, foldBranch_cons, ih, Nat.div_div_eq_div_mul,
      List.length_cons, pow_succ']

theorem foldInputs_append (leaf : Root) (lower upper : List Root) (index : ℕ) :
    foldInputs leaf (lower ++ upper) index =
      foldInputs leaf lower index ++
        foldInputs (foldBranch leaf lower index) upper (index / 2 ^ lower.length) := by
  induction lower generalizing leaf index with
  | nil => simp [foldInputs, foldBranch]
  | cons node lower ih =>
    rw [List.cons_append, foldInputs, foldInputs, foldBranch_cons, ih, Nat.div_div_eq_div_mul,
      List.length_cons, pow_succ', List.cons_append]

/-- Folding a branch of the tree hashes only what the tree itself hashes. -/
theorem foldInputs_climb (depth : ℕ) (zero : Root) (layer : List Root) (position : ℕ) :
    foldInputs (layer.getD position zero) (climb depth zero layer position).2 position ⊆
      climbInputs depth zero layer := by
  induction depth generalizing zero layer position with
  | zero => simp [climb, foldInputs]
  | succ depth ih =>
    rw [climb, foldInputs, climbInputs, stepInput_sibling]
    have parent := getD_pairUp zero layer (position / 2)
    rw [hashPair, hashPair] at parent
    rw [← parent]
    refine List.cons_subset.mpr ⟨?_, ?_⟩
    · exact List.mem_append_left _ (pair_mem_inputs zero layer (position / 2))
    · exact List.Subset.trans (ih _ _ _) (List.subset_append_right _ _)

end ColumnSampling.Merkle
