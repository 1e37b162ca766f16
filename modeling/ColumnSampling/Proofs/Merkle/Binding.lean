import ColumnSampling.Proofs.Merkle.Branch
import ColumnSampling.Proofs.Merkle.Inputs

/-!
# What a root binds

Two branches of one length that fold to one value at one index are the same branch over the same
leaf, and two lists of one length with the same root are the same list, as long as no two of the
inputs hashed on either side collide. Both arguments go down from the root: equal digests give equal
inputs, and equal inputs give equal nodes one layer below.

Against the root of a tree, a position of the tree thus has one leaf and one branch, also inside the
subtrees that hold nothing but zeros.
-/

namespace ColumnSampling.Merkle

variable {inputs : List ByteArray}

theorem foldBranch_inj (free : ¬ Sha256.Collision inputs) {leaf leaf' : Root}
    {branch branch' : List Root} {index : ℕ} (hlen : branch.length = branch'.length)
    (h : foldInputs leaf branch index ⊆ inputs) (h' : foldInputs leaf' branch' index ⊆ inputs)
    (same : foldBranch leaf branch index = foldBranch leaf' branch' index) :
    leaf = leaf' ∧ branch = branch' := by
  induction branch generalizing leaf leaf' branch' index with
  | nil =>
    obtain rfl := List.length_eq_zero_iff.mp hlen.symm
    exact ⟨same, rfl⟩
  | cons node rest ih =>
    cases branch' with
    | nil => simp at hlen
    | cons node' rest' =>
      rw [foldInputs, List.cons_subset] at h h'
      rw [foldBranch_cons, foldBranch_cons] at same
      obtain ⟨hstep, hrest⟩ := ih (by simpa using hlen) h.2 h'.2 same
      obtain ⟨hleaf, hnode⟩ := stepInput_inj (Sha256.digest_inj free h.1 h'.1 hstep)
      exact ⟨hleaf, by rw [hnode, hrest]⟩

theorem pairInputs_inj {zero : Root} {xs ys : List Root} (hlen : xs.length = ys.length)
    (same : pairInputs zero xs = pairInputs zero ys) : xs = ys := by
  fun_induction pairInputs zero xs generalizing ys with
  | case1 => exact (List.length_eq_zero_iff.mp hlen.symm).symm
  | case2 last =>
    obtain ⟨last', rfl⟩ := List.length_eq_one_iff.mp hlen.symm
    rw [pairInputs, List.cons.injEq] at same
    rw [(FixedBytes.append_inj same.1).1]
  | case3 left right rest ih =>
    match ys, hlen with
    | left' :: right' :: rest', hlen =>
      rw [pairInputs, List.cons.injEq] at same
      obtain ⟨hleft, hright⟩ := FixedBytes.append_inj same.1
      rw [hleft, hright, ih (by simpa using hlen) same.2]

theorem pairUp_inj (free : ¬ Sha256.Collision inputs) {zero : Root} {xs ys : List Root}
    (hlen : xs.length = ys.length) (hxs : pairInputs zero xs ⊆ inputs)
    (hys : pairInputs zero ys ⊆ inputs) (same : pairUp zero xs = pairUp zero ys) : xs = ys := by
  rw [pairUp_eq_map, pairUp_eq_map] at same
  exact pairInputs_inj hlen (Sha256.map_digest_inj free hxs hys same)

theorem climb_inj (free : ¬ Sha256.Collision inputs) {depth : ℕ} {zero : Root} {xs ys : List Root}
    {position : ℕ} (hlen : xs.length = ys.length) (fits : xs.length ≤ capacity depth)
    (hxs : climbInputs depth zero xs ⊆ inputs) (hys : climbInputs depth zero ys ⊆ inputs)
    (same : (climb depth zero xs position).1 = (climb depth zero ys position).1) : xs = ys := by
  induction depth generalizing zero xs ys position with
  | zero =>
    have fits : xs.length ≤ 1 := by simpa [capacity] using fits
    rcases Nat.le_one_iff_eq_zero_or_eq_one.mp fits with empty | single
    · rw [List.length_eq_zero_iff.mp empty, List.length_eq_zero_iff.mp (hlen.symm.trans empty)]
    · obtain ⟨x, rfl⟩ := List.length_eq_one_iff.mp single
      obtain ⟨y, rfl⟩ := List.length_eq_one_iff.mp hlen.symm
      exact congrArg (fun node => [node]) same
  | succ depth ih =>
    simp only [climbInputs, List.cons_append, List.cons_subset, List.append_subset] at hxs hys
    have half : (pairUp zero xs).length ≤ capacity depth := by
      simp only [length_pairUp, capacity, Nat.pow_eq, pow_succ] at fits ⊢
      omega
    have above : pairUp zero xs = pairUp zero ys :=
      ih (by simp [hlen]) half hxs.2.2 hys.2.2 same
    exact pairUp_inj free hlen hxs.2.1 hys.2.1 above

/-- Lists of one length that a tree of that depth holds are bound by its root. -/
theorem root_inj (free : ¬ Sha256.Collision inputs) {depth : ℕ} {xs ys : List Root}
    (hlen : xs.length = ys.length) (fits : xs.length ≤ capacity depth)
    (hxs : climbInputs depth (.zero 32) xs ⊆ inputs)
    (hys : climbInputs depth (.zero 32) ys ⊆ inputs)
    (same : root xs depth = root ys depth) : xs = ys :=
  climb_inj free hlen fits hxs hys same

/--
At each position of a tree its own leaf and branch pass, which needs no assumption, and nothing else
passes there unless two of the inputs collide that are hashed for the tree and for the check.
-/
theorem checkBranch_root_iff (leaves : List Root) {depth index : ℕ} (inside : index < 2 ^ depth) :
    checkBranch (leaves.getD index (.zero 32)) (branch leaves depth index) depth index
      (root leaves depth) = true ∧
    ∀ (leaf : Root) (given : List Root),
      ¬ Sha256.Collision
        (climbInputs depth (.zero 32) leaves ++ checkInputs leaf given depth index) →
      checkBranch leaf given depth index (root leaves depth) = true →
      leaf = leaves.getD index (.zero 32) ∧ given = branch leaves depth index := by
  have hown := foldBranch_branch leaves inside
  refine ⟨checkBranch_eq_true.mpr ⟨length_branch _ _ _, hown⟩, ?_⟩
  intro leaf given free passes
  obtain ⟨hlength, hroot⟩ := checkBranch_eq_true.mp passes
  apply foldBranch_inj free (hlength.trans (length_branch _ _ _).symm) ?_ ?_ (hroot.trans hown.symm)
  · rw [checkInputs, if_pos hlength]
    exact List.subset_append_right _ _
  · exact List.subset_append_of_subset_left _ (foldInputs_climb depth _ leaves index)

/-- In a tree of two zeros either leaf passes with the other, and only one pair is ever hashed. In a
tree of four leaves of which one is given, the given leaf does not pass in the place beside it. -/
theorem checkBranch_of_one_leaf :
    let one : Root := .replicate 32 1
    let zero : Root := .zero 32
    (1 < 2 ^ 1 ∧ ¬ Sha256.Collision (climbInputs 1 zero [] ++ checkInputs zero [zero] 1 1) ∧
      checkBranch zero [zero] 1 1 (root [] 1) = true ∧ [zero] = branch [] 1 1) ∧
    checkBranch zero [one, hashPair zero zero] 2 1 (root [one] 2) = true ∧
    ∀ given : List Root,
      ¬ Sha256.Collision (climbInputs 2 zero [one] ++ checkInputs one given 2 1) →
      checkBranch one given 2 1 (root [one] 2) = false := by
  intro one zero
  have free : ¬ Sha256.Collision (climbInputs 1 zero [] ++ checkInputs zero [zero] 1 1) := by
    rintro ⟨x, hx, y, hy, hne, -⟩
    have hpair : climbInputs 1 zero [] ++ checkInputs zero [zero] 1 1 =
      List.replicate 2 (zero.bytes ++ zero.bytes) := rfl
    rw [hpair, List.mem_replicate] at hx hy
    exact hne (hx.2.trans hy.2.symm)
  obtain ⟨passes, empty⟩ := @checkBranch_root_iff [] 1 1 (by decide)
  obtain ⟨beside, single⟩ := @checkBranch_root_iff [one] 2 1 (by decide)
  refine ⟨⟨by decide, free, passes, (empty zero [zero] free passes).2⟩, beside, ?_⟩
  intro given free'
  rw [Bool.eq_false_iff]
  intro forged
  exact absurd (single one given free' forged).1 (by decide)

end ColumnSampling.Merkle
