import ColumnSampling.Proofs.Inclusion

/-!
# Opening one commitment of a block

The proof of one commitment climbs from its leaf to the root of the list, takes in the number of
commitments, and climbs on to the root of the body. Whoever checks it knows neither the list nor its
length. Still, whatever passes is the branch of a position of the tree below, and its leaf is the
leaf there: a commitment of the list, or zero behind the last one.
-/

namespace ColumnSampling

namespace Commitment

variable {inputs : List ByteArray} {commitments : List Commitment} {c : Commitment}
  {proof bodyBranch : List Root} {index depth bodyDepth : ℕ} {list bodyRoot : Root}

/-- What is hashed to check the proof of a commitment; nothing if its length is wrong or the index
is not in the tree. -/
def inclusionInputs (c : Commitment) (proof : List Root) (index depth bodyDepth : Nat) :
    List ByteArray :=
  if proof.length = depth + 1 + bodyDepth ∧ index < Merkle.capacity depth then
    c.leafInput :: Merkle.foldInputs c.leaf (proof.take (depth + 1)) index ++
      Merkle.foldInputs (Merkle.foldBranch c.leaf (proof.take (depth + 1)) index)
        (proof.drop (depth + 1)) commitmentsFieldIndex
  else []

theorem checkInclusion_eq_true : c.checkInclusion proof index depth bodyDepth bodyRoot = true ↔
    proof.length = depth + 1 + bodyDepth ∧ index < Merkle.capacity depth ∧
      Merkle.foldBranch (Merkle.foldBranch c.leaf (proof.take (depth + 1)) index)
        (proof.drop (depth + 1)) commitmentsFieldIndex = bodyRoot := by
  unfold checkInclusion
  simp only [Bool.and_eq_true, decide_eq_true_eq, Merkle.checkBranch_eq_true, List.length_drop]
  constructor
  · rintro ⟨⟨hlength, inside⟩, -, hroot⟩
    exact ⟨hlength, inside, hroot⟩
  · rintro ⟨hlength, inside, hroot⟩
    exact ⟨⟨hlength, inside⟩, by omega, hroot⟩

section Passing

variable (free : ¬ Sha256.Collision inputs) (hlist : listRoot commitments depth = .ok list)
  (hlength : bodyBranch.length = bodyDepth)
  (hbody : Merkle.foldBranch list bodyBranch commitmentsFieldIndex = bodyRoot)
  (listed : listInputs commitments depth ⊆ inputs)
  (climbed : Merkle.foldInputs list bodyBranch commitmentsFieldIndex ⊆ inputs)
  (checked : c.inclusionInputs proof index depth bodyDepth ⊆ inputs)
  (passes : c.checkInclusion proof index depth bodyDepth bodyRoot = true)

include free hlist hlength hbody listed climbed checked passes

/-- Whatever passes where the body branch of a list leads is the proof of a position of its tree. -/
theorem position_of_checkInclusion :
    index < Merkle.capacity depth ∧
      c.leaf = (commitments.map leaf).getD index (.zero 32) ∧
      proof = Merkle.branch (commitments.map leaf) depth index ++
        Merkle.numberLeaf commitments.length :: bodyBranch := by
  obtain ⟨hproof, inside, hroot⟩ := checkInclusion_eq_true.mp passes
  rw [inclusionInputs, if_pos ⟨hproof, inside⟩, List.cons_append, List.cons_subset,
    List.append_subset] at checked
  obtain ⟨-, lower, upper⟩ := checked
  have hdrop : (proof.drop (depth + 1)).length = bodyBranch.length := by
    rw [List.length_drop]
    omega
  -- The upper nodes are those of the body, so the lower ones lead to the root of the list.
  obtain ⟨htop, hupper⟩ :=
    Merkle.foldBranch_inj free hdrop upper climbed (hroot.trans hbody.symm)
  have htake : (proof.take (depth + 1)).length =
      (Merkle.branch (commitments.map leaf) depth index ++
        [Merkle.numberLeaf commitments.length]).length := by
    rw [List.length_take, List.length_append, Merkle.length_branch, List.length_singleton]
    omega
  obtain ⟨hleaf, hlower⟩ := Merkle.foldBranch_inj free htake lower
    (List.Subset.trans (foldInputs_position hlist inside) listed)
    (htop.trans (foldBranch_position hlist inside).symm)
  refine ⟨inside, hleaf, ?_⟩
  calc proof = proof.take (depth + 1) ++ proof.drop (depth + 1) :=
        (List.take_append_drop _ _).symm
    _ = Merkle.branch (commitments.map leaf) depth index ++
          Merkle.numberLeaf commitments.length :: bodyBranch := by
        rw [hlower, hupper, List.append_assoc, List.singleton_append]

theorem eq_of_checkInclusion (nonzero : c.leaf ≠ .zero 32) :
    commitments[index]? = some c ∧
      inclusionProof commitments index depth bodyBranch bodyDepth = .ok proof := by
  obtain ⟨inside, hleaf, rfl⟩ :=
    position_of_checkInclusion free hlist hlength hbody listed climbed checked passes
  obtain ⟨fits, -⟩ := listRoot_eq_ok.mp hlist
  by_cases hindex : index < commitments.length
  · refine ⟨?_, inclusionProof_of_fits fits hindex hlength⟩
    have hown : c.leafInput ∈ inputs := by
      apply checked
      rw [inclusionInputs, if_pos ⟨(checkInclusion_eq_true.mp passes).1, inside⟩]
      exact List.mem_cons_self
    have hmember : leafInput commitments[index] ∈ inputs := by
      apply listed
      rw [listInputs, leaves_of_fits fits]
      have hmap : leafInput commitments[index] ∈ commitments.map leafInput :=
        List.mem_map_of_mem (List.getElem_mem hindex)
      exact List.mem_append_left _ (List.mem_append_left _ hmap)
    have hdigest : c.leaf = leaf commitments[index] := by simpa [hindex] using hleaf
    rw [List.getElem?_eq_getElem hindex,
      leafInput_injective (Sha256.digest_inj free hown hmember hdigest)]
  · -- Behind the last commitment the leaf is zero.
    refine absurd ?_ nonzero
    simpa [hindex] using hleaf

end Passing

end Commitment

namespace Body

variable {b : Body} {depth : ℕ}

/--
Against the root of a body, exactly the commitments of the body pass, each at its own index and with
the proof that is given out for it. Nothing else passes unless two of the inputs hashed on the way
collide, or the leaf of the commitment is zero; that the given proofs pass needs no assumption.
-/
theorem checkInclusion_iff_inclusionProof (b : Body) (depth : ℕ)
    (fits : b.commitments.length ≤ 2 ^ depth) :
    ∃ root branch, b.root depth = .ok root ∧ b.commitmentsBranch depth = .ok branch ∧
      (∀ index < b.commitments.length, ∃ proof,
        Commitment.inclusionProof b.commitments index depth branch blockBodyTreeDepth = .ok proof ∧
          proof.length = depth + 5) ∧
      ∀ (c : Commitment) (proof : List Root) (index : ℕ),
        (b.commitments[index]? = some c ∧
            Commitment.inclusionProof b.commitments index depth branch blockBodyTreeDepth =
              .ok proof →
          c.checkInclusion proof index depth blockBodyTreeDepth root = true) ∧
        (¬ Sha256.Collision (b.rootInputs depth ++
            c.inclusionInputs proof index depth blockBodyTreeDepth) →
          c.leaf ≠ .zero 32 →
          c.checkInclusion proof index depth blockBodyTreeDepth root = true →
          b.commitments[index]? = some c ∧
            Commitment.inclusionProof b.commitments index depth branch blockBodyTreeDepth =
              .ok proof) := by
  obtain ⟨list, nodes, hlist, hnodes, hfield⟩ := exists_leaves fits
  have hlength : (Merkle.branch nodes blockBodyTreeDepth commitmentsFieldIndex).length =
      blockBodyTreeDepth := Merkle.length_branch _ _ _
  have hbody := foldBranch_commitments hfield
  refine ⟨_, _, root_of_leaves hnodes, commitmentsBranch_of_leaves hnodes, ?_, ?_⟩
  · intro index hindex
    refine ⟨_, Commitment.inclusionProof_of_fits fits hindex hlength, ?_⟩
    rw [List.length_append, List.length_cons, hlength, Merkle.length_branch]
    rfl
  · intro c proof index
    constructor
    · rintro ⟨hc, hproof⟩
      exact Commitment.checkInclusion_inclusionProof hc hlist hproof hlength hbody
    · intro free nonzero passes
      exact Commitment.eq_of_checkInclusion free hlist hlength hbody
        (List.subset_append_of_subset_left _ b.listInputs_subset)
        (List.subset_append_of_subset_left _ (foldInputs_commitments hnodes hfield))
        (List.subset_append_right _ _) passes nonzero

/--
Of three commitments in a tree of four leaves, the second has a proof of seven nodes. Its proof is
good for no other commitment, and at the fourth leaf nothing passes.
-/
theorem checkInclusion_of_four_leaves :
    let two : Commitment := .replicate 48 2
    let body : Body := { commitments := [.replicate 48 1, two, .replicate 48 3] }
    ∃ root proof, body.root 2 = .ok root ∧ proof.length = 7 ∧
      two.checkInclusion proof 1 2 blockBodyTreeDepth root = true ∧
      ∀ (c : Commitment) (nodes : List Root) (index : ℕ),
        ¬ Sha256.Collision
          (body.rootInputs 2 ++ c.inclusionInputs nodes index 2 blockBodyTreeDepth) →
        c.leaf ≠ .zero 32 → index = 1 ∧ c ≠ two ∨ index = 3 →
        c.checkInclusion nodes index 2 blockBodyTreeDepth root = false := by
  intro two body
  have fits : body.commitments.length ≤ 2 ^ 2 := by decide
  obtain ⟨root, branch, hroot, -, given, h⟩ := checkInclusion_iff_inclusionProof body 2 fits
  obtain ⟨proof, hproof, hlength⟩ := given 1 (by decide)
  refine ⟨root, proof, hroot, hlength, (h two proof 1).1 ⟨rfl, hproof⟩, ?_⟩
  intro c nodes index free nonzero other
  rw [Bool.eq_false_iff]
  intro passes
  obtain ⟨hc, -⟩ := (h c nodes index).2 free nonzero passes
  rcases other with ⟨rfl, hne⟩ | rfl
  · exact hne (Option.some.inj hc).symm
  · simp [body] at hc

end Body

end ColumnSampling
