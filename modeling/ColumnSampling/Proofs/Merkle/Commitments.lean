import ColumnSampling.Merkle
import ColumnSampling.Proofs.Merkle.Binding
import ColumnSampling.Proofs.Merkle.Branch
import ColumnSampling.Proofs.Outcome

/-!
# The root of a list of commitments

A list that fits its tree has a root, and the root binds the list: first its length, which is mixed
in at the top, then the leaves below, then the commitments hashed into the leaves. Zeros at the end
of a list or a second list with a different length therefore lead to different roots.
-/

namespace ColumnSampling

theorem Merkle.numberLeaf_inj {m n : ℕ} (hm : m < 256 ^ 32) (hn : n < 256 ^ 32)
    (h : numberLeaf m = numberLeaf n) : m = n := by
  have same := congrArg FixedBytes.toList h
  rw [numberLeaf, numberLeaf, FixedBytes.toList_ofList, FixedBytes.toList_ofList] at same
  exact Endian.little_inj hm hn same

namespace Commitment

variable {inputs : List ByteArray} {commitments : List Commitment} {depth : ℕ}

def leafInput (c : Commitment) : ByteArray := c.bytes ++ (FixedBytes.zero 16).bytes

/-- What is hashed for the root of a list; nothing if the list is too long. -/
def listInputs (commitments : List Commitment) (depth : Nat) : List ByteArray :=
  match leaves commitments depth with
  | .error _ => []
  | .ok nodes =>
    commitments.map leafInput ++ Merkle.climbInputs depth (.zero 32) nodes ++
      [(Merkle.root nodes depth).bytes ++ (Merkle.numberLeaf commitments.length).bytes]

theorem leafInput_injective : Function.Injective leafInput :=
  fun _ _ h => (FixedBytes.append_inj h).1

theorem leaves_of_fits (fits : commitments.length ≤ Merkle.capacity depth) :
    leaves commitments depth = .ok (commitments.map leaf) := by
  rw [leaves, if_pos fits]

theorem leaves_eq_ok {nodes : List Root} : leaves commitments depth = .ok nodes ↔
    commitments.length ≤ Merkle.capacity depth ∧ commitments.map leaf = nodes := by
  unfold leaves
  split_ifs with fits <;> simp [fits]

theorem listRoot_eq_ok {root : Root} : listRoot commitments depth = .ok root ↔
    commitments.length ≤ Merkle.capacity depth ∧
      hashPair (Merkle.root (commitments.map leaf) depth)
        (Merkle.numberLeaf commitments.length) = root := by
  unfold listRoot
  rw [Outcome.bind_eq_ok]
  constructor
  · rintro ⟨nodes, hnodes, h⟩
    obtain ⟨fits, rfl⟩ := leaves_eq_ok.mp hnodes
    exact ⟨fits, Except.ok.inj h⟩
  · rintro ⟨fits, h⟩
    exact ⟨_, leaves_of_fits fits, congrArg Except.ok h⟩

theorem listRoot_eq_error {cause : MerkleError} : listRoot commitments depth = .error cause ↔
    Merkle.capacity depth < commitments.length ∧
      cause = .tooManyCommitments commitments.length depth (Merkle.capacity depth) := by
  unfold listRoot leaves
  split_ifs with fits
  · exact iff_of_false nofun fun h => absurd fits (not_le.mpr h.1)
  · constructor
    · rintro ⟨⟩
      exact ⟨not_le.mp fits, rfl⟩
    · rintro ⟨-, rfl⟩
      rfl

/-- The root of a list binds its length and each of its members. -/
theorem listRoot_inj (free : ¬ Sha256.Collision inputs) {xs ys : List Commitment} {root : Root}
    (small : Merkle.capacity depth < 256 ^ 32)
    (hx : listRoot xs depth = .ok root) (hy : listRoot ys depth = .ok root)
    (hxs : listInputs xs depth ⊆ inputs) (hys : listInputs ys depth ⊆ inputs) : xs = ys := by
  obtain ⟨fitsx, rootx⟩ := listRoot_eq_ok.mp hx
  obtain ⟨fitsy, rooty⟩ := listRoot_eq_ok.mp hy
  simp only [listInputs, leaves_of_fits fitsx, leaves_of_fits fitsy, List.append_subset,
    List.cons_subset] at hxs hys
  obtain ⟨⟨leavesx, climbx⟩, topx, -⟩ := hxs
  obtain ⟨⟨leavesy, climby⟩, topy, -⟩ := hys
  obtain ⟨hroot, hnumber⟩ := hashPair_inj free topx topy (rootx.trans rooty.symm)
  have hlen : xs.length = ys.length :=
    Merkle.numberLeaf_inj (fitsx.trans_lt small) (fitsy.trans_lt small) hnumber
  have hleaves : xs.map leaf = ys.map leaf :=
    Merkle.root_inj free (by simpa using hlen) (by simpa using fitsx) climbx climby hroot
  have hinputs : xs.map leafInput = ys.map leafInput := by
    apply Sha256.map_digest_inj free leavesx leavesy
    rw [List.map_map, List.map_map]
    exact hleaves
  exact leafInput_injective.list_map hinputs

section Inclusion

variable {index bodyDepth : ℕ} {bodyBranch : List Root} {c : Commitment} {list bodyRoot : Root}

theorem inclusionProof_of_fits (fits : commitments.length ≤ Merkle.capacity depth)
    (hindex : index < commitments.length) (hbranch : bodyBranch.length = bodyDepth) :
    inclusionProof commitments index depth bodyBranch bodyDepth =
      .ok (Merkle.branch (commitments.map leaf) depth index ++
        Merkle.numberLeaf commitments.length :: bodyBranch) := by
  have hne : ¬ commitments.isEmpty := by
    rw [List.isEmpty_iff]
    rintro rfl
    simp at hindex
  unfold inclusionProof
  rw [if_neg hne, if_neg (by omega), if_neg (by omega), leaves_of_fits fits]
  rfl

/-- The branch of a position, with the number of commitments at its end, leads from the leaf there,
which is zero behind the last commitment, to the root of the list. -/
theorem foldBranch_position (hlist : listRoot commitments depth = .ok list)
    (inside : index < Merkle.capacity depth) :
    Merkle.foldBranch ((commitments.map leaf).getD index (.zero 32))
      (Merkle.branch (commitments.map leaf) depth index ++
        [Merkle.numberLeaf commitments.length]) index = list := by
  obtain ⟨-, rfl⟩ := listRoot_eq_ok.mp hlist
  have htop : index / 2 ^ depth = 0 := Nat.div_eq_of_lt inside
  rw [Merkle.foldBranch_append, Merkle.length_branch, htop, Merkle.foldBranch_branch _ inside]
  rfl

theorem foldInputs_position (hlist : listRoot commitments depth = .ok list)
    (inside : index < Merkle.capacity depth) :
    Merkle.foldInputs ((commitments.map leaf).getD index (.zero 32))
      (Merkle.branch (commitments.map leaf) depth index ++
        [Merkle.numberLeaf commitments.length]) index ⊆ listInputs commitments depth := by
  obtain ⟨fits, -⟩ := listRoot_eq_ok.mp hlist
  have htop : index / 2 ^ depth = 0 := Nat.div_eq_of_lt inside
  rw [Merkle.foldInputs_append, Merkle.length_branch, htop, Merkle.foldBranch_branch _ inside,
    listInputs, leaves_of_fits fits]
  apply List.append_subset.mpr
  constructor
  · intro x hx
    have hclimb := Merkle.foldInputs_climb depth (.zero 32) (commitments.map leaf) index hx
    exact List.mem_append_left _ (List.mem_append_right _ hclimb)
  · intro x hx
    exact List.mem_append_right _ hx

theorem foldBranch_list (hc : commitments[index]? = some c)
    (hlist : listRoot commitments depth = .ok list) :
    Merkle.foldBranch c.leaf (Merkle.branch (commitments.map leaf) depth index ++
      [Merkle.numberLeaf commitments.length]) index = list := by
  obtain ⟨fits, -⟩ := listRoot_eq_ok.mp hlist
  obtain ⟨hindex, -⟩ := List.getElem?_eq_some_iff.mp hc
  have hleaf : (commitments.map leaf).getD index (.zero 32) = c.leaf := by simp [hc]
  rw [← hleaf]
  exact foldBranch_position hlist (hindex.trans_le fits)

theorem checkInclusion_inclusionProof {proof : List Root} (hc : commitments[index]? = some c)
    (hlist : listRoot commitments depth = .ok list)
    (hproof : inclusionProof commitments index depth bodyBranch bodyDepth = .ok proof)
    (hlength : bodyBranch.length = bodyDepth)
    (hbody : Merkle.foldBranch list bodyBranch commitmentsFieldIndex = bodyRoot) :
    c.checkInclusion proof index depth bodyDepth bodyRoot = true := by
  obtain ⟨fits, -⟩ := listRoot_eq_ok.mp hlist
  obtain ⟨hindex, -⟩ := List.getElem?_eq_some_iff.mp hc
  have inside : index < Merkle.capacity depth := hindex.trans_le fits
  rw [inclusionProof_of_fits fits hindex hlength] at hproof
  obtain rfl := Except.ok.inj hproof
  set lower := Merkle.branch (commitments.map leaf) depth index ++
    [Merkle.numberLeaf commitments.length] with hlower
  have hlower_length : lower.length = depth + 1 := by simp [hlower]
  have hsplit : Merkle.branch (commitments.map leaf) depth index ++
      Merkle.numberLeaf commitments.length :: bodyBranch = lower ++ bodyBranch := by
    rw [hlower, List.append_assoc]
    rfl
  have hfold : Merkle.foldBranch c.leaf lower index = list := foldBranch_list hc hlist
  unfold checkInclusion Merkle.checkBranch
  rw [hsplit, ← hlower_length, List.take_left, List.drop_left, hfold]
  simp [hlength, inside, hbody]

end Inclusion

end Commitment

end ColumnSampling
