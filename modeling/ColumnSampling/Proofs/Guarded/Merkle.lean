import ColumnSampling.Block
import ColumnSampling.Proofs.Guarded.Steps
import ColumnSampling.Proofs.Parameters

/-!
# Guarded merkle trees

Here the roots of the all-zero trees are a list that is read by position, a layer is cut into pieces
of two, and the capacity of a tree is a shifted bit. The only thing that trees ask of their
surroundings is a depth below 64; valid parameters give one.
-/

namespace ColumnSampling

open Guarded

namespace Merkle

section Zeros

def zeroRoot (height : ℕ) : Root := (fun below => hashPair below below)^[height] (.zero 32)

theorem zeroRoot_succ (height : ℕ) :
    zeroRoot (height + 1) = hashPair (zeroRoot height) (zeroRoot height) :=
  Function.iterate_succ_apply' _ _ _

theorem zeroRootsFrom_zeroRoot (height count : ℕ) :
    zeroRootsFrom (zeroRoot height) count = (List.range' height count).map zeroRoot := by
  induction count generalizing height with
  | zero => rfl
  | succ count ih => rw [zeroRootsFrom, ← zeroRoot_succ, ih, List.range'_succ, List.map_cons]

theorem zeroRoots_eq_map (depth : ℕ) :
    zeroRoots depth = (List.range (depth + 1)).map zeroRoot := by
  rw [List.range_eq_range']
  exact zeroRootsFrom_zeroRoot 0 (depth + 1)

def zeroRootsGuarded (depth : ℕ) : Guarded (List Root) :=
  (List.range depth).foldlM (fun roots height => do
    let below ← pick roots height
    return roots ++ [hashPair below below]) [.zero 32]

theorem zeroRootsGuarded_eq (depth : ℕ) : zeroRootsGuarded depth = .ok (zeroRoots depth) := by
  rw [zeroRoots_eq_map]
  induction depth with
  | zero => rfl
  | succ depth ih =>
    have hlast : ((List.range (depth + 1)).map zeroRoot)[depth]? = some (zeroRoot depth) := by simp
    rw [zeroRootsGuarded, List.range_succ, List.foldlM_append, ← zeroRootsGuarded, ih, ok_bind,
      List.foldlM_cons, pick_of_getElem? hlast, ok_bind, ← zeroRoot_succ,
      List.range_succ (n := depth + 1), List.map_append]
    rfl

end Zeros

section Climb

/-- A layer in pieces of two; the last piece may be a single node. -/
def pieces : List Root → List (List Root)
  | [] => []
  | [last] => [[last]]
  | left :: right :: rest => [left, right] :: pieces rest

def pairUpGuarded (zero : Root) (layer : List Root) : Guarded (List Root) :=
  (pieces layer).mapM fun piece => do
    let left ← pick piece 0
    return hashPair left (piece.getD 1 zero)

theorem pairUpGuarded_eq (zero : Root) (layer : List Root) :
    pairUpGuarded zero layer = .ok (pairUp zero layer) := by
  induction layer using pieces.induct with
  | case1 => rfl
  | case2 last => rfl
  | case3 left right rest ih =>
    rw [pairUpGuarded] at ih ⊢
    rw [pieces, List.mapM_cons, ih]
    rfl

/-- The uppermost layer, and the siblings on the way there; one zero node for each layer. -/
def ascend : (zeros : List Root) → (layer : List Root) → (position : ℕ) →
    Guarded (List Root × List Root)
  | [], layer, _ => .ok (layer, [])
  | zero :: zeros, layer, position => do
    let above ← pairUpGuarded zero layer
    let (top, siblings) ← ascend zeros above (position / 2)
    return (top, layer.getD (sibling position) zero :: siblings)

theorem exists_ascend (depth height : ℕ) (layer : List Root) (position : ℕ) : ∃ top siblings,
    ascend ((List.range' height depth).map zeroRoot) layer position = .ok (top, siblings) ∧
      climb depth (zeroRoot height) layer position =
        (top.headD (zeroRoot (height + depth)), siblings) := by
  -- Above each layer the zero nodes are those of the next height on.
  induction depth generalizing height layer position with
  | zero => exact ⟨layer, [], rfl, rfl⟩
  | succ depth ih =>
    obtain ⟨top, siblings, hascend, hclimb⟩ :=
      ih (height + 1) (pairUp (zeroRoot height) layer) (position / 2)
    refine ⟨top, layer.getD (sibling position) (zeroRoot height) :: siblings, ?_, ?_⟩
    · rw [List.range'_succ, List.map_cons, ascend, pairUpGuarded_eq, ok_bind, hascend]
      rfl
    · rw [climb, ← zeroRoot_succ, hclimb, Nat.add_right_comm, Nat.add_assoc]

def rootAndBranchGuarded (leaves : List Root) (depth index : ℕ) :
    Guarded (Root × List Root) := do
  let zeros ← zeroRootsGuarded depth
  let (top, siblings) ← ascend (zeros.take depth) leaves index
  let zero ← pick zeros depth
  return (top.headD zero, siblings)

theorem rootAndBranchGuarded_eq (leaves : List Root) (depth index : ℕ) :
    rootAndBranchGuarded leaves depth index = .ok (rootAndBranch leaves depth index) := by
  obtain ⟨top, siblings, hascend, hclimb⟩ := exists_ascend depth 0 leaves index
  have hlower : (zeroRoots depth).take depth = (List.range' 0 depth).map zeroRoot := by
    rw [zeroRoots_eq_map, ← List.map_take, List.take_range, List.range_eq_range']
    simp
  have htop : (zeroRoots depth)[depth]? = some (zeroRoot depth) := by
    simp [zeroRoots_eq_map]
  rw [rootAndBranchGuarded, zeroRootsGuarded_eq, ok_bind, hlower, hascend, ok_bind]
  simp only [pick_of_getElem? htop, ok_bind]
  rw [rootAndBranch]
  exact congrArg Except.ok (hclimb.trans (by rw [Nat.zero_add])).symm

end Climb

end Merkle

namespace Parameters

/-- The depth as the position of the only bit of a power of two, which must be a word. -/
def commitmentsTreeDepthGuarded (p : Parameters) : Guarded ℕ := do
  let capacity ← word (2 ^ p.commitmentsTreeDepth)
  return capacity.log2

variable {p : Parameters}

theorem commitmentsTreeDepthGuarded_of_lt (h : p.commitmentsTreeDepth < 64) :
    p.commitmentsTreeDepthGuarded = .ok p.commitmentsTreeDepth := by
  have hword : 2 ^ p.commitmentsTreeDepth < 2 ^ 64 := Nat.pow_lt_pow_right one_lt_two h
  rw [commitmentsTreeDepthGuarded, word_of_lt hword, ok_bind, Nat.log2_two_pow]
  rfl

namespace Valid

variable (valid : p.Valid)

include valid

theorem commitmentsTreeDepth_lt : p.commitmentsTreeDepth < 64 := by
  have h := p.maxCommitmentsPerBlock.toNat_lt
  rw [valid.maxCommitments_eq] at h
  exact (Nat.pow_lt_pow_iff_right (by decide)).mp h

theorem commitmentsTreeDepthGuarded_eq :
    p.commitmentsTreeDepthGuarded = .ok p.commitmentsTreeDepth :=
  commitmentsTreeDepthGuarded_of_lt valid.commitmentsTreeDepth_lt

end Valid

end Parameters

section Depth

variable {depth : ℕ} (hdepth : depth < 64)

namespace Commitment

def leavesGuarded (commitments : List Commitment) (depth : ℕ) :
    Guarded (Except MerkleError (List Root)) := do
  let capacity ← shift depth
  if commitments.length ≤ capacity then return .ok (commitments.map leaf)
  else return .error (.tooManyCommitments commitments.length depth capacity)

def listRootGuarded (commitments : List Commitment) (depth : ℕ) :
    Guarded (Except MerkleError Root) :=
  andThen (leavesGuarded commitments depth) fun nodes => do
    let (root, _) ← Merkle.rootAndBranchGuarded nodes depth 0
    return .ok (hashPair root (Merkle.numberLeaf commitments.length))

def inclusionProofGuarded (commitments : List Commitment) (index depth : ℕ)
    (bodyBranch : List Root) (bodyDepth : ℕ) : Guarded (Except MerkleError (List Root)) :=
  if commitments.isEmpty then .ok (.error .emptyCommitments)
  else if commitments.length ≤ index then
    .ok (.error (.indexOutOfBounds index commitments.length))
  else if bodyBranch.length ≠ bodyDepth then
    .ok (.error (.bodyBranchLength bodyDepth bodyBranch.length))
  else
    andThen (leavesGuarded commitments depth) fun nodes => do
      let (_, branch) ← Merkle.rootAndBranchGuarded nodes depth index
      return .ok (branch ++ Merkle.numberLeaf commitments.length :: bodyBranch)

def checkInclusionGuarded (c : Commitment) (proof : List Root) (index depth bodyDepth : ℕ)
    (bodyRoot : Root) : Guarded Bool :=
  if proof.length = depth + 1 + bodyDepth then do
    let capacity ← shift depth
    if index < capacity then do
      let (lower, upper) ← split proof (depth + 1)
      return Merkle.checkBranch (Merkle.foldBranch c.leaf lower index) upper bodyDepth
        commitmentsFieldIndex bodyRoot
    else return false
  else .ok false

include hdepth

theorem leavesGuarded_eq (commitments : List Commitment) :
    leavesGuarded commitments depth = .ok (leaves commitments depth) := by
  rw [leavesGuarded, shift_of_lt hdepth, ok_bind, leaves, Merkle.capacity, Nat.pow_eq]
  split_ifs <;> rfl

/-- A tree of depth 64 has no capacity that a word could hold. -/
example : leavesGuarded [] 64 = .error (.shift 64) := rfl

theorem listRootGuarded_eq (commitments : List Commitment) :
    listRootGuarded commitments depth = .ok (listRoot commitments depth) := by
  refine andThen_eq (leavesGuarded_eq hdepth commitments) fun nodes _ => ?_
  rw [Merkle.rootAndBranchGuarded_eq]
  rfl

theorem inclusionProofGuarded_eq (commitments : List Commitment) (index : ℕ)
    (bodyBranch : List Root) (bodyDepth : ℕ) :
    inclusionProofGuarded commitments index depth bodyBranch bodyDepth =
      .ok (inclusionProof commitments index depth bodyBranch bodyDepth) := by
  unfold inclusionProofGuarded inclusionProof
  split_ifs
  · rfl
  · rfl
  · rfl
  · refine andThen_eq (leavesGuarded_eq hdepth commitments) fun nodes _ => ?_
    rw [Merkle.rootAndBranchGuarded_eq]
    rfl

theorem checkInclusionGuarded_eq (c : Commitment) (proof : List Root) (index bodyDepth : ℕ)
    (bodyRoot : Root) : checkInclusionGuarded c proof index depth bodyDepth bodyRoot =
      .ok (checkInclusion c proof index depth bodyDepth bodyRoot) := by
  unfold checkInclusionGuarded checkInclusion
  by_cases hlength : proof.length = depth + 1 + bodyDepth
  · rw [if_pos hlength, shift_of_lt hdepth, ok_bind]
    by_cases hindex : index < 2 ^ depth
    · rw [if_pos hindex, split_of_le (by omega), ok_bind]
      simp [hlength, Merkle.capacity, hindex, pure, Except.pure]
    · rw [if_neg hindex]
      simp [Merkle.capacity, hindex, pure, Except.pure]
  · simp [hlength]

end Commitment

namespace Body

def leavesGuarded (b : Body) (depth : ℕ) : Guarded (Except MerkleError (List Root)) :=
  andThen (Commitment.listRootGuarded b.commitments depth) fun list =>
    return .ok [b.randaoReveal.root, b.roots.eth1Data, b.roots.graffiti,
      b.roots.proposerSlashings, b.roots.attesterSlashings, b.roots.attestations,
      b.roots.deposits, b.roots.voluntaryExits, b.roots.syncAggregate, b.roots.executionPayload,
      b.roots.blsToExecutionChanges, list, b.roots.executionRequests]

def rootGuarded (b : Body) (depth : ℕ) : Guarded (Except MerkleError Root) :=
  andThen (b.leavesGuarded depth) fun nodes => do
    let (root, _) ← Merkle.rootAndBranchGuarded nodes blockBodyTreeDepth 0
    return .ok root

def commitmentsBranchGuarded (b : Body) (depth : ℕ) : Guarded (Except MerkleError (List Root)) :=
  andThen (b.leavesGuarded depth) fun nodes => do
    let (_, branch) ←
      Merkle.rootAndBranchGuarded nodes blockBodyTreeDepth commitmentsFieldIndex
    return .ok branch

include hdepth

theorem leavesGuarded_eq (b : Body) : b.leavesGuarded depth = .ok (b.leaves depth) :=
  andThen_eq (Commitment.listRootGuarded_eq hdepth b.commitments) fun _ _ => rfl

theorem rootGuarded_eq (b : Body) : b.rootGuarded depth = .ok (b.root depth) := by
  refine andThen_eq (b.leavesGuarded_eq hdepth) fun nodes _ => ?_
  rw [Merkle.rootAndBranchGuarded_eq]
  rfl

theorem commitmentsBranchGuarded_eq (b : Body) :
    b.commitmentsBranchGuarded depth = .ok (b.commitmentsBranch depth) := by
  refine andThen_eq (b.leavesGuarded_eq hdepth) fun nodes _ => ?_
  rw [Merkle.rootAndBranchGuarded_eq]
  rfl

end Body

def Block.headerGuarded (b : Block) (depth : ℕ) : Guarded (Except MerkleError Header) :=
  andThen (b.body.rootGuarded depth) fun bodyRoot =>
    return .ok { slot := b.slot, proposerIndex := b.proposerIndex, parentRoot := b.parentRoot,
                 stateRoot := b.stateRoot, bodyRoot := bodyRoot }

def SignedBlock.headerGuarded (b : SignedBlock) (depth : ℕ) :
    Guarded (Except MerkleError SignedHeader) :=
  andThen (b.message.headerGuarded depth) fun message =>
    return .ok { message := message, signature := b.signature }

include hdepth

theorem Block.headerGuarded_eq (b : Block) : b.headerGuarded depth = .ok (b.header depth) :=
  andThen_eq (b.body.rootGuarded_eq hdepth) fun _ _ => rfl

theorem SignedBlock.headerGuarded_eq (b : SignedBlock) :
    b.headerGuarded depth = .ok (b.header depth) :=
  andThen_eq (b.message.headerGuarded_eq hdepth) fun _ _ => rfl

end Depth

end ColumnSampling
