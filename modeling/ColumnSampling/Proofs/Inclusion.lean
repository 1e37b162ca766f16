import ColumnSampling.Block
import ColumnSampling.Column.Verification
import ColumnSampling.Proofs.Merkle.Branch
import ColumnSampling.Proofs.Merkle.Commitments
import ColumnSampling.Proofs.Parameters

/-!
# Inclusion of the commitments in a block

A sidecar carries the list of commitments of its block and a branch from the root of that list to
the root of the block body. The check of the two accepts what the block itself gives, and, unless
two of the inputs hashed on the way collide, nothing else: a list that is longer, shorter, reordered
or filled up with zeros has another root, and no branch makes up for it.
-/

namespace ColumnSampling

/-- What is hashed for the root of a signature. -/
def Signature.rootInputs (s : Signature) : List ByteArray :=
  let low := s.bytes.extract 0 64
  let high := s.bytes.extract 64 96 ++ (FixedBytes.zero 32).bytes
  [low, high, (Sha256.digest low).bytes ++ (Sha256.digest high).bytes]

namespace Body

variable {b : Body} {depth : ℕ}

/-- What is hashed for the root of a body. -/
def rootInputs (b : Body) (depth : Nat) : List ByteArray :=
  b.randaoReveal.rootInputs ++ Commitment.listInputs b.commitments depth ++
    match b.leaves depth with
    | .error _ => []
    | .ok nodes => Merkle.climbInputs blockBodyTreeDepth (.zero 32) nodes

theorem exists_leaves (fits : b.commitments.length ≤ Merkle.capacity depth) :
    ∃ list nodes, Commitment.listRoot b.commitments depth = .ok list ∧
      b.leaves depth = .ok nodes ∧ nodes.getD commitmentsFieldIndex (.zero 32) = list := by
  have hlist := Commitment.listRoot_eq_ok.mpr ⟨fits, rfl⟩
  exact ⟨_, _, hlist, Outcome.bind_eq_ok.mpr ⟨_, hlist, rfl⟩, rfl⟩

theorem root_of_leaves {nodes : List Root} (h : b.leaves depth = .ok nodes) :
    b.root depth = .ok (Merkle.root nodes blockBodyTreeDepth) :=
  Outcome.bind_eq_ok.mpr ⟨nodes, h, rfl⟩

theorem commitmentsBranch_of_leaves {nodes : List Root} (h : b.leaves depth = .ok nodes) :
    b.commitmentsBranch depth =
      .ok (Merkle.branch nodes blockBodyTreeDepth commitmentsFieldIndex) :=
  Outcome.bind_eq_ok.mpr ⟨nodes, h, rfl⟩

theorem foldBranch_commitments {list : Root} {nodes : List Root}
    (hfield : nodes.getD commitmentsFieldIndex (.zero 32) = list) :
    Merkle.foldBranch list (Merkle.branch nodes blockBodyTreeDepth commitmentsFieldIndex)
      commitmentsFieldIndex = Merkle.root nodes blockBodyTreeDepth := by
  rw [← hfield]
  exact Merkle.foldBranch_branch nodes (by decide)

theorem listInputs_subset : Commitment.listInputs b.commitments depth ⊆ b.rootInputs depth := by
  intro x hx
  simp [rootInputs, hx]

theorem foldInputs_commitments {list : Root} {nodes : List Root}
    (hnodes : b.leaves depth = .ok nodes)
    (hfield : nodes.getD commitmentsFieldIndex (.zero 32) = list) :
    Merkle.foldInputs list (Merkle.branch nodes blockBodyTreeDepth commitmentsFieldIndex)
      commitmentsFieldIndex ⊆ b.rootInputs depth := by
  intro x hx
  rw [← hfield] at hx
  simp [rootInputs, hnodes, Merkle.foldInputs_climb _ _ _ _ hx]

end Body

namespace SignedBlock

variable {b : SignedBlock} {depth : ℕ}

theorem header_eq_ok {header : SignedHeader} : b.header depth = .ok header ↔
    b.message.body.root depth = .ok header.message.bodyRoot ∧
      header.message.slot = b.message.slot ∧
      header.message.proposerIndex = b.message.proposerIndex ∧
      header.message.parentRoot = b.message.parentRoot ∧
      header.message.stateRoot = b.message.stateRoot ∧ header.signature = b.signature := by
  unfold SignedBlock.header Block.header
  simp only [Outcome.bind_eq_ok]
  constructor
  · rintro ⟨_, ⟨root, hroot, hmessage⟩, h⟩
    obtain rfl := Except.ok.inj hmessage
    obtain rfl := Except.ok.inj h
    exact ⟨hroot, rfl, rfl, rfl, rfl, rfl⟩
  · obtain ⟨⟨_, _, _, _, _⟩, _⟩ := header
    rintro ⟨hroot, rfl, rfl, rfl, rfl, rfl⟩
    exact ⟨_, ⟨_, hroot, rfl⟩, rfl⟩

theorem exists_header (fits : b.commitments.length ≤ Merkle.capacity depth) :
    ∃ header, b.header depth = .ok header := by
  obtain ⟨_, nodes, -, hnodes, -⟩ := Body.exists_leaves fits
  obtain ⟨root, hroot⟩ : ∃ root, b.message.body.root depth = .ok root :=
    ⟨_, Body.root_of_leaves hnodes⟩
  refine ⟨⟨⟨b.message.slot, b.message.proposerIndex, b.message.parentRoot, b.message.stateRoot,
    root⟩, b.signature⟩, ?_⟩
  rw [header_eq_ok]
  exact ⟨hroot, rfl, rfl, rfl, rfl, rfl⟩

end SignedBlock

namespace ColumnSidecar

variable {p : Parameters} {s : ColumnSidecar} {header : SignedHeader}

/-- What is hashed to check a sidecar that has a header. -/
def inclusionInputs (s : ColumnSidecar) (p : Parameters) : List ByteArray :=
  Commitment.listInputs s.commitments p.commitmentsTreeDepth ++
    match Commitment.listRoot s.commitments p.commitmentsTreeDepth with
    | .error _ => []
    | .ok list =>
      Merkle.checkInputs list s.inclusionProof p.inclusionProofDepth.toNat commitmentsFieldIndex

theorem checkInclusion_eq_ok (valid : p.Valid) (hheader : s.header = some header) :
    s.checkInclusion p = .ok () ↔
      ∃ list, Commitment.listRoot s.commitments p.commitmentsTreeDepth = .ok list ∧
        s.inclusionProof.length = blockBodyTreeDepth ∧
        Merkle.foldBranch list s.inclusionProof commitmentsFieldIndex =
          header.message.bodyRoot := by
  unfold checkInclusion
  simp only [hheader, valid.rootLength_eq, valid.inclusionProofDepth_eq, ne_eq, not_true_eq_false,
    if_false]
  cases hlist : Commitment.listRoot s.commitments p.commitmentsTreeDepth with
  | error cause => simp
  | ok list => simp [Merkle.checkBranch]

end ColumnSidecar

section Block

variable {p : Parameters} {s : ColumnSidecar} {header : SignedHeader} {body : Body}
  {list : Root} {nodes : List Root}

theorem ColumnSidecar.checkInclusion_of_leaves (valid : p.Valid) (hheader : s.header = some header)
    (hlist : Commitment.listRoot body.commitments p.commitmentsTreeDepth = .ok list)
    (hfield : nodes.getD commitmentsFieldIndex (.zero 32) = list)
    (hroot : header.message.bodyRoot = Merkle.root nodes blockBodyTreeDepth)
    (hcommitments : s.commitments = body.commitments)
    (hbranch : s.inclusionProof = Merkle.branch nodes blockBodyTreeDepth commitmentsFieldIndex) :
    s.checkInclusion p = .ok () := by
  rw [ColumnSidecar.checkInclusion_eq_ok valid hheader]
  refine ⟨list, by rw [hcommitments, hlist], by rw [hbranch, Merkle.length_branch], ?_⟩
  rw [hbranch, hroot]
  exact Body.foldBranch_commitments hfield

theorem ColumnSidecar.eq_of_checkInclusion (valid : p.Valid) (hheader : s.header = some header)
    (hlist : Commitment.listRoot body.commitments p.commitmentsTreeDepth = .ok list)
    (hnodes : body.leaves p.commitmentsTreeDepth = .ok nodes)
    (hfield : nodes.getD commitmentsFieldIndex (.zero 32) = list)
    (hroot : header.message.bodyRoot = Merkle.root nodes blockBodyTreeDepth)
    (free : ¬ Sha256.Collision
      (body.rootInputs p.commitmentsTreeDepth ++ s.inclusionInputs p))
    (accepted : s.checkInclusion p = .ok ()) :
    s.commitments = body.commitments ∧
      s.inclusionProof = Merkle.branch nodes blockBodyTreeDepth commitmentsFieldIndex := by
  set inputs := body.rootInputs p.commitmentsTreeDepth ++ s.inclusionInputs p with hinputs
  obtain ⟨list', hlist', hlength, hfold⟩ :=
    (ColumnSidecar.checkInclusion_eq_ok valid hheader).mp accepted
  -- The block folds its own branch to the same root, and hashes nothing new for it.
  have hown : Merkle.foldBranch list
      (Merkle.branch nodes blockBodyTreeDepth commitmentsFieldIndex) commitmentsFieldIndex =
        header.message.bodyRoot := by
    rw [hroot]
    exact Body.foldBranch_commitments hfield
  have hbody : body.rootInputs p.commitmentsTreeDepth ⊆ inputs := List.subset_append_left _ _
  have hsidecar : Merkle.foldInputs list' s.inclusionProof commitmentsFieldIndex ⊆ inputs := by
    intro x hx
    simp [hinputs, ColumnSidecar.inclusionInputs, hlist', Merkle.checkInputs, hlength,
      valid.inclusionProofDepth_eq, hx]
  have hfolded := List.Subset.trans (Body.foldInputs_commitments hnodes hfield) hbody
  obtain ⟨hroots, hbranches⟩ := Merkle.foldBranch_inj free
    (hlength.trans (Merkle.length_branch nodes _ _).symm) hsidecar hfolded (hfold.trans hown.symm)
  refine ⟨?_, hbranches⟩
  rw [hroots] at hlist'
  refine Commitment.listRoot_inj free valid.capacity_lt hlist' hlist ?_
    (List.Subset.trans body.listInputs_subset hbody)
  intro x hx
  simp [hinputs, ColumnSidecar.inclusionInputs, hx]

/--
The check against the root of a block accepts exactly the commitments of the block with the branch
of the block. That it accepts them needs no assumption.
-/
theorem ColumnSidecar.checkInclusion_iff_of_block (accepted : p.check = .ok ()) (body : Body)
    (fits : body.commitments.length ≤ p.maxCommitmentsPerBlock.toNat) :
    ∃ root branch, body.root p.commitmentsTreeDepth = .ok root ∧
      body.commitmentsBranch p.commitmentsTreeDepth = .ok branch ∧
      ∀ (s : ColumnSidecar) (header : SignedHeader), s.header = some header →
        header.message.bodyRoot = root →
        (s.commitments = body.commitments ∧ s.inclusionProof = branch →
          s.checkInclusion p = .ok ()) ∧
        (¬ Sha256.Collision
            (body.rootInputs p.commitmentsTreeDepth ++ s.inclusionInputs p) →
          s.checkInclusion p = .ok () →
          s.commitments = body.commitments ∧ s.inclusionProof = branch) := by
  have valid := Parameters.valid_of_check accepted
  obtain ⟨list, nodes, hlist, hnodes, hfield⟩ :=
    Body.exists_leaves (fits.trans_eq valid.maxCommitments_eq)
  refine ⟨_, _, Body.root_of_leaves hnodes, Body.commitmentsBranch_of_leaves hnodes, ?_⟩
  intro s header hheader hroot
  constructor
  · rintro ⟨hcommitments, hbranch⟩
    exact checkInclusion_of_leaves valid hheader hlist hfield hroot hcommitments hbranch
  · intro free hs
    exact eq_of_checkInclusion valid hheader hlist hnodes hfield hroot free hs

/-- Of three commitments, a sidecar that lists them passes and one that permutes them fails. -/
theorem ColumnSidecar.checkInclusion_of_three_commitments :
    ∃ (body : Body) (root : Root), body.root 12 = .ok root ∧
      (∃ s : ColumnSidecar, s.commitments = [.replicate 48 1, .replicate 48 2, .replicate 48 3] ∧
        s.checkInclusion {} = .ok ()) ∧
      ∀ (s : ColumnSidecar) (header : SignedHeader), s.header = some header →
        header.message.bodyRoot = root →
        s.commitments = [.replicate 48 2, .replicate 48 1, .replicate 48 3] →
        ¬ Sha256.Collision (body.rootInputs 12 ++ s.inclusionInputs {}) →
        s.checkInclusion {} ≠ .ok () := by
  let body : Body :=
    { commitments := [.replicate 48 1, .replicate 48 2, .replicate 48 3] }
  obtain ⟨root, branch, hroot, hbranch, h⟩ :=
    ColumnSidecar.checkInclusion_iff_of_block (p := {}) rfl body (by decide)
  refine ⟨body, root, hroot, ?_, ?_⟩
  · let header : SignedHeader := { message := { bodyRoot := root } }
    let s : ColumnSidecar :=
      { (default : ColumnSidecar) with
        commitments := body.commitments, header := some header, inclusionProof := branch }
    exact ⟨s, rfl, (h s header rfl rfl).1 ⟨rfl, rfl⟩⟩
  · intro s header hheader hbody hpermuted free hs
    obtain ⟨hcommitments, -⟩ := (h s header hheader hbody).2 free hs
    rw [hpermuted] at hcommitments
    exact absurd hcommitments (by decide)

end Block

end ColumnSampling
