import ColumnSampling.Proofs.Column.RoundTrip
import ColumnSampling.Proofs.Inclusion

/-!
# What is decoded can be verified again

Decoding trusts that its columns passed verification, not that anybody built them honestly. The
gates alone make sure that the lists of a column are equally long and that its branch leads from its
list of commitments to the body that its header names. So every row has its commitment, the tree
holds the list, and the branch can be continued from each commitment: whatever decoding gives passes
the check of its inclusion proof, and building that proof never fails.
-/

namespace ColumnSampling

variable {kzg : KzgBackend} {p : Parameters}

/-- A column that verification under the parameters handed out, with whatever backend. -/
def VerifiedColumn.HandedOut (p : Parameters) (v : VerifiedColumn) : Prop :=
  ∃ kzg batch verified, Verification.verify kzg batch p = .ok verified ∧ v ∈ verified

/-- A rebuilt blob is row `row` of the last columns, and carries what verifies it. -/
structure BlobSidecar.Rebuilt (s : BlobSidecar) (kzg : KzgBackend) (p : Parameters)
    (sidecars : List VerifiedColumn) (first : VerifiedColumn) (row : ℕ) : Prop where
  index_eq : s.index.toNat = row
  /-- The cells of the row in the first half of the columns, joined. -/
  data_eq : ∃ cells, s.blob.data = Cell.join cells ∧
    List.Forall₂ (fun c cell => ∃ v, Decoding.lastOf sidecars c = some v ∧
      v.sidecar.cells[row]? = some cell) (List.range 64) cells
  commitment_eq : first.sidecar.commitments[row]? = some s.commitment
  proof_eq : kzg.blobProof s.blob s.commitment = .ok s.proof
  header_eq : s.header = first.header
  included : s.commitment.checkInclusion s.inclusionProof s.index.toNat p.commitmentsTreeDepth
    blockBodyTreeDepth s.header.message.bodyRoot = true

def KzgBackend.credulous : KzgBackend :=
  { KzgBackend.zeros with verifyCells := fun _ _ _ _ => .ok true }

/-- Cells that are not those of the blob of zeros, with its proofs. -/
def ExtendedBlob.forged : ExtendedBlob where
  cells := List.replicate 128 ⟨⟨Array.replicate bytesPerCell 1⟩⟩
  proofs := List.replicate 128 Commitment.infinity
  length_eq := by simp

theorem ExtendedBlob.length_forged : ∀ row ∈ [forged], row.length = 128 := by
  simp [forged, length]

theorem ExtendedBlob.cell_forged {c : ℕ} (hc : c < 128) :
    forged.cell c = ⟨⟨Array.replicate bytesPerCell 1⟩⟩ := by
  rw [cell, forged, List.getD_eq_getElem?_getD, List.getElem?_replicate_of_lt hc, Option.getD_some]

theorem Blob.data_of_ofBytes {data : ByteArray} {blob : Blob} (h : ofBytes data = .ok blob) :
    blob.data = data := by
  unfold ofBytes at h
  split_ifs at h
  cases h
  rfl

namespace VerifiedColumn.HandedOut

variable {v : VerifiedColumn}

theorem checks (h : v.HandedOut p) :
    v.sidecar.checkStructure p = .ok () ∧ v.sidecar.checkInclusion p = .ok () := by
  obtain ⟨kzg, batch, verified, hverify, hv⟩ := h
  obtain ⟨hgates, -, -⟩ := Verification.verify_eq_ok.mp hverify
  have hmem : v.sidecar ∈ batch := by
    rw [← Verification.map_sidecar_of_verify hverify]
    exact List.mem_map_of_mem hv
  exact Verification.checkSidecar_eq_ok.mp (hgates _ hmem)

variable (valid : p.Valid) (h : v.HandedOut p) {row : ℕ}

include valid h

theorem exists_listRoot :
    ∃ list, Commitment.listRoot v.sidecar.commitments p.commitmentsTreeDepth = .ok list ∧
      v.sidecar.inclusionProof.length = blockBodyTreeDepth ∧
      Merkle.foldBranch list v.sidecar.inclusionProof commitmentsFieldIndex =
        v.header.message.bodyRoot :=
  (ColumnSidecar.checkInclusion_eq_ok valid v.header_eq).mp h.checks.2

theorem length_commitments_le : v.sidecar.commitments.length ≤ p.maxCommitmentsPerBlock.toNat := by
  obtain ⟨list, hlist, -⟩ := h.exists_listRoot valid
  obtain ⟨fits, -⟩ := Commitment.listRoot_eq_ok.mp hlist
  exact fits.trans_eq valid.maxCommitments_eq.symm

theorem exists_inclusionProof (hrow : row < v.blobCount) :
    ∃ commitment nodes, v.sidecar.commitments[row]? = some commitment ∧
      Commitment.inclusionProof v.sidecar.commitments row p.commitmentsTreeDepth
        v.sidecar.inclusionProof blockBodyTreeDepth = .ok nodes ∧
      commitment.checkInclusion nodes row p.commitmentsTreeDepth blockBodyTreeDepth
        v.header.message.bodyRoot = true := by
  obtain ⟨list, hlist, hlength, hbody⟩ := h.exists_listRoot valid
  obtain ⟨fits, -⟩ := Commitment.listRoot_eq_ok.mp hlist
  have hc : row < v.sidecar.commitments.length := hrow.trans_eq v.length_commitments.symm
  have hcommitment := List.getElem?_eq_getElem hc
  have hproof := Commitment.inclusionProof_of_fits fits hc hlength
  exact ⟨_, _, hcommitment, hproof,
    Commitment.checkInclusion_inclusionProof hcommitment hlist hproof hlength hbody⟩

end VerifiedColumn.HandedOut

namespace Decoding

variable {sidecars : List VerifiedColumn} {indices : List ℕ} {first : VerifiedColumn} {row : ℕ}

theorem forall₂_cells {columns : List ℕ}
    (found : ∀ c ∈ columns, ∃ v, lastOf sidecars c = some v ∧ row < v.blobCount) :
    List.Forall₂ (fun c cell => ∃ v, lastOf sidecars c = some v ∧
        v.sidecar.cells[row]? = some cell) columns
      ((columns.filterMap (lastOf sidecars)).map fun v => v.sidecar.cells[row]?.getD default) := by
  rw [List.forall₂_map_right_iff]
  apply forall₂_filterMap
  intro c hc
  obtain ⟨v, hv, hrow⟩ := found c hc
  have hlt : row < v.sidecar.cells.length := hrow
  refine ⟨v, hv, v, hv, ?_⟩
  rw [List.getElem?_eq_getElem hlt, Option.getD_some]

theorem exists_lastOf (hmissing : missingColumns sidecars p = [])
    (same : ∀ v ∈ distinct sidecars, first.SameBlock v) (hrow : row < first.blobCount) {c : ℕ}
    (hc : c < p.columnsForRecovery) : ∃ v, lastOf sidecars c = some v ∧ row < v.blobCount := by
  obtain ⟨v, hv⟩ := missingColumns_eq_nil.mp hmissing c hc
  obtain ⟨hmem, rfl⟩ := lastOf_eq_some hv
  have hblock := same v (mem_distinct.mpr ⟨hmem, hv⟩)
  exact ⟨v, hv, hrow.trans_eq hblock.blobCount_eq⟩

section BlobSidecar

variable (valid : p.Valid) (hfirst : first.HandedOut p) (hrow : row < first.blobCount)

include valid hfirst hrow

/-- With a verified first column, only the bytes of the row and the backend can fail. -/
theorem blobSidecar_ne_block {columns : List VerifiedColumn} (cause : MerkleError) :
    blobSidecar kzg p first columns row ≠ .error (.validation (.block cause)) := by
  obtain ⟨commitment, nodes, hcommitment, hnodes, -⟩ := hfirst.exists_inclusionProof valid hrow
  unfold blobSidecar
  simp only [hcommitment, hnodes]
  split
  · simp
  · split <;> simp

theorem rebuilt_of_blobSidecar {s : BlobSidecar} (hmissing : missingColumns sidecars p = [])
    (same : ∀ v ∈ distinct sidecars, first.SameBlock v)
    (h : blobSidecar kzg p first ((List.range 64).filterMap (lastOf sidecars)) row = .ok s) :
    s.Rebuilt kzg p sidecars first row := by
  obtain ⟨hindex, hblob, hcommitment, hproof, hheader, hnodes⟩ := blobSidecar_eq_ok.mp h
  have hdata : s.blob.data = rowData ((List.range 64).filterMap (lastOf sidecars)) row :=
    Blob.data_of_ofBytes hblob
  have found : ∀ c ∈ List.range 64, ∃ v, lastOf sidecars c = some v ∧ row < v.blobCount := by
    intro c hc
    refine exists_lastOf hmissing same hrow ?_
    rw [valid.columnsForRecovery_eq_64]
    exact List.mem_range.mp hc
  have hsmall : row < 2 ^ 64 := by
    have hcommitments : row < first.sidecar.commitments.length :=
      hrow.trans_eq first.length_commitments.symm
    exact (hcommitments.trans_le (hfirst.length_commitments_le valid)).trans
      p.maxCommitmentsPerBlock.toNat_lt
  have hrow' : s.index.toNat = row := by
    rw [hindex]
    exact Nat.mod_eq_of_lt hsmall
  -- The row has one commitment and one proof, which are those of the result.
  obtain ⟨commitment, nodes, hcommitment', hnodes', hincluded⟩ :=
    hfirst.exists_inclusionProof valid hrow
  obtain rfl := Option.some.inj (hcommitment.symm.trans hcommitment')
  obtain rfl := Except.ok.inj (hnodes.symm.trans hnodes')
  exact ⟨hrow', ⟨_, hdata.trans (rowData_eq_join _ _), forall₂_cells found⟩, hcommitment, hproof,
    hheader, by rwa [hrow', hheader]⟩

end BlobSidecar

theorem forM_sameBlock_ne_block {columns : List VerifiedColumn} (cause : MerkleError) :
    columns.forM first.sameBlock ≠ .error (.block cause) := by
  intro h
  obtain ⟨-, v, -, -, -, hv⟩ := Outcome.forM_eq_error.mp h
  unfold VerifiedColumn.sameBlock at hv
  split_ifs at hv <;> cases hv

section Forged

/-- Columns with forged cells are handed out, as long as nobody looks at the proofs. -/
theorem exists_verify_forged : ∃ shared columns,
    Verification.verify .credulous ((List.range 64).map (Encoding.column shared [.forged])) {} =
      .ok columns := by
  obtain ⟨block, shared, -, honest⟩ := Encoding.exists_honest_zeros 0
  have rect := ExtendedBlob.length_forged
  have hcommitments : shared.commitments.length = 1 := by
    rw [honest.commitments_eq, honest.length_commitments]
    rfl
  refine ⟨shared, Verification.exists_verify ?_ (Verification.checkProofs_of_openings rfl)⟩
  intro s hs
  obtain ⟨c, hc, rfl⟩ := List.mem_map.mp hs
  have hlt : c < 128 := (List.mem_range.mp hc).trans (by decide)
  -- Of the first two gates only the lengths of the lists look at the cells.
  have hhonest := honest.checkSidecar_column Parameters.valid_default (by simp) hlt
  rw [Verification.checkSidecar_eq_ok, ColumnSidecar.checkStructure_eq_ok] at hhonest ⊢
  obtain ⟨⟨hindex, hne, -, -⟩, hinclusion⟩ := hhonest
  refine ⟨⟨hindex, hne, ?_, ?_⟩, hinclusion⟩
  · rw [Encoding.column_cells rect hlt]
    exact hcommitments.symm
  · rw [Encoding.column_proofs rect hlt]
    exact hcommitments.symm

theorem exists_handedOut_forged : ∃ shared columns,
    Encoding.TakenFrom shared [.forged] 128 columns ∧ columns.map (·.index) = List.range 64 ∧
      ∀ v ∈ columns, v.HandedOut {} := by
  obtain ⟨shared, columns, hverify⟩ := exists_verify_forged
  have hsidecars := Verification.map_sidecar_of_verify hverify
  have hbelow : ∀ c ∈ List.range 64, c < 128 := fun c hc =>
    (List.mem_range.mp hc).trans (by decide)
  exact ⟨shared, columns, Encoding.takenFrom_of_map (by decide) hbelow hsidecars,
    Encoding.map_index_of_map (by decide) hbelow hsidecars, fun v hv => ⟨_, _, _, hverify, hv⟩⟩

theorem exists_blobs_forged : ∃ (columns : List VerifiedColumn) (s : BlobSidecar),
    (∀ v ∈ columns, v.HandedOut {}) ∧ (∀ v ∈ columns, v.blobCount = 1) ∧
      blobs .credulous columns [3, 0] {} = .ok [s] ∧
      s.blob = ⟨⟨Array.replicate bytesPerBlob 1⟩⟩ := by
  have valid := Parameters.valid_default
  obtain ⟨shared, columns, taken, hindices, handed⟩ := exists_handedOut_forged
  have rect := ExtendedBlob.length_forged
  have hcount : ∀ v ∈ columns, v.blobCount = 1 := fun v hv => taken.blobCount_eq rect hv
  have hmissing : missingColumns columns {} = [] := by
    rw [missingColumns_eq valid.columnsForRecovery_eq_64 hindices]
    simp
  have covered : ∀ c < 64, ∃ v, lastOf columns c = some v := missingColumns_eq_nil.mp hmissing
  obtain ⟨first, hlast⟩ := covered 0 (by decide)
  obtain ⟨hfirst, -⟩ := lastOf_eq_some hlast
  have hdata : rowData ((List.range 64).filterMap (lastOf columns)) 0 =
      ⟨Array.replicate bytesPerBlob 1⟩ := by
    have present := fun c hc => Option.isSome_iff_exists.mpr (covered c hc)
    rw [rowData_of_taken taken rect (by decide) present (by decide)]
    exact Cell.join_replicate 64 bytesPerCell 1
  have hblob : Blob.ofBytes ⟨Array.replicate bytesPerBlob 1⟩ =
      .ok ⟨⟨Array.replicate bytesPerBlob 1⟩⟩ := if_pos Array.size_replicate
  obtain ⟨commitment, nodes, hcommitment, hnodes, -⟩ :=
    (handed first hfirst).exists_inclusionProof valid (hcount first hfirst ▸ Nat.zero_lt_one)
  refine ⟨columns, ⟨0, _, commitment, Commitment.infinity, first.header, nodes⟩, handed, hcount,
    ?_, rfl⟩
  rw [blobs_eq_ok hmissing (by decide) hlast, hcount first hfirst]
  refine ⟨fun v hv => taken.sameBlock rect hfirst (mem_distinct.mp hv).1,
    Outcome.mapM_eq_ok.mpr (.cons ?_ .nil)⟩
  rw [valid.columnsForRecovery_eq_64, blobSidecar_eq_ok, hdata]
  exact ⟨rfl, hblob, hcommitment, rfl, rfl, hnodes⟩

end Forged

/--
Whatever is decoded from verified columns can be verified again, whoever built the columns. The
results are the blobs asked for in their order: each joins its row of the last columns, and has the
commitment and the header of column zero, a proof of the backend for exactly these two, and a branch
that passes the check against that header. Decoding never fails over a merkle tree.
-/
theorem blobs_rebuilt_of_handedOut (accepted : p.check = .ok ()) (kzg : KzgBackend)
    (handed : ∀ v ∈ sidecars, v.HandedOut p) (indices : List ℕ) :
    (∀ decoded, blobs kzg sidecars indices p = .ok decoded →
      ∃ first, lastOf sidecars 0 = some first ∧
        List.Forall₂ (fun row s => BlobSidecar.Rebuilt s kzg p sidecars first row)
          (if indices = [] then List.range first.blobCount
            else indices.filter (· < first.blobCount)) decoded) ∧
    ∀ cause, blobs kzg sidecars indices p ≠ .error (.validation (.block cause)) := by
  have valid := Parameters.valid_of_check accepted
  have hhalf := valid.columnsForRecovery_eq_64
  have hpos : 0 < p.columnsForRecovery := by omega
  by_cases hmissing : missingColumns sidecars p = []
  · obtain ⟨first, hlast⟩ := missingColumns_eq_nil.mp hmissing 0 hpos
    have hfirst : first.HandedOut p := handed first (lastOf_eq_some hlast).1
    constructor
    · -- Each row asked for exists in column zero, so its result carries what verifies it.
      intro decoded h
      obtain ⟨same, hrows⟩ := (blobs_eq_ok hmissing hpos hlast).mp h
      have hrequested : requestedRows indices first.blobCount =
          if indices = [] then List.range first.blobCount
          else indices.filter (· < first.blobCount) := by
        simp only [requestedRows, List.isEmpty_iff]
      rw [hhalf, Outcome.mapM_eq_ok] at hrows
      have hbelow : ∀ row ∈ requestedRows indices first.blobCount, row < first.blobCount :=
        fun row hrow => lt_of_mem_requestedRows hrow
      refine ⟨first, hlast, ?_⟩
      rw [← hrequested]
      refine ((List.forall₂_and_left _ _).mpr ⟨hbelow, hrows⟩).imp ?_
      rintro row s ⟨hrow, hs⟩
      exact rebuilt_of_blobSidecar valid hfirst hrow hmissing same hs
    · -- A failure comes from the comparison of blocks or from a row.
      intro cause h
      rw [blobs_of_present hmissing hpos hlast] at h
      cases hblock : (distinct sidecars).forM first.sameBlock with
      | error cause' =>
        rw [hblock] at h
        cases h
        exact forM_sameBlock_ne_block cause hblock
      | ok _ =>
        rw [hblock] at h
        obtain ⟨row, hrow, h⟩ := Outcome.mapM_eq_error h
        exact blobSidecar_ne_block valid hfirst (lt_of_mem_requestedRows hrow) cause h
  · rw [blobs_of_missing hmissing]
    exact ⟨by simp, by simp⟩

/-- A blob that is not of the block has a commitment of the block, and the check of it passes. -/
theorem blobs_rebuilt_of_forged : ∃ (columns : List VerifiedColumn) (s : BlobSidecar),
    (∀ v ∈ columns, v.HandedOut {}) ∧ blobs .credulous columns [3, 0] {} = .ok [s] ∧
      s.blob = ⟨⟨Array.replicate bytesPerBlob 1⟩⟩ ∧
      s.commitment.checkInclusion s.inclusionProof 0 12 blockBodyTreeDepth
        s.header.message.bodyRoot = true := by
  obtain ⟨columns, s, handed, hcount, hdecoded, hblob⟩ := exists_blobs_forged
  obtain ⟨hrebuilt, -⟩ := blobs_rebuilt_of_handedOut rfl .credulous handed [3, 0]
  obtain ⟨first, hlast, hrows⟩ := hrebuilt _ hdecoded
  simp only [hcount first (lastOf_eq_some hlast).1] at hrows
  obtain _ | ⟨hzero, -⟩ := hrows
  have hincluded := hzero.included
  rw [hzero.index_eq] at hincluded
  exact ⟨columns, s, handed, hdecoded, hblob, hincluded⟩

end Decoding

end ColumnSampling
