import ColumnSampling.Proofs.Column.Matrix
import ColumnSampling.Proofs.Inclusion

/-!
# Columns of an honest block

A block is honest if its commitments are those of its blobs and its rows are what the backend makes
of them. Every choice of its columns passes verification by a backend that stands by its own cells:
the lists fit together, the commitments are those of the body, and each opening is one that the
backend itself computed.
-/

namespace ColumnSampling

/-- The bytes of some cells, one after the other. -/
def Cell.join (cells : List Cell) : ByteArray := cells.foldl (fun data c => data ++ c.data) .empty

/-- The commitment of one of the blobs, and a cell of it with its column and its proof. -/
def ColumnSidecar.Opening.Honest (kzg : KzgBackend) (blobs : List Blob)
    (o : ColumnSidecar.Opening) : Prop :=
  ∃ b ∈ blobs, ∃ row, kzg.extend b = .ok row ∧ kzg.commit b = .ok o.commitment ∧
    row.cells[o.column]? = some o.cell ∧ row.proofs[o.column]? = some o.proof

/-- The backend extends the blobs, stands by its own cells, and proves the blobs. -/
structure KzgBackend.Serves (kzg : KzgBackend) (blobs : List Blob) : Prop where
  extend_ok : ∀ b ∈ blobs, ∃ row, kzg.extend b = .ok row ∧ row.length = 128 ∧
    Cell.join (row.cells.take 64) = b.data
  verify_ok : ∀ openings : List ColumnSidecar.Opening, (∀ o ∈ openings, o.Honest kzg blobs) →
    kzg.verifyCells (openings.map (·.commitment)) (openings.map (·.column))
      (openings.map (·.cell)) (openings.map (·.proof)) = .ok true
  blobProof_ok : ∀ b ∈ blobs, ∀ c, kzg.commit b = .ok c → ∃ proof, kzg.blobProof b c = .ok proof

section Zeros

def Blob.zeros : Blob := ⟨⟨Array.replicate bytesPerBlob 0⟩⟩

theorem Blob.size_zeros : Blob.zeros.data.size = bytesPerBlob := Array.size_replicate

def Cell.zeros : Cell := ⟨⟨Array.replicate bytesPerCell 0⟩⟩

/-- The point at infinity in compressed form. -/
def Commitment.infinity : Commitment := .ofList (0xc0 :: List.replicate 47 0) (by simp)

def ExtendedBlob.zeros : ExtendedBlob where
  cells := List.replicate 128 .zeros
  proofs := List.replicate 128 Commitment.infinity
  length_eq := by simp

/--
A backend for the blob of zeros alone. Its polynomial is zero, so its cells are zeros too, and all
group elements about it are the point at infinity.
-/
def KzgBackend.zeros : KzgBackend where
  commit _ := .ok .infinity
  cells _ := .ok ExtendedBlob.zeros.cells
  blobProof _ _ := .ok Commitment.infinity
  extend _ := .ok .zeros
  verifyCells _ _ cells _ := .ok (cells.all (· = .zeros))
  recover _ _ := .ok .zeros

theorem Cell.join_replicate (k m : ℕ) (byte : UInt8) :
    Cell.join (List.replicate k ⟨⟨Array.replicate m byte⟩⟩) = ⟨Array.replicate (k * m) byte⟩ := by
  induction k with
  | zero =>
    rw [Nat.zero_mul, Array.replicate_zero]
    rfl
  | succ k ih =>
    rw [Cell.join] at ih ⊢
    rw [List.replicate_succ', List.foldl_append, ih, List.foldl_cons, List.foldl_nil]
    apply ByteArray.ext
    rw [ByteArray.data_append, Array.replicate_append_replicate, Nat.succ_mul]

theorem KzgBackend.serves_zeros {blobs : List Blob} (h : ∀ b ∈ blobs, b = .zeros) :
    KzgBackend.zeros.Serves blobs where
  extend_ok b hb := by
    refine ⟨.zeros, rfl, by simp [ExtendedBlob.zeros, ExtendedBlob.length], ?_⟩
    rw [h b hb, ExtendedBlob.zeros, List.take_replicate]
    exact Cell.join_replicate 64 bytesPerCell 0
  verify_ok openings honest := by
    have hzeros : ∀ o ∈ openings, o.cell = .zeros := by
      intro o ho
      obtain ⟨_, _, row, hrow, -, hcell, -⟩ := honest o ho
      obtain rfl := Except.ok.inj hrow
      exact List.eq_of_mem_replicate (List.mem_of_getElem? hcell)
    have hall : (openings.map (·.cell)).all (· = .zeros) = true := by
      simpa using hzeros
    exact congrArg Except.ok hall
  blobProof_ok _ _ _ _ := ⟨_, rfl⟩

end Zeros

namespace Encoding

variable {kzg : KzgBackend} {p : Parameters} {block : SignedBlock} {blobs : List Blob}
  {rows : List ExtendedBlob} {shared : Shared}

theorem exists_sharedOf {depth : ℕ} (fits : block.commitments.length ≤ Merkle.capacity depth) :
    ∃ shared, sharedOf block depth = .ok shared := by
  obtain ⟨_, nodes, -, hnodes, -⟩ := Body.exists_leaves fits
  obtain ⟨header, hheader⟩ := SignedBlock.exists_header fits
  exact ⟨⟨block.commitments, _, header⟩,
    sharedOf_eq_ok.mpr ⟨Body.commitmentsBranch_of_leaves hnodes, hheader, rfl⟩⟩

/-- The rows of the blobs of a block, and what its columns share. -/
structure Honest (kzg : KzgBackend) (p : Parameters) (block : SignedBlock) (blobs : List Blob)
    (rows : List ExtendedBlob) (shared : Shared) : Prop where
  fits : block.commitments.length ≤ p.maxCommitmentsPerBlock.toNat
  committed : List.Forall₂ (fun b c => kzg.commit b = .ok c) blobs block.commitments
  extended : List.Forall₂ (fun b row => kzg.extend b = .ok row) blobs rows
  rect : ∀ row ∈ rows, row.length = 128
  sharedOf_eq : sharedOf block p.commitmentsTreeDepth = .ok shared

theorem exists_honest (valid : p.Valid) (serves : kzg.Serves blobs)
    (committed : blobs.mapM kzg.commit = .ok block.commitments)
    (fits : block.commitments.length ≤ p.maxCommitmentsPerBlock.toNat) :
    ∃ rows shared, Honest kzg p block blobs rows shared := by
  have hextend : ∀ b ∈ blobs, ∃ row, kzg.extend b = .ok row ∧ row.length = 128 := by
    intro b hb
    obtain ⟨row, hrow, hlength, -⟩ := serves.extend_ok b hb
    exact ⟨row, hrow, hlength⟩
  obtain ⟨rows, hrows, hlengths⟩ := Outcome.exists_mapM_ok hextend
  obtain ⟨shared, hshared⟩ := exists_sharedOf (fits.trans_eq valid.maxCommitments_eq)
  have rect : ∀ row ∈ rows, row.length = 128 := by
    intro row hrow
    obtain ⟨r, hr, rfl⟩ := List.mem_iff_getElem.mp hrow
    exact hlengths.get (hlengths.length_eq ▸ hr) hr
  exact ⟨rows, shared, fits, Outcome.mapM_eq_ok.mp committed, Outcome.mapM_eq_ok.mp hrows, rect,
    hshared⟩

theorem exists_honest_zeros (slot : UInt64) : ∃ block shared,
    shared.header.message.slot = slot ∧ Honest .zeros {} block [.zeros] [.zeros] shared := by
  let block : SignedBlock := { message := { slot := slot, body := { commitments := [.infinity] } } }
  have serves : KzgBackend.zeros.Serves [.zeros] := KzgBackend.serves_zeros (by simp)
  have fits : [Commitment.infinity].length ≤ ({} : Parameters).maxCommitmentsPerBlock.toNat := by
    decide
  have committed : [Blob.zeros].mapM KzgBackend.zeros.commit = .ok block.commitments := rfl
  obtain ⟨rows, shared, honest⟩ :=
    exists_honest Parameters.valid_default serves committed fits
  obtain rfl : rows = [.zeros] := by
    obtain _ | ⟨hrow, _ | _⟩ := honest.extended
    rw [Except.ok.inj hrow]
  obtain ⟨-, hheader, -⟩ := sharedOf_eq_ok.mp honest.sharedOf_eq
  obtain ⟨-, hslot, -⟩ := SignedBlock.header_eq_ok.mp hheader
  exact ⟨block, shared, hslot, honest⟩

namespace Honest

variable (honest : Honest kzg p block blobs rows shared)

include honest

theorem length_rows : rows.length = blobs.length := honest.extended.length_eq.symm

theorem length_commitments : block.commitments.length = blobs.length :=
  honest.committed.length_eq.symm

theorem commitments_eq : shared.commitments = block.commitments :=
  (sharedOf_eq_ok.mp honest.sharedOf_eq).2.2

theorem extend_getElem {r : ℕ} (hb : r < blobs.length) (hr : r < rows.length) :
    kzg.extend blobs[r] = .ok rows[r] :=
  honest.extended.get hb hr

theorem commit_getElem {r : ℕ} (hb : r < blobs.length) (hc : r < block.commitments.length) :
    kzg.commit blobs[r] = .ok block.commitments[r] :=
  honest.committed.get hb hc

theorem exists_leaves (valid : p.Valid) :
    ∃ list nodes, Commitment.listRoot block.commitments p.commitmentsTreeDepth = .ok list ∧
      nodes.getD commitmentsFieldIndex (.zero 32) = list ∧
      shared.header.message.bodyRoot = Merkle.root nodes blockBodyTreeDepth ∧
      shared.inclusionProof = Merkle.branch nodes blockBodyTreeDepth commitmentsFieldIndex := by
  obtain ⟨list, nodes, hlist, hnodes, hfield⟩ :=
    Body.exists_leaves (honest.fits.trans_eq valid.maxCommitments_eq)
  obtain ⟨hbranch, hheader, -⟩ := sharedOf_eq_ok.mp honest.sharedOf_eq
  obtain ⟨hroot, -⟩ := SignedBlock.header_eq_ok.mp hheader
  rw [Body.root_of_leaves hnodes] at hroot
  rw [Body.commitmentsBranch_of_leaves hnodes] at hbranch
  exact ⟨list, nodes, hlist, hfield, (Except.ok.inj hroot).symm, (Except.ok.inj hbranch).symm⟩

theorem checkSidecar_column (valid : p.Valid) (hblobs : blobs ≠ []) {c : ℕ} (hc : c < 128) :
    Verification.checkSidecar p (column shared rows c) = .ok () := by
  rw [Verification.checkSidecar_eq_ok]
  constructor
  · rw [ColumnSidecar.checkStructure_eq_ok, column_cells honest.rect hc,
      column_proofs honest.rect hc, column_index (by decide) hc, valid.columns_eq_128]
    have hcommitments : (column shared rows c).commitments = block.commitments :=
      honest.commitments_eq
    have hne : block.commitments ≠ [] := by
      rw [← List.length_pos_iff, honest.length_commitments, List.length_pos_iff]
      exact hblobs
    rw [hcommitments, List.length_map, List.length_map, honest.length_rows,
      honest.length_commitments]
    exact ⟨hc, hne, rfl, rfl⟩
  · obtain ⟨list, nodes, hlist, hfield, hroot, hbranch⟩ := honest.exists_leaves valid
    exact ColumnSidecar.checkInclusion_of_leaves valid rfl hlist hfield hroot
      honest.commitments_eq hbranch

theorem openings_column {c : ℕ} (hc : c < 128) :
    ∀ o ∈ (column shared rows c).openings, o.Honest kzg blobs := by
  intro o ho
  obtain ⟨⟨commitment, cell, proof⟩, hmem, rfl⟩ := List.mem_map.mp ho
  obtain ⟨r, hr, heq⟩ := List.mem_iff_getElem.mp hmem
  have hcommitments : (column shared rows c).commitments = block.commitments :=
    honest.commitments_eq
  simp only [hcommitments, column_cells honest.rect hc, column_proofs honest.rect hc,
    List.length_zip, List.length_map, min_self, lt_min_iff] at hr
  simp only [hcommitments, column_cells honest.rect hc, column_proofs honest.rect hc,
    List.getElem_zip, List.getElem_map, Prod.mk.injEq] at heq
  obtain ⟨rfl, rfl, rfl⟩ := heq
  have hb : r < blobs.length := hr.2.trans_eq honest.length_rows
  have hrow : c < rows[r].length := hc.trans_eq (honest.rect _ (List.getElem_mem hr.2)).symm
  refine ⟨blobs[r], List.getElem_mem hb, rows[r], honest.extend_getElem hb hr.2,
    honest.commit_getElem hb hr.1, ?_, ?_⟩
  · rw [column_index (by decide) hc]
    exact ExtendedBlob.cells_getElem? hrow
  · rw [column_index (by decide) hc]
    exact ExtendedBlob.proofs_getElem? hrow

theorem sidecars_eq (valid : p.Valid) (hblobs : blobs ≠ []) :
    sidecars (some block) rows p = .ok ((List.range 128).map (column shared rows)) := by
  have hrows : rows ≠ [] := by
    rw [← List.length_pos_iff, honest.length_rows, List.length_pos_iff]
    exact hblobs
  have htranspose : transpose shared rows p = .ok ((List.range 128).map (column shared rows)) := by
    rw [transpose_eq_ok, valid.columns_eq_128]
    exact ⟨honest.rect, rfl⟩
  have hlength := honest.length_rows.trans honest.length_commitments.symm
  exact (sidecars_eq_ok hrows).mpr ⟨hlength, shared, honest.sharedOf_eq, htranspose⟩

theorem exists_verify (valid : p.Valid) (serves : kzg.Serves blobs) (hblobs : blobs ≠ [])
    {columns : List ℕ} (hcolumns : ∀ c ∈ columns, c < 128) :
    ∃ verified, Verification.verify kzg (columns.map (column shared rows)) p = .ok verified := by
  apply Verification.exists_verify
  · intro s hs
    obtain ⟨c, hc, rfl⟩ := List.mem_map.mp hs
    exact honest.checkSidecar_column valid hblobs (hcolumns c hc)
  · refine Verification.checkProofs_of_openings (serves.verify_ok _ fun o ho => ?_)
    obtain ⟨s, hs, ho⟩ := List.mem_flatMap.mp ho
    obtain ⟨c, hc, rfl⟩ := List.mem_map.mp hs
    exact honest.openings_column (hcolumns c hc) o ho

end Honest

end Encoding

end ColumnSampling
