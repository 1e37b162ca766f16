import ColumnSampling.Engine
import ColumnSampling.Proofs.Column.Decoding
import ColumnSampling.Proofs.Column.Honest

/-!
# From blobs to columns and back

The engine builds the columns of an honest block, verifies any choice of them in any order, and
rebuilds the blobs from what it verified. A blob comes back with its bytes, its commitment, a proof
of the backend, the header of the block, and a branch that leads from the commitment to the root in
that header. If columns of the first half are missing, the engine names exactly these.
-/

namespace ColumnSampling

/-- A rebuilt blob is the blob at `row` of the block, with everything that ties it to the block. -/
structure BlobSidecar.Represents (s : BlobSidecar) (kzg : KzgBackend) (depth : ℕ)
    (block : SignedBlock) (blobs : List Blob) (row : ℕ) : Prop where
  index_eq : s.index.toNat = row
  blob_eq : blobs[row]? = some s.blob
  commitment_eq : block.commitments[row]? = some s.commitment
  proof_eq : kzg.blobProof s.blob s.commitment = .ok s.proof
  header_eq : block.header depth = .ok s.header
  included : s.commitment.checkInclusion s.inclusionProof row depth blockBodyTreeDepth
    s.header.message.bodyRoot = true

namespace Decoding

variable {kzg : KzgBackend} {p : Parameters} {block : SignedBlock} {blobs : List Blob}
  {rows : List ExtendedBlob} {shared : Encoding.Shared} {sidecars : List VerifiedColumn} {n : ℕ}

theorem rowData_eq_join (columns : List VerifiedColumn) (row : ℕ) :
    rowData columns row =
      Cell.join (columns.map fun v => v.sidecar.cells[row]?.getD default) := by
  rw [rowData, Cell.join, List.foldl_map]

theorem missingColumns_eq (hhalf : p.columnsForRecovery = n) {columns : List ℕ}
    (hindex : sidecars.map (·.index) = columns) :
    missingColumns sidecars p = (List.range n).filter (· ∉ columns) := by
  rw [missingColumns, hhalf]
  refine List.filter_congr fun c _ => ?_
  have hfound : (lastOf sidecars c).isSome ↔ c ∈ columns := by
    rw [isSome_lastOf, ← hindex, List.mem_map]
  rw [Bool.eq_iff_iff, Option.isNone_iff_eq_none, decide_eq_true_iff, ← hfound,
    Option.not_isSome_iff_eq_none]

theorem rowData_of_taken {m : ℕ} (taken : Encoding.TakenFrom shared rows n sidecars)
    (rect : ∀ row ∈ rows, row.length = n) (hm : m ≤ n)
    (covered : ∀ c < m, (lastOf sidecars c).isSome) {r : ℕ} (hr : r < rows.length) :
    rowData ((List.range m).filterMap (lastOf sidecars)) r = Cell.join (rows[r].cells.take m) := by
  have hrow : rows[r].length = n := rect _ (List.getElem_mem hr)
  rw [rowData_eq_join, ← ExtendedBlob.map_cell_range (hm.trans_eq hrow.symm)]
  congr 1
  have found : ∀ c ∈ List.range m, ∃ v, lastOf sidecars c = some v ∧ v ∈ sidecars ∧
      v.index = c := by
    intro c hc
    obtain ⟨v, hv⟩ := Option.isSome_iff_exists.mp (covered c (List.mem_range.mp hc))
    exact ⟨v, hv, lastOf_eq_some hv⟩
  refine map_filterMap_find found fun v hv => ?_
  rw [taken.cells_getElem? rect hv hr, Option.getD_some]

theorem lt_of_mem_requestedRows {indices : List ℕ} {row : ℕ} (h : row ∈ requestedRows indices n) :
    row < n := by
  unfold requestedRows at h
  split_ifs at h
  · exact List.mem_range.mp h
  · exact of_decide_eq_true (List.mem_filter.mp h).2

section Honest

variable (valid : p.Valid) (serves : kzg.Serves blobs)
  (honest : Encoding.Honest kzg p block blobs rows shared)
  (taken : Encoding.TakenFrom shared rows 128 sidecars)
  (sizes : ∀ b ∈ blobs, b.data.size = bytesPerBlob)
  (covered : ∀ c < 64, (lastOf sidecars c).isSome)

include serves honest taken covered

theorem rowData_eq {r : ℕ} (hr : r < blobs.length) :
    rowData ((List.range 64).filterMap (lastOf sidecars)) r = blobs[r].data := by
  have hrows : r < rows.length := hr.trans_eq honest.length_rows.symm
  obtain ⟨row, hrow, -, hdata⟩ := serves.extend_ok blobs[r] (List.getElem_mem hr)
  rw [honest.extend_getElem hr hrows] at hrow
  obtain rfl := Except.ok.inj hrow
  rw [rowData_of_taken taken honest.rect (by decide) covered hrows, hdata]

include valid sizes

theorem exists_blobSidecar {first : VerifiedColumn} (hfirst : first ∈ sidecars) {r : ℕ}
    (hr : r < blobs.length) :
    ∃ s, blobSidecar kzg p first ((List.range 64).filterMap (lastOf sidecars)) r = .ok s ∧
      s.Represents kzg p.commitmentsTreeDepth block blobs r := by
  have hc : r < block.commitments.length := hr.trans_eq honest.length_commitments.symm
  have fits := honest.fits.trans_eq valid.maxCommitments_eq
  obtain ⟨list, nodes, hlist, hfield, hroot, hbranch⟩ := honest.exists_leaves valid
  have hblob : Blob.ofBytes (rowData ((List.range 64).filterMap (lastOf sidecars)) r) =
      .ok blobs[r] := by
    rw [rowData_eq serves honest taken covered hr, Blob.ofBytes,
      if_pos (sizes _ (List.getElem_mem hr))]
  have hcommitments : first.sidecar.commitments = block.commitments :=
    (taken.commitments_eq hfirst).trans honest.commitments_eq
  have hcommitment : block.commitments[r]? = some block.commitments[r] :=
    List.getElem?_eq_getElem hc
  obtain ⟨proof, hproof⟩ := serves.blobProof_ok _ (List.getElem_mem hr) _
    (honest.commit_getElem hr hc)
  have hlength : shared.inclusionProof.length = blockBodyTreeDepth := by
    rw [hbranch, Merkle.length_branch]
  obtain ⟨branch, hinclusion⟩ : ∃ branch, Commitment.inclusionProof block.commitments r
      p.commitmentsTreeDepth shared.inclusionProof blockBodyTreeDepth = .ok branch :=
    ⟨_, Commitment.inclusionProof_of_fits fits hc hlength⟩
  have hshared : first.sidecar.inclusionProof = shared.inclusionProof := by
    rw [(taken first hfirst).2]
    rfl
  have hbody : Merkle.foldBranch list shared.inclusionProof commitmentsFieldIndex =
      shared.header.message.bodyRoot := by
    rw [hbranch, hroot]
    exact Body.foldBranch_commitments hfield
  refine ⟨{ index := r.toUInt64, blob := blobs[r], commitment := block.commitments[r],
            proof := proof, header := shared.header, inclusionProof := branch }, ?_, ?_⟩
  · rw [blobSidecar_eq_ok, hcommitments, hshared]
    exact ⟨rfl, hblob, hcommitment, hproof, (taken.header_eq hfirst).symm, hinclusion⟩
  · have hsmall : r < 2 ^ 64 :=
      (hc.trans_le honest.fits).trans p.maxCommitmentsPerBlock.toNat_lt
    obtain ⟨-, hheader, -⟩ := Encoding.sharedOf_eq_ok.mp honest.sharedOf_eq
    exact ⟨Nat.mod_eq_of_lt hsmall, List.getElem?_eq_getElem hr, hcommitment, hproof, hheader,
      Commitment.checkInclusion_inclusionProof hcommitment hlist hinclusion hlength hbody⟩

theorem exists_blobs (indices : List ℕ) :
    ∃ decoded, Decoding.blobs kzg sidecars indices p = .ok decoded ∧
      List.Forall₂
        (fun row s => BlobSidecar.Represents s kzg p.commitmentsTreeDepth block blobs row)
        (requestedRows indices blobs.length) decoded := by
  have hhalf := valid.columnsForRecovery_eq_64
  have hmissing : missingColumns sidecars p = [] := by
    rw [missingColumns_eq_nil, hhalf]
    exact fun c hc => Option.isSome_iff_exists.mp (covered c hc)
  obtain ⟨first, hlast⟩ := Option.isSome_iff_exists.mp (covered 0 (by decide))
  have hfirst : first ∈ sidecars := (lastOf_eq_some hlast).1
  have hsame : ∀ v ∈ distinct sidecars, first.SameBlock v := fun v hv =>
    taken.sameBlock honest.rect hfirst (mem_distinct.mp hv).1
  have hcount : first.blobCount = blobs.length :=
    (taken.blobCount_eq honest.rect hfirst).trans honest.length_rows
  have hrows : ∀ row ∈ requestedRows indices blobs.length,
      ∃ s, blobSidecar kzg p first ((List.range 64).filterMap (lastOf sidecars)) row = .ok s ∧
        s.Represents kzg p.commitmentsTreeDepth block blobs row := fun row hrow =>
    exists_blobSidecar valid serves honest taken sizes covered hfirst
      (lt_of_mem_requestedRows hrow)
  obtain ⟨decoded, hdecoded, hall⟩ := Outcome.exists_mapM_ok hrows
  refine ⟨decoded, (blobs_eq_ok hmissing (by omega) hlast).mpr ⟨hsame, ?_⟩, hall⟩
  rw [hcount, hhalf]
  exact hdecoded

end Honest

end Decoding

namespace Engine

variable {e : Engine} {block : SignedBlock} {blobs : List Blob} {rows : List ExtendedBlob}
  {shared : Encoding.Shared} {batch : List ColumnSidecar} {verified : List VerifiedColumn}

theorem encode_of_honest (valid : e.parameters.Valid) (hblobs : blobs ≠ [])
    (honest : Encoding.Honest e.kzg e.parameters block blobs rows shared) :
    e.encode block blobs = .ok ((List.range 128).map (Encoding.column shared rows)) := by
  have hextend : Encoding.extendBlobs e.kzg blobs = .ok rows :=
    Outcome.mapM_eq_ok.mpr honest.extended
  unfold encode
  simp only [hextend, honest.sidecars_eq valid hblobs]

theorem buildSidecars_of_encode (hblobs : blobs ≠ []) (h : e.encode block blobs = .ok batch) :
    e.buildSidecars (some block) blobs =
      (.ok batch, { e with counters := e.counters.built batch.length blobs.length }) := by
  obtain ⟨b, rest, rfl⟩ := List.exists_cons_of_ne_nil hblobs
  unfold buildSidecars
  simp only [h]

theorem verifySidecars_of_verify (h : Verification.verify e.kzg batch e.parameters = .ok verified) :
    e.verifySidecars batch =
      (.ok verified, { e with counters := e.counters.accepted batch.length }) := by
  unfold verifySidecars
  simp only [h]

/--
The columns of an honest block carry its blobs. The engine builds 128 of them and verifies any
choice, in any order and with any repetitions. From a choice that covers the first half it rebuilds
the blobs asked for, each as it was, and from any other it rebuilds nothing and names what it lacks.
-/
theorem rebuildBlobs_of_buildSidecars (e : Engine) (accepted : e.parameters.check = .ok ())
    (block : SignedBlock) (blobs : List Blob) (hblobs : blobs ≠ [])
    (sizes : ∀ b ∈ blobs, b.data.size = bytesPerBlob) (serves : e.kzg.Serves blobs)
    (committed : blobs.mapM e.kzg.commit = .ok block.commitments)
    (fits : block.commitments.length ≤ e.parameters.maxCommitmentsPerBlock.toNat) :
    ∃ sidecars e₁, e.buildSidecars (some block) blobs = (.ok sidecars, e₁) ∧
      sidecars.length = 128 ∧
      ∀ columns : List ℕ, (∀ c ∈ columns, c < 128) →
        ∃ verified e₂,
          e₁.verifySidecars (columns.filterMap (sidecars[·]?)) = (.ok verified, e₂) ∧
          verified.map (·.sidecar) = columns.filterMap (sidecars[·]?) ∧
          ∀ indices : List ℕ,
            ((∀ c < 64, c ∈ columns) →
              ∃ decoded, e₂.rebuildBlobs verified indices = (.ok decoded, e₂) ∧
                List.Forall₂ (fun row s => BlobSidecar.Represents s e.kzg
                    e.parameters.commitmentsTreeDepth block blobs row)
                  (if indices = [] then List.range blobs.length
                    else indices.filter (· < blobs.length)) decoded) ∧
            (¬ (∀ c < 64, c ∈ columns) →
              e₂.rebuildBlobs verified indices = (.error (.reconstruction
                (.missingColumns ((List.range 64).filter (· ∉ columns)))), e₂)) := by
  have valid := Parameters.valid_of_check accepted
  obtain ⟨rows, shared, honest⟩ := Encoding.exists_honest valid serves committed fits
  have hencode := encode_of_honest valid hblobs honest
  refine ⟨_, _, buildSidecars_of_encode hblobs hencode, by simp, fun columns hcolumns => ?_⟩
  have hpicked : columns.filterMap (((List.range 128).map (Encoding.column shared rows))[·]?) =
      columns.map (Encoding.column shared rows) := by
    rw [← List.filterMap_eq_map']
    refine List.filterMap_congr fun c hc => ?_
    simp [hcolumns c hc]
  rw [hpicked]
  obtain ⟨verified, hverify⟩ := honest.exists_verify valid serves hblobs hcolumns
  have hsidecars := Verification.map_sidecar_of_verify hverify
  have taken := Encoding.takenFrom_of_map (by decide) hcolumns hsidecars
  have hindex := Encoding.map_index_of_map (by decide) hcolumns hsidecars
  refine ⟨verified, _, verifySidecars_of_verify hverify, hsidecars, fun indices => ⟨?_, ?_⟩⟩
  · intro all
    have covered : ∀ c < 64, (Decoding.lastOf verified c).isSome := by
      intro c hc
      rw [Decoding.isSome_lastOf, ← List.mem_map, hindex]
      exact all c hc
    obtain ⟨decoded, hdecoded, hrows⟩ :=
      Decoding.exists_blobs valid serves honest taken sizes covered indices
    rw [Decoding.requestedRows] at hrows
    simp only [List.isEmpty_iff] at hrows
    exact ⟨decoded, congrArg (·, _) hdecoded, hrows⟩
  · intro notAll
    have hmissing := Decoding.missingColumns_eq valid.columnsForRecovery_eq_64 hindex
    have hne : Decoding.missingColumns verified e.parameters ≠ [] := by
      intro hnil
      refine notAll fun c hc => ?_
      rw [hmissing, List.filter_eq_nil_iff] at hnil
      simpa using hnil c (List.mem_range.mpr hc)
    rw [← hmissing]
    exact congrArg (·, _) (Decoding.blobs_of_missing hne)

/-- Two blobs of zeros, their columns from the last to the first, and a row that is not there. -/
theorem rebuildBlobs_of_zeros :
    ∃ (e : Engine) (block : SignedBlock) (sidecars : List ColumnSidecar) (e₁ : Engine)
      (verified : List VerifiedColumn) (e₂ : Engine) (decoded : List BlobSidecar),
      Engine.create .zeros {} false = .ok e ∧
        e.buildSidecars (some block) [.zeros, .zeros] = (.ok sidecars, e₁) ∧
        e₁.verifySidecars ((List.range 128).reverse.filterMap (sidecars[·]?)) =
          (.ok verified, e₂) ∧
        e₂.rebuildBlobs verified [1, 7, 0] = (.ok decoded, e₂) ∧
        decoded.map (·.index.toNat) = [1, 0] ∧ decoded.map (·.blob) = [.zeros, .zeros] := by
  let block : SignedBlock :=
    { message := { body := { commitments := [.infinity, .infinity] } } }
  obtain ⟨e, he⟩ : ∃ e, Engine.create .zeros {} false = .ok e := ⟨_, rfl⟩
  obtain ⟨hkzg, hparameters⟩ : e.kzg = .zeros ∧ e.parameters = {} := by
    obtain rfl := Except.ok.inj he
    exact ⟨rfl, rfl⟩
  have accepted : e.parameters.check = .ok () := by
    rw [hparameters]
    rfl
  have zeros : ∀ b ∈ [Blob.zeros, .zeros], b = .zeros := by simp
  have sizes : ∀ b ∈ [Blob.zeros, .zeros], b.data.size = bytesPerBlob := by
    intro b hb
    rw [zeros b hb, Blob.size_zeros]
  have serves : e.kzg.Serves [.zeros, .zeros] := by
    rw [hkzg]
    exact KzgBackend.serves_zeros zeros
  have committed : [Blob.zeros, .zeros].mapM e.kzg.commit = .ok block.commitments := by
    rw [hkzg]
    rfl
  have fits : block.commitments.length ≤ e.parameters.maxCommitmentsPerBlock.toNat := by
    rw [hparameters]
    decide
  obtain ⟨sidecars, e₁, hbuilt, -, h⟩ :=
    rebuildBlobs_of_buildSidecars e accepted block _ (by simp) sizes serves committed fits
  have hcolumns : ∀ c ∈ (List.range 128).reverse, c < 128 := by simp
  obtain ⟨verified, e₂, hverified, -, h⟩ := h _ hcolumns
  have all : ∀ c < 64, c ∈ (List.range 128).reverse := by
    intro c hc
    exact List.mem_reverse.mpr (List.mem_range.mpr (by omega))
  obtain ⟨decoded, hdecoded, hrows⟩ := (h [1, 7, 0]).1 all
  refine ⟨e, block, sidecars, e₁, verified, e₂, decoded, he, hbuilt, hverified, hdecoded, ?_⟩
  obtain _ | ⟨hone, _ | ⟨hzero, _ | _⟩⟩ := hrows
  have hblobs := And.intro hone.blob_eq hzero.blob_eq
  simp only [List.getElem?_cons_succ, List.getElem?_cons_zero, Option.some.injEq] at hblobs
  simp [hone.index_eq, hzero.index_eq, ← hblobs.1, ← hblobs.2]

end Engine

end ColumnSampling
