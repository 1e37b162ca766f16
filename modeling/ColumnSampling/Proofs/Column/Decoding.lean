import ColumnSampling.Proofs.Column.Lookup
import ColumnSampling.Parameters

/-!
# What decoding looks at

Decoding answers by three gates. Every column of the first half must be present, the last sidecars
of all columns must be of one block, and every row asked for must give a blob. Nothing else of the
list is looked at, so decoding answers the same for the last sidecars alone.
-/

namespace ColumnSampling.Decoding

open VerifiedColumn

variable {kzg : KzgBackend} {sidecars : List VerifiedColumn} {indices : List ℕ} {p : Parameters}
  {first : VerifiedColumn}

def missingColumns (sidecars : List VerifiedColumn) (p : Parameters) : List ℕ :=
  (List.range p.columnsForRecovery).filter fun c => (lastOf sidecars c).isNone

theorem missingColumns_eq_nil : missingColumns sidecars p = [] ↔
    ∀ c < p.columnsForRecovery, ∃ v, lastOf sidecars c = some v := by
  simp [missingColumns, List.filter_eq_nil_iff, Option.ne_none_iff_exists']

theorem blobs_of_missing (h : missingColumns sidecars p ≠ []) :
    blobs kzg sidecars indices p =
      .error (.reconstruction (.missingColumns (missingColumns sidecars p))) := by
  unfold blobs
  exact if_pos h

theorem blobs_of_present (h : missingColumns sidecars p = []) (hpos : 0 < p.columnsForRecovery)
    (hfirst : lastOf sidecars 0 = some first) :
    blobs kzg sidecars indices p = (do
      ((distinct sidecars).forM first.sameBlock).mapError .validation
      (requestedRows indices first.blobCount).mapM (blobSidecar kzg p first
        ((List.range p.columnsForRecovery).filterMap (lastOf sidecars)))) := by
  obtain ⟨n, hn⟩ := Nat.exists_eq_add_one.mpr hpos
  have hhead : (List.range p.columnsForRecovery).filterMap (lastOf sidecars) =
      first :: ((List.range n).map Nat.succ).filterMap (lastOf sidecars) := by
    rw [hn, List.range_succ_eq_map, List.filterMap_cons_some hfirst]
  rw [missingColumns] at h
  unfold blobs
  simp only [h, ne_eq, not_true_eq_false, if_false, hhead]
  cases (distinct sidecars).forM first.sameBlock <;> rfl

theorem blobs_eq_ok {decoded : List BlobSidecar} (h : missingColumns sidecars p = [])
    (hpos : 0 < p.columnsForRecovery) (hfirst : lastOf sidecars 0 = some first) :
    blobs kzg sidecars indices p = .ok decoded ↔
      (∀ v ∈ distinct sidecars, first.SameBlock v) ∧
        (requestedRows indices first.blobCount).mapM (blobSidecar kzg p first
          ((List.range p.columnsForRecovery).filterMap (lastOf sidecars))) = .ok decoded := by
  rw [blobs_of_present h hpos hfirst, ← forM_sameBlock_eq_ok]
  cases (distinct sidecars).forM first.sameBlock <;> simp [Except.mapError, bind, Except.bind]

/-- The last sidecars of all columns of an accepted list are of the block of column zero. -/
theorem distinct_sameBlock {decoded : List BlobSidecar} (hpos : 0 < p.columnsForRecovery)
    (h : blobs kzg sidecars indices p = .ok decoded) :
    ∃ first, lastOf sidecars 0 = some first ∧ ∀ v ∈ distinct sidecars, first.SameBlock v := by
  have hpresent : missingColumns sidecars p = [] := by
    by_contra hne
    rw [blobs_of_missing hne] at h
    cases h
  obtain ⟨first, hfirst⟩ := missingColumns_eq_nil.mp hpresent 0 hpos
  exact ⟨first, hfirst, ((blobs_eq_ok hpresent hpos hfirst).mp h).1⟩

theorem blobSidecar_eq_ok {columns : List VerifiedColumn} {row : ℕ} {s : BlobSidecar} :
    blobSidecar kzg p first columns row = .ok s ↔
      s.index = row.toUInt64 ∧ Blob.ofBytes (rowData columns row) = .ok s.blob ∧
        first.sidecar.commitments[row]? = some s.commitment ∧
        kzg.blobProof s.blob s.commitment = .ok s.proof ∧ s.header = first.header ∧
        Commitment.inclusionProof first.sidecar.commitments row p.commitmentsTreeDepth
          first.sidecar.inclusionProof blockBodyTreeDepth = .ok s.inclusionProof := by
  unfold blobSidecar
  constructor
  · intro h
    split at h
    · cases h
    · next blob hblob =>
      split at h
      · cases h
      · next commitment hcommitment =>
        split at h
        · cases h
        · next proof hproof =>
          split at h
          · cases h
          · next nodes hnodes =>
            cases h
            exact ⟨rfl, hblob, hcommitment, hproof, rfl, hnodes⟩
  · rintro ⟨hindex, hblob, hcommitment, hproof, hheader, hnodes⟩
    simp only [hblob, hcommitment, hproof, hnodes, ← hindex, ← hheader]

theorem blobs_distinct :
    blobs kzg (distinct sidecars) indices p = blobs kzg sidecars indices p := by
  unfold blobs
  simp only [lastOf_distinct, distinct_distinct]

end ColumnSampling.Decoding
