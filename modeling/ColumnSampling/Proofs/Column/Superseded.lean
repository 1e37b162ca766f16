import ColumnSampling.Proofs.Column.RoundTrip

/-!
# Superseded columns

Decoding compares the blocks of sidecars only after it has kept one of each column, and recovery
before. Decoding is therefore weaker: a sidecar of another block goes unnoticed wherever a later one
of its column takes its place. It accepts sidecars of several blocks exactly when some column is
repeated with different blocks, and then it answers as if the superseded sidecars were not there.
-/

namespace ColumnSampling

theorem Reconstruction.sameBlock_of_recover {kzg : KzgBackend} {sidecars : List VerifiedColumn}
    {rows : List ExtendedBlob} (h : recover kzg sidecars = .ok rows) {v w : VerifiedColumn}
    (hv : v ∈ sidecars) (hw : w ∈ sidecars) : v.SameBlock w := by
  cases sidecars with
  | nil => simp at hv
  | cons first rest =>
    cases hblock : (first :: rest).forM first.sameBlock with
    | error cause => simp [recover, distinctColumns, hblock] at h
    | ok _ =>
      have hfirst := VerifiedColumn.forM_sameBlock_eq_ok.mp hblock
      exact (hfirst v hv).symm.trans (hfirst w hw)

namespace Decoding

variable {kzg : KzgBackend} {p : Parameters} {sidecars : List VerifiedColumn} {indices : List ℕ}
  {decoded : List BlobSidecar}

section Accepted

variable (hpos : 0 < p.columnsForRecovery) (h : blobs kzg sidecars indices p = .ok decoded)

include hpos h

theorem sameBlock_of_mem_distinct {v w : VerifiedColumn} (hv : v ∈ distinct sidecars)
    (hw : w ∈ distinct sidecars) : v.SameBlock w := by
  obtain ⟨first, -, hfirst⟩ := distinct_sameBlock hpos h
  exact (hfirst v hv).symm.trans (hfirst w hw)

/-- An accepted list is of one block if its repetitions are. -/
theorem sameBlock_iff_repeated : (∀ v ∈ sidecars, ∀ w ∈ sidecars, v.SameBlock w) ↔
    ∀ v ∈ sidecars, ∀ w ∈ sidecars, v.index = w.index → v.SameBlock w := by
  constructor
  · intro all v hv w hw _
    exact all v hv w hw
  · intro repeated
    -- Each sidecar is of the block of the last one of its column.
    have hlast : ∀ v ∈ sidecars, ∃ u ∈ distinct sidecars, v.SameBlock u := by
      intro v hv
      obtain ⟨u, hu⟩ := Option.isSome_iff_exists.mp (isSome_lastOf.mpr ⟨v, hv, rfl⟩)
      obtain ⟨hmem, hindex⟩ := lastOf_eq_some hu
      refine ⟨u, mem_distinct.mpr ⟨hmem, ?_⟩, repeated v hv u hmem hindex.symm⟩
      rw [hindex, hu]
    intro v hv w hw
    obtain ⟨v', hv', hvv'⟩ := hlast v hv
    obtain ⟨w', hw', hww'⟩ := hlast w hw
    exact (hvv'.trans (sameBlock_of_mem_distinct hpos h hv' hw')).trans hww'.symm

end Accepted

/--
What an accepted list of columns says about their blocks, and what it does not say. Decoding answers
for the last sidecars of the columns alone, and what it accepts among these is of one block. The
list itself is of one block exactly if the sidecars of each column are, and this is not checked.
Recovery from the same list does check it.
-/
theorem blobs_accepts_superseded (accepted : p.check = .ok ()) (kzg : KzgBackend)
    (sidecars : List VerifiedColumn) (indices : List ℕ) :
    blobs kzg (distinct sidecars) indices p = blobs kzg sidecars indices p ∧
    (∀ decoded, blobs kzg sidecars indices p = .ok decoded →
      (∀ v ∈ distinct sidecars, ∀ w ∈ distinct sidecars, v.SameBlock w) ∧
      ((∀ v ∈ sidecars, ∀ w ∈ sidecars, v.SameBlock w) ↔
        ∀ v ∈ sidecars, ∀ w ∈ sidecars, v.index = w.index → v.SameBlock w)) ∧
    ∀ rows, Reconstruction.recover kzg sidecars = .ok rows →
      ∀ v ∈ sidecars, ∀ w ∈ sidecars, v.SameBlock w := by
  have valid := Parameters.valid_of_check accepted
  have hpos : 0 < p.columnsForRecovery := by
    rw [valid.columnsForRecovery_eq_64]
    decide
  refine ⟨blobs_distinct, fun decoded h => ⟨?_, sameBlock_iff_repeated hpos h⟩, ?_⟩
  · intro v hv w hw
    exact sameBlock_of_mem_distinct hpos h hv hw
  · intro rows h v hv w hw
    exact Reconstruction.sameBlock_of_recover h hv hw

/-- A column of slot one is put before the first half of the columns of slot zero. -/
theorem blobs_accepts_two_slots :
    ∃ (foreign own : List ColumnSidecar) (v : VerifiedColumn) (columns : List VerifiedColumn)
      (decoded : List BlobSidecar),
      Verification.verify .zeros foreign {} = .ok [v] ∧
        Verification.verify .zeros own {} = .ok columns ∧
        blobs .zeros (v :: columns) [] {} = .ok decoded ∧
        (∃ w ∈ columns, v.header.message.slot ≠ w.header.message.slot) ∧
        ∀ rows, Reconstruction.recover .zeros (v :: columns) ≠ .ok rows := by
  have valid := Parameters.valid_default
  have serves : KzgBackend.zeros.Serves [.zeros] := KzgBackend.serves_zeros (by simp)
  obtain ⟨_, shared, hslot, honest⟩ := Encoding.exists_honest_zeros 0
  obtain ⟨_, shared', hslot', honest'⟩ := Encoding.exists_honest_zeros 1
  have hcolumns : ∀ c ∈ List.range 64, c < 128 := fun c hc =>
    (List.mem_range.mp hc).trans (by decide)
  have hforeign : ∀ c ∈ [0], c < 128 := by decide
  obtain ⟨columns, hverify⟩ := honest.exists_verify valid serves (by simp) hcolumns
  obtain ⟨foreign, hverify'⟩ := honest'.exists_verify valid serves (by simp) hforeign
  have hsidecars := Verification.map_sidecar_of_verify hverify
  have hsidecars' := Verification.map_sidecar_of_verify hverify'
  have taken := Encoding.takenFrom_of_map (by decide) hcolumns hsidecars
  have taken' := Encoding.takenFrom_of_map (by decide) hforeign hsidecars'
  have hindex := Encoding.map_index_of_map (by decide) hcolumns hsidecars
  obtain ⟨v, rfl⟩ : ∃ v, foreign = [v] :=
    List.length_eq_one_iff.mp (by simpa using congrArg List.length hsidecars')
  have covered : ∀ c < 64, (lastOf columns c).isSome := by
    intro c hc
    rw [isSome_lastOf, ← List.mem_map, hindex]
    exact List.mem_range.mpr hc
  obtain ⟨w, hw⟩ := Option.isSome_iff_exists.mp (covered 0 (by decide))
  obtain ⟨hw, hindexw⟩ := lastOf_eq_some hw
  have hindexv : v.index = 0 := by
    simpa using Encoding.map_index_of_map (by decide) hforeign hsidecars'
  have hheader : v.header.message.slot ≠ w.header.message.slot := by
    rw [taken'.header_eq (by simp), taken.header_eq hw, hslot, hslot']
    decide
  obtain ⟨decoded, hdecoded, -⟩ := exists_blobs valid serves honest taken
    (List.forall_mem_singleton.mpr Blob.size_zeros) covered []
  obtain ⟨hread, -, hrecover⟩ := blobs_accepts_superseded (p := {}) rfl .zeros (v :: columns) []
  have hsuperseded : distinct (v :: columns) = distinct columns :=
    distinct_superseded [] v ⟨w, hw, hindexw.trans hindexv.symm⟩
  refine ⟨_, _, v, columns, decoded, hverify', hverify, ?_, ⟨w, hw, hheader⟩, ?_⟩
  · rw [← hread, hsuperseded, blobs_distinct]
    exact hdecoded
  · intro rows h
    have same := hrecover rows h v (by simp) w (by simp [hw])
    exact hheader (congrArg (·.message.slot) same.header_eq)

end Decoding

end ColumnSampling
