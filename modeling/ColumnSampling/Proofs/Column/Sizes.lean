import ColumnSampling.Proofs.Column.Decoding
import ColumnSampling.Proofs.Wire.RoundTrip

/-!
# Where the sizes of blobs and cells are checked

Bytes of a wrong size make no blob and no cell, and what decoding rebuilds has the right size. The
text of a blob, of a cell or of a sidecar is read without a look at the size, so any bytes at all
may come in by it.
-/

namespace ColumnSampling

theorem Blob.ofBytes_eq_ok {data : ByteArray} {blob : Blob} :
    ofBytes data = .ok blob ↔ data.size = bytesPerBlob ∧ blob.data = data := by
  unfold ofBytes
  by_cases hsize : data.size = bytesPerBlob
  · rw [if_pos hsize, Except.ok.injEq, Blob.ext_iff]
    simp only [hsize, true_and, eq_comm]
  · rw [if_neg hsize]
    simp [hsize]

theorem Cell.ofBytes_eq_ok {data : ByteArray} {cell : Cell} :
    ofBytes data = .ok cell ↔ data.size = bytesPerCell ∧ cell.data = data := by
  unfold ofBytes
  by_cases hsize : data.size = bytesPerCell
  · rw [if_pos hsize, Except.ok.injEq, Cell.ext_iff]
    simp only [hsize, true_and, eq_comm]
  · rw [if_neg hsize]
    simp [hsize]

namespace Decoding

variable {kzg : KzgBackend} {sidecars : List VerifiedColumn} {indices : List ℕ} {p : Parameters}

theorem size_of_blobs {decoded : List BlobSidecar}
    (h : blobs kzg sidecars indices p = .ok decoded) :
    ∀ s ∈ decoded, s.blob.data.size = bytesPerBlob := by
  intro s hs
  unfold blobs at h
  simp only at h
  split_ifs at h
  split at h
  · cases h
    cases hs
  · split at h
    · cases h
    · obtain ⟨row, -, hrow⟩ := Outcome.exists_of_mem_mapM h hs
      obtain ⟨hsize, hdata⟩ := Blob.ofBytes_eq_ok.mp (blobSidecar_eq_ok.mp hrow).2.1
      rw [hdata, hsize]

end Decoding

open JsonForm

/--
Bytes make a blob or a cell exactly if they have the right size, and decoding gives blobs of the
right size alone. Texts are read whatever the size: the text of a blob, of a cell or of a sidecar
always gives one, and what it gives has the right size exactly if what was written has it.
-/
theorem sizes_by_entrance (kzg : KzgBackend) (p : Parameters) (columns : List VerifiedColumn)
    (indices : List ℕ) (data : ByteArray) (c : ColumnSidecar) (b : BlobSidecar) :
    (∀ made, Blob.ofBytes data = .ok made ↔ data.size = bytesPerBlob ∧ made.data = data) ∧
    (∀ made, Cell.ofBytes data = .ok made ↔ data.size = bytesPerCell ∧ made.data = data) ∧
    (∀ decoded, Decoding.blobs kzg columns indices p = .ok decoded →
      ∀ s ∈ decoded, s.blob.data.size = bytesPerBlob) ∧
    (∃ made, blob.ofText (blob.write ⟨data⟩).compact = some made ∧
      (made.data.size = bytesPerBlob ↔ data.size = bytesPerBlob)) ∧
    (∃ made, cell.ofText (cell.write ⟨data⟩).compact = some made ∧
      (made.data.size = bytesPerCell ↔ data.size = bytesPerCell)) ∧
    (∃ made, columnSidecar.ofText (columnSidecar.write c).compact = some made ∧
      ((∀ cell ∈ made.cells, cell.data.size = bytesPerCell) ↔
        ∀ cell ∈ c.cells, cell.data.size = bytesPerCell)) ∧
    (∃ made, blobSidecar.ofText (blobSidecar.write b).compact = some made ∧
      (made.blob.data.size = bytesPerBlob ↔ b.blob.data.size = bytesPerBlob)) := by
  refine ⟨?_, ?_, ?_, ?_, ?_, ?_, ?_⟩
  · intro made
    exact Blob.ofBytes_eq_ok
  · intro made
    exact Cell.ofBytes_eq_ok
  · intro decoded h
    exact Decoding.size_of_blobs h
  · exact ⟨_, (roundTrips blob ⟨data⟩).1, Iff.rfl⟩
  · exact ⟨_, (roundTrips cell ⟨data⟩).1, Iff.rfl⟩
  · exact ⟨_, (roundTrips columnSidecar c).1, Iff.rfl⟩
  · exact ⟨_, (roundTrips blobSidecar b).1, Iff.rfl⟩

/-- A blob of one byte is read. -/
example : blob.ofText "\x7b\"data\":\"0x00\"\x7d" = some ⟨⟨#[0]⟩⟩ := by cbv

end ColumnSampling
