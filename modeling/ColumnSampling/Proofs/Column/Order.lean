import ColumnSampling.Proofs.Column.Recovery
import ColumnSampling.Proofs.Column.Reverification
import ColumnSampling.Proofs.Merkle.Binding

/-!
# Neither order nor repetition matters

Two lists with the same members, whose members are told apart by their columns, have the same first
and the same last sidecar of each column. Decoding looks at nothing else. Reconstruction also takes
over the commitments, the branch and the header of the sidecar that happens to come first; those of
one block agree on the first two by comparison, and on the branch because two branches that lead
from one list of commitments to one root differ only by a collision.
-/

namespace ColumnSampling

variable {kzg : KzgBackend} {p : Parameters} {xs ys : List VerifiedColumn}

theorem VerifiedColumn.eq_of_sidecar {v w : VerifiedColumn} (h : v.sidecar = w.sidecar) :
    v = w := by
  have hheader : v.header = w.header := by
    have hsome : some v.header = some w.header := by
      rw [← v.header_eq, ← w.header_eq, h]
    exact Option.some.inj hsome
  cases v
  cases w
  cases h
  cases hheader
  rfl

/-- Two lists with the same members, no two of which differ at the same column. -/
structure SameMembers (xs ys : List VerifiedColumn) : Prop where
  mem_iff : ∀ v, v ∈ xs ↔ v ∈ ys
  sidecar_eq : ∀ v ∈ xs, ∀ w ∈ xs, v.index = w.index → v.sidecar = w.sidecar

namespace SameMembers

theorem symm (same : SameMembers xs ys) : SameMembers ys xs where
  mem_iff v := (same.mem_iff v).symm
  sidecar_eq v hv w hw := same.sidecar_eq v ((same.mem_iff v).mpr hv) w ((same.mem_iff w).mpr hw)

theorem find_eq (same : SameMembers xs ys) {find : List VerifiedColumn → ℕ → Option VerifiedColumn}
    (isSome : ∀ {l : List VerifiedColumn} {c : ℕ}, (find l c).isSome ↔ ∃ v ∈ l, v.index = c)
    (eq_some : ∀ {l : List VerifiedColumn} {c : ℕ} {v : VerifiedColumn},
      find l c = some v → v ∈ l ∧ v.index = c) : find xs = find ys := by
  funext c
  cases hx : find xs c with
  | none =>
    have hnone : ¬ (find ys c).isSome = true := by
      rw [isSome]
      rintro ⟨v, hv, hindex⟩
      have hsome := isSome.mpr ⟨v, (same.mem_iff v).mpr hv, hindex⟩
      rw [hx] at hsome
      cases hsome
    exact (Option.not_isSome_iff_eq_none.mp hnone).symm
  | some v =>
    obtain ⟨hv, hindex⟩ := eq_some hx
    obtain ⟨w, hy⟩ := Option.isSome_iff_exists.mp
      (isSome.mpr ⟨v, (same.mem_iff v).mp hv, hindex⟩)
    obtain ⟨hw, hindex'⟩ := eq_some hy
    have hsidecar := same.sidecar_eq v hv w ((same.mem_iff w).mpr hw) (hindex.trans hindex'.symm)
    rw [hy, VerifiedColumn.eq_of_sidecar hsidecar]

theorem lastOf_eq (same : SameMembers xs ys) : Decoding.lastOf xs = Decoding.lastOf ys :=
  same.find_eq Decoding.isSome_lastOf Decoding.lastOf_eq_some

theorem firstOf_eq (same : SameMembers xs ys) :
    Reconstruction.firstOf xs = Reconstruction.firstOf ys :=
  same.find_eq Reconstruction.isSome_firstOf Reconstruction.firstOf_eq_some

theorem blobs_eq (same : SameMembers xs ys) (indices : List ℕ) :
    Decoding.blobs kzg xs indices p = Decoding.blobs kzg ys indices p := by
  unfold Decoding.blobs
  simp only [same.lastOf_eq, Decoding.distinct_congr same.lastOf_eq]

theorem coverage_eq (same : SameMembers xs ys) :
    Reconstruction.coverage xs = Reconstruction.coverage ys := by
  ext c
  simp only [Reconstruction.mem_coverage, same.mem_iff]

theorem present_eq (same : SameMembers xs ys) :
    Reconstruction.present xs = Reconstruction.present ys := by
  rw [Reconstruction.present, Reconstruction.present, Reconstruction.ofList_index,
    Reconstruction.ofList_index, same.coverage_eq, same.firstOf_eq]

end SameMembers

section Shared

variable {inputs : List ByteArray}

theorem ColumnSidecar.foldInputs_subset {s : ColumnSidecar} {list : Root} (valid : p.Valid)
    (hlist : Commitment.listRoot s.commitments p.commitmentsTreeDepth = .ok list)
    (hlength : s.inclusionProof.length = blockBodyTreeDepth) :
    Merkle.foldInputs list s.inclusionProof commitmentsFieldIndex ⊆ s.inclusionInputs p := by
  intro x hx
  simp [ColumnSidecar.inclusionInputs, hlist, Merkle.checkInputs, hlength,
    valid.inclusionProofDepth_eq, hx]

/-- Verified columns of one block have the same branch, unless their checks found a collision. -/
theorem sharedOf_eq_of_sameBlock {v w : VerifiedColumn} (valid : p.Valid)
    (free : ¬ Sha256.Collision inputs) (hv : v.HandedOut p) (hw : w.HandedOut p)
    (hvs : v.sidecar.inclusionInputs p ⊆ inputs) (hws : w.sidecar.inclusionInputs p ⊆ inputs)
    (same : v.SameBlock w) : Reconstruction.sharedOf v = Reconstruction.sharedOf w := by
  obtain ⟨list, hlist, hlength, hbody⟩ := hv.exists_listRoot valid
  obtain ⟨list', hlist', hlength', hbody'⟩ := hw.exists_listRoot valid
  have hroot : Merkle.foldBranch list v.sidecar.inclusionProof commitmentsFieldIndex =
      Merkle.foldBranch list' w.sidecar.inclusionProof commitmentsFieldIndex := by
    rw [hbody, hbody', same.header_eq]
  obtain ⟨-, hbranch⟩ := Merkle.foldBranch_inj free (hlength.trans hlength'.symm)
    (List.Subset.trans (ColumnSidecar.foldInputs_subset valid hlist hlength) hvs)
    (List.Subset.trans (ColumnSidecar.foldInputs_subset valid hlist' hlength') hws) hroot
  rw [Reconstruction.sharedOf, Reconstruction.sharedOf, same.commitments_eq, same.header_eq,
    hbranch]

end Shared

namespace Reconstruction

theorem columns_of_sameMembers {rebuilt : List ColumnSidecar} (same : SameMembers xs ys)
    (shared : ∀ v ∈ xs, ∀ w ∈ xs, v.SameBlock w → sharedOf v = sharedOf w)
    (h : columns kzg xs p = .ok rebuilt) : columns kzg ys p = .ok rebuilt := by
  cases xs with
  | nil => cases h
  | cons first rest =>
    have hfirst : first ∈ ys := (same.mem_iff first).mp List.mem_cons_self
    obtain ⟨first', rest', rfl⟩ := List.exists_cons_of_ne_nil (List.ne_nil_of_mem hfirst)
    have hfirst' : first' ∈ first :: rest := (same.mem_iff first').mpr List.mem_cons_self
    rw [columns_eq_ok] at h ⊢
    obtain ⟨block, hrebuilt⟩ := h
    have hshared : sharedOf first = sharedOf first' :=
      shared first List.mem_cons_self first' hfirst' (block first' hfirst')
    rw [same.coverage_eq, same.present_eq, hshared] at hrebuilt
    refine ⟨?_, hrebuilt⟩
    intro v hv
    exact (block first' hfirst').symm.trans (block v ((same.mem_iff v).mpr hv))

end Reconstruction

/--
Decoding and reconstruction depend on the members of a list of verified sidecars alone, if no two
members differ at the same column. Decoding gives the same outcome on every request. Reconstruction
gives the same columns or fails on both lists, unless the checks of the sidecars hashed a collision.
-/
theorem blobs_and_columns_of_sameMembers (accepted : p.check = .ok ()) (kzg : KzgBackend)
    (handed : ∀ v ∈ xs, v.HandedOut p) (same : SameMembers xs ys) :
    (∀ indices, Decoding.blobs kzg xs indices p = Decoding.blobs kzg ys indices p) ∧
      (¬ Sha256.Collision (xs.flatMap (·.sidecar.inclusionInputs p)) →
        ∀ rebuilt, Reconstruction.columns kzg xs p = .ok rebuilt ↔
          Reconstruction.columns kzg ys p = .ok rebuilt) := by
  have valid := Parameters.valid_of_check accepted
  constructor
  · intro indices
    exact same.blobs_eq indices
  · intro free rebuilt
    have shared : ∀ v ∈ xs, ∀ w ∈ xs, v.SameBlock w →
        Reconstruction.sharedOf v = Reconstruction.sharedOf w := by
      have hinputs : ∀ v ∈ xs, v.sidecar.inclusionInputs p ⊆
          xs.flatMap (·.sidecar.inclusionInputs p) := by
        intro v hv x hx
        exact List.mem_flatMap.mpr ⟨v, hv, hx⟩
      intro v hv w hw
      exact sharedOf_eq_of_sameBlock valid free (handed v hv) (handed w hw) (hinputs v hv)
        (hinputs w hw)
    constructor
    · exact Reconstruction.columns_of_sameMembers same shared
    · apply Reconstruction.columns_of_sameMembers same.symm
      intro v hv w hw
      exact shared v ((same.mem_iff v).mpr hv) w ((same.mem_iff w).mpr hw)

/-- The first half of the columns of a blob of zeros, once in order and once backwards
before that. -/
theorem blobs_and_columns_of_repeated :
    ∃ (columns : List VerifiedColumn) (decoded : List BlobSidecar),
      columns.map (·.index) = List.range 64 ∧
        Decoding.blobs .zeros columns [] {} = .ok decoded ∧
        Decoding.blobs .zeros (columns.reverse ++ columns) [] {} = .ok decoded ∧
        (¬ Sha256.Collision (columns.flatMap (·.sidecar.inclusionInputs {})) →
          ∀ rebuilt, Reconstruction.columns .zeros columns {} = .ok rebuilt ↔
            Reconstruction.columns .zeros (columns.reverse ++ columns) {} = .ok rebuilt) := by
  have valid := Parameters.valid_default
  have serves : KzgBackend.zeros.Serves [.zeros] := KzgBackend.serves_zeros (by simp)
  obtain ⟨block, shared, -, honest⟩ := Encoding.exists_honest_zeros 0
  have hcolumns : ∀ c ∈ List.range 64, c < 128 := fun c hc =>
    (List.mem_range.mp hc).trans (by decide)
  obtain ⟨columns, hverify⟩ := honest.exists_verify valid serves (by simp) hcolumns
  have hsidecars := Verification.map_sidecar_of_verify hverify
  have taken := Encoding.takenFrom_of_map (by decide) hcolumns hsidecars
  have hindex := Encoding.map_index_of_map (by decide) hcolumns hsidecars
  have covered : ∀ c < 64, (Decoding.lastOf columns c).isSome := by
    intro c hc
    rw [Decoding.isSome_lastOf, ← List.mem_map, hindex]
    exact List.mem_range.mpr hc
  obtain ⟨decoded, hdecoded, -⟩ := Decoding.exists_blobs valid serves honest taken
    (List.forall_mem_singleton.mpr Blob.size_zeros) covered []
  have same : SameMembers columns (columns.reverse ++ columns) := by
    refine ⟨by simp, ?_⟩
    intro v hv w hw hsame
    rw [(taken v hv).2, (taken w hw).2, hsame]
  obtain ⟨hblobs, hrebuilt⟩ := blobs_and_columns_of_sameMembers (p := {}) rfl .zeros
    (fun v hv => ⟨_, _, _, hverify, hv⟩) same
  exact ⟨columns, decoded, hindex, hdecoded, (hblobs []).symm.trans hdecoded, hrebuilt⟩

end ColumnSampling
