import ColumnSampling.Column.Verification
import ColumnSampling.Proofs.Outcome

/-!
# What the gates accept

A batch is verified exactly if each of its sidecars passes the first two gates and the backend
answers yes to all openings at once. Verified columns are the sidecars of the batch, in their order.
Two verified columns are of one block if they agree on its header, its commitments and the number of
its blobs.
-/

namespace ColumnSampling

variable {kzg : KzgBackend} {p : Parameters} {batch : List ColumnSidecar}
  {verified : List VerifiedColumn} {s : ColumnSidecar}

namespace VerifiedColumn

/-- Two columns cover the same blobs of the same block. -/
structure SameBlock (v w : VerifiedColumn) : Prop where
  blobCount_eq : v.blobCount = w.blobCount
  header_eq : v.header = w.header
  commitments_eq : v.sidecar.commitments = w.sidecar.commitments

variable {u v w : VerifiedColumn}

theorem SameBlock.symm (h : v.SameBlock w) : w.SameBlock v :=
  ⟨h.blobCount_eq.symm, h.header_eq.symm, h.commitments_eq.symm⟩

theorem SameBlock.trans (h : u.SameBlock v) (h' : v.SameBlock w) : u.SameBlock w :=
  ⟨h.blobCount_eq.trans h'.blobCount_eq, h.header_eq.trans h'.header_eq,
    h.commitments_eq.trans h'.commitments_eq⟩

theorem sameBlock_eq_ok : v.sameBlock w = .ok () ↔ v.SameBlock w := by
  unfold sameBlock
  constructor
  · intro h
    split_ifs at h with hcount hblock
    obtain ⟨hheader, hcommitments⟩ := not_or.mp hblock
    exact ⟨(not_not.mp hcount).symm, (not_not.mp hheader).symm, (not_not.mp hcommitments).symm⟩
  · intro h
    simp [h.blobCount_eq, h.header_eq, h.commitments_eq]

theorem forM_sameBlock_eq_ok {columns : List VerifiedColumn} :
    columns.forM v.sameBlock = .ok () ↔ ∀ w ∈ columns, v.SameBlock w := by
  rw [Outcome.forM_eq_ok]
  exact forall₂_congr fun _ _ => sameBlock_eq_ok

end VerifiedColumn

theorem ColumnSidecar.checkStructure_eq_ok : s.checkStructure p = .ok () ↔
    s.index.toNat < p.columns ∧ s.commitments ≠ [] ∧
      s.cells.length = s.commitments.length ∧ s.proofs.length = s.commitments.length := by
  unfold checkStructure
  constructor
  · intro h
    split_ifs at h with hindex hempty hlengths
    obtain ⟨hcells, hproofs⟩ := not_or.mp hlengths
    rw [List.isEmpty_iff] at hempty
    exact ⟨not_le.mp hindex, hempty, not_not.mp hcells, (not_not.mp hproofs).symm⟩
  · rintro ⟨hindex, hempty, hcells, hproofs⟩
    rw [if_neg (by omega), if_neg (by simpa using hempty), if_neg (by omega)]

theorem ColumnSidecar.exists_header_of_checkInclusion (h : s.checkInclusion p = .ok ()) :
    ∃ header, s.header = some header := by
  unfold checkInclusion at h
  split at h
  · cases h
  · exact ⟨_, ‹_›⟩

theorem ColumnSidecar.sidecar_of_verified {v : VerifiedColumn} (h : s.verified = .ok v) :
    v.sidecar = s := by
  unfold verified at h
  split at h
  · cases h
  · split_ifs at h
    obtain rfl := Except.ok.inj h
    rfl

theorem ColumnSidecar.exists_verified {header : SignedHeader} (hheader : s.header = some header)
    (hcommitments : s.commitments.length = s.cells.length)
    (hproofs : s.proofs.length = s.cells.length) :
    ∃ v, s.verified = .ok v ∧ v.sidecar = s := by
  unfold verified
  split
  · rename_i hnone
    rw [hnone] at hheader
    cases hheader
  · exact ⟨_, dif_pos ⟨hcommitments, hproofs⟩, rfl⟩

namespace Verification

theorem checkSidecar_eq_ok :
    checkSidecar p s = .ok () ↔ s.checkStructure p = .ok () ∧ s.checkInclusion p = .ok () := by
  unfold checkSidecar
  cases s.checkStructure p <;> simp

theorem checkProofs_of_openings
    (h : kzg.verifyCells ((batch.flatMap (·.openings)).map (·.commitment))
      ((batch.flatMap (·.openings)).map (·.column)) ((batch.flatMap (·.openings)).map (·.cell))
      ((batch.flatMap (·.openings)).map (·.proof)) = .ok true) :
    checkProofs kzg batch = .ok () := by
  unfold checkProofs
  simp only [h, ite_self]

theorem verify_eq_ok : verify kzg batch p = .ok verified ↔
    (∀ s ∈ batch, checkSidecar p s = .ok ()) ∧ checkProofs kzg batch = .ok () ∧
      List.Forall₂ (fun s v => s.verified = .ok v) batch verified := by
  unfold verify
  rw [Outcome.bind_eq_ok, ← Outcome.mapM_eq_ok, ← Outcome.forM_eq_ok]
  cases checkProofs kzg batch with
  | error cause => simp
  | ok _ =>
    constructor
    · rintro ⟨⟨⟩, hchecks, hverified⟩
      exact ⟨hchecks, rfl, hverified⟩
    · rintro ⟨hchecks, -, hverified⟩
      exact ⟨(), hchecks, hverified⟩

theorem map_sidecar_of_verify (h : verify kzg batch p = .ok verified) :
    verified.map (·.sidecar) = batch := by
  obtain ⟨-, -, hverified⟩ := verify_eq_ok.mp h
  clear h
  induction hverified with
  | nil => rfl
  | cons hs _ ih => rw [List.map_cons, ih, ColumnSidecar.sidecar_of_verified hs]

theorem exists_verify (hchecks : ∀ s ∈ batch, checkSidecar p s = .ok ())
    (hproofs : checkProofs kzg batch = .ok ()) : ∃ verified, verify kzg batch p = .ok verified := by
  have hverified : ∀ s ∈ batch, ∃ v, s.verified = .ok v ∧ v.sidecar = s := by
    intro s hs
    obtain ⟨hstructure, hinclusion⟩ := checkSidecar_eq_ok.mp (hchecks s hs)
    obtain ⟨-, -, hcells, hlengths⟩ := ColumnSidecar.checkStructure_eq_ok.mp hstructure
    obtain ⟨header, hheader⟩ := ColumnSidecar.exists_header_of_checkInclusion hinclusion
    exact ColumnSidecar.exists_verified hheader hcells.symm (hlengths.trans hcells.symm)
  obtain ⟨verified, hbuilt, -⟩ := Outcome.exists_mapM_ok hverified
  exact ⟨verified, verify_eq_ok.mpr ⟨hchecks, hproofs, Outcome.mapM_eq_ok.mp hbuilt⟩⟩

end Verification

end ColumnSampling
