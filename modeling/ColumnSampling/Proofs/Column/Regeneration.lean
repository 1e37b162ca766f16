import ColumnSampling.Proofs.Column.Recovery
import ColumnSampling.Proofs.Column.Reverification

/-!
# What is reconstructed can be verified again

Reconstruction does not look at its result. If all columns are there, then they are as many as there
are positions, so each stands at its own position and has passed the gates before. If some are
missing, then the backend is asked for every row, and whatever cells it answers with, there is one
row for each commitment and one cell for each column; the commitments, the branch and the header are
those of the first sidecar, which passed with them.
-/

namespace ColumnSampling

variable {kzg : KzgBackend} {p : Parameters} {first : VerifiedColumn} {rest : List VerifiedColumn}

/-- A reconstructed column stands at its position, passes the first two gates and is of the block of
the first sidecar. -/
structure ColumnSidecar.Rebuilt (s : ColumnSidecar) (p : Parameters) (first : VerifiedColumn)
    (position : ℕ) : Prop where
  index_eq : s.index.toNat = position
  structure_ok : s.checkStructure p = .ok ()
  inclusion_ok : s.checkInclusion p = .ok ()
  commitments_eq : s.commitments = first.sidecar.commitments
  header_eq : s.header = some first.header

theorem VerifiedColumn.HandedOut.rebuilt {v : VerifiedColumn} (h : v.HandedOut p)
    (same : first.SameBlock v) : v.sidecar.Rebuilt p first v.index where
  index_eq := rfl
  structure_ok := h.checks.1
  inclusion_ok := h.checks.2
  commitments_eq := same.commitments_eq.symm
  header_eq := v.header_eq.trans (congrArg some same.header_eq.symm)

namespace Reconstruction

open Encoding VerifiedColumn

variable {sidecars : List VerifiedColumn} {rows : List ExtendedBlob}
  {rebuilt : List ColumnSidecar} {c : ℕ}

theorem length_of_recoverRows (same : ∀ v ∈ sidecars, first.SameBlock v) (hne : sidecars ≠ [])
    (h : recoverRows kzg sidecars = .ok rows) : rows.length = first.blobCount := by
  obtain ⟨v, others, rfl⟩ := List.exists_cons_of_ne_nil hne
  have hrows := (Outcome.mapM_eq_ok.mp h).length_eq
  rw [List.length_range] at hrows
  exact hrows.symm.trans (same v List.mem_cons_self).blobCount_eq.symm

theorem rebuilt_of_all (handed : ∀ v ∈ sidecars, v.HandedOut p)
    (same : ∀ v ∈ sidecars, first.SameBlock v) (all : p.columns ≤ (coverage sidecars).card) :
    ((present sidecars).map (·.sidecar)).length = p.columns ∧
      ∀ (c : ℕ) (s : ColumnSidecar), ((present sidecars).map (·.sidecar))[c]? = some s →
        s.Rebuilt p first c := by
  have below : ∀ v ∈ sidecars, v.index < p.columns := by
    intro v hv
    exact (ColumnSidecar.checkStructure_eq_ok.mp (handed v hv).checks.1).1
  have hcoverage := coverage_eq_range below all
  constructor
  · rw [List.length_map, length_present, hcoverage, Finset.card_range]
  · intro c s hs
    rw [List.getElem?_map, Option.map_eq_some_iff] at hs
    obtain ⟨v, hpresent, rfl⟩ := hs
    have hv : v ∈ sidecars := mem_of_mem_present (List.mem_of_getElem? hpresent)
    -- The indices in order are the positions, so the column at `c` has the index `c`.
    have hindex : v.index = c := by
      have hat : ((present sidecars).map (·.index))[c]? = some v.index := by
        rw [List.getElem?_map, hpresent, Option.map_some]
      rw [map_index_present, hcoverage, Finset.sort_range] at hat
      obtain ⟨hlt, hat⟩ := List.getElem?_eq_some_iff.mp hat
      rw [List.getElem_range] at hat
      exact hat.symm
    rw [← hindex]
    exact (handed v hv).rebuilt (same v hv)

/-- With the commitments, the branch and the header of a verified column, every column of a matrix
that has a row for each commitment passes the first two gates. -/
theorem rebuilt_of_rows (valid : p.Valid) (handed : first.HandedOut p)
    (hrows : rows.length = first.blobCount) (rect : ∀ row ∈ rows, row.length = p.columns)
    (hc : c < p.columns) : (column (sharedOf first) rows c).Rebuilt p first c := by
  have small : p.columns ≤ 2 ^ 64 := by
    rw [valid.columns_eq_128]
    decide
  have hindex : (column (sharedOf first) rows c).index.toNat = c := column_index small hc
  have hlength : rows.length = first.sidecar.commitments.length :=
    hrows.trans first.length_commitments.symm
  obtain ⟨-, hne, -, -⟩ := ColumnSidecar.checkStructure_eq_ok.mp handed.checks.1
  refine ⟨hindex, ?_, ?_, rfl, rfl⟩
  · rw [ColumnSidecar.checkStructure_eq_ok, hindex, column_cells rect hc, column_proofs rect hc,
      List.length_map, List.length_map]
    exact ⟨hc, hne, hlength, hlength⟩
  · exact (ColumnSidecar.checkInclusion_eq_ok valid rfl).mpr (handed.exists_listRoot valid)

/--
Whatever is reconstructed from verified columns can be verified again, whoever built them and
whatever the backend recovers: there is one sidecar at each position, which passes the first two
gates and has the commitments and the header of the first sidecar given.
-/
theorem columns_rebuilt_of_handedOut (accepted : p.check = .ok ()) (kzg : KzgBackend)
    (handed : ∀ v ∈ first :: rest, v.HandedOut p)
    (h : columns kzg (first :: rest) p = .ok rebuilt) :
    rebuilt.length = p.columns ∧
      ∀ (c : ℕ) (s : ColumnSidecar), rebuilt[c]? = some s → s.Rebuilt p first c := by
  have valid := Parameters.valid_of_check accepted
  obtain ⟨same, ⟨all, rfl⟩ | ⟨-, -, rows, hrecover, htranspose⟩⟩ := columns_eq_ok.mp h
  · exact rebuilt_of_all handed same all
  · obtain ⟨rect, rfl⟩ := transpose_eq_ok.mp htranspose
    have samePresent : ∀ v ∈ present (first :: rest), first.SameBlock v := by
      intro v hv
      exact same v (mem_of_mem_present hv)
    have hrows : rows.length = first.blobCount :=
      length_of_recoverRows samePresent (present_ne_nil (by simp)) hrecover
    refine ⟨by simp, ?_⟩
    intro c s hs
    rw [List.getElem?_map, Option.map_eq_some_iff] at hs
    obtain ⟨position, hposition, rfl⟩ := hs
    obtain ⟨hc, hat⟩ := List.getElem?_eq_some_iff.mp hposition
    rw [List.getElem_range] at hat
    subst hat
    rw [List.length_range] at hc
    exact rebuilt_of_rows valid (handed first List.mem_cons_self) hrows rect hc

/-- From half of the forged columns, all of which hold ones, a backend may recover zeros. -/
theorem exists_columns_forged : ∃ (first : VerifiedColumn) (rest : List VerifiedColumn),
    (∀ v ∈ first :: rest, v.HandedOut {} ∧
      v.sidecar.cells = [⟨⟨Array.replicate bytesPerCell 1⟩⟩]) ∧
    columns .credulous (first :: rest) {} =
      .ok ((List.range 128).map (column (sharedOf first) [.zeros])) := by
  obtain ⟨shared, forged, taken, hindices, handed⟩ := Decoding.exists_handedOut_forged
  have rect := ExtendedBlob.length_forged
  have hcoverage : (coverage forged).card = 64 := by
    rw [coverage, hindices, List.toFinset_range, Finset.card_range]
  obtain ⟨first, rest, rfl⟩ : ∃ first rest, forged = first :: rest := by
    apply List.exists_cons_of_ne_nil
    rintro rfl
    simp at hindices
  refine ⟨first, rest, ?_, ?_⟩
  · intro v hv
    refine ⟨handed v hv, ?_⟩
    rw [(taken v hv).2, column_cells rect (taken v hv).1, List.map_singleton,
      ExtendedBlob.cell_forged (taken v hv).1]
  · rw [columns_eq_ok, hcoverage]
    refine ⟨fun v hv => taken.sameBlock rect List.mem_cons_self hv, .inr ⟨by decide, le_rfl,
      [.zeros], ?_, transpose_eq_ok.mpr ⟨?_, rfl⟩⟩⟩
    · -- There is one row, and for every row this backend recovers zeros.
      have hcount := rowCount_present (List.cons_ne_nil first rest) fun _ hv =>
        taken.blobCount_eq rect hv
      rw [recoverRows, hcount]
      rfl
    · intro row hrow
      rw [List.mem_singleton.mp hrow]
      exact List.length_replicate

/-- The columns of zeros that are recovered from the forged ones still pass. -/
theorem columns_rebuilt_of_forged :
    ∃ (first : VerifiedColumn) (rest : List VerifiedColumn) (rebuilt : List ColumnSidecar),
      (∀ v ∈ first :: rest, v.HandedOut {} ∧
        v.sidecar.cells = [⟨⟨Array.replicate bytesPerCell 1⟩⟩]) ∧
      columns .credulous (first :: rest) {} = .ok rebuilt ∧ rebuilt.length = 128 ∧
      ∃ s, rebuilt[100]? = some s ∧ s.cells = [.zeros] ∧
        s.checkStructure {} = .ok () ∧ s.checkInclusion {} = .ok () := by
  obtain ⟨first, rest, handed, hcolumns⟩ := exists_columns_forged
  obtain ⟨hlength, hrebuilt⟩ :=
    columns_rebuilt_of_handedOut rfl .credulous (fun v hv => (handed v hv).1) hcolumns
  have hcolumn := hrebuilt 100 _ rfl
  exact ⟨first, rest, _, handed, hcolumns, hlength, _, rfl, rfl, hcolumn.structure_ok,
    hcolumn.inclusion_ok⟩

end Reconstruction

end ColumnSampling
