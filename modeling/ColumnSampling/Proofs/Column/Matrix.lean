import ColumnSampling.Column.Codec
import ColumnSampling.Proofs.Column.Verification

/-!
# The matrix of cells

Encoding succeeds exactly for a list of commitments that has a root and for rows that are all as
long as there are columns. Each column then has the cell and the proof of every row in the order of
the rows, so row `r` of the matrix can be read back from the columns. Verified columns that were
taken from one matrix are of one block.
-/

namespace ColumnSampling

/-- A list whose items all have an answer is filtered and mapped to these answers, item by item. -/
theorem forall₂_filterMap {α β : Type} {f : α → Option β} {R : α → β → Prop} {items : List α}
    (h : ∀ x ∈ items, ∃ y, f x = some y ∧ R x y) : List.Forall₂ R items (items.filterMap f) := by
  induction items with
  | nil => exact .nil
  | cons x items ih =>
    obtain ⟨⟨y, hy, hR⟩, hrest⟩ := List.forall_mem_cons.mp h
    rw [List.filterMap_cons_some hy]
    exact .cons hR (ih hrest)

def ExtendedBlob.cell (e : ExtendedBlob) (c : ℕ) : Cell := e.cells.getD c default

def ExtendedBlob.proof (e : ExtendedBlob) (c : ℕ) : Proof := e.proofs.getD c default

theorem ExtendedBlob.cells_getElem? {e : ExtendedBlob} {c : ℕ} (h : c < e.length) :
    e.cells[c]? = some (e.cell c) := by
  have h : c < e.cells.length := h
  simp [cell, h]

theorem ExtendedBlob.proofs_getElem? {e : ExtendedBlob} {c : ℕ} (h : c < e.length) :
    e.proofs[c]? = some (e.proof c) := by
  have h : c < e.proofs.length := e.length_eq ▸ h
  simp [proof, h]

theorem ExtendedBlob.map_cell_range {e : ExtendedBlob} {n : ℕ} (h : n ≤ e.length) :
    (List.range n).map e.cell = e.cells.take n := by
  have hlen : n ≤ e.cells.length := h
  apply List.ext_getElem
  · simp [hlen]
  · intro i hi _
    simp only [List.length_map, List.length_range] at hi
    simp [cell, hi.trans_le hlen]

namespace Encoding

variable {shared : Shared} {rows : List ExtendedBlob} {p : Parameters} {block : SignedBlock}
  {depth c n : ℕ}

theorem firstBadRow_eq_none {start : ℕ} :
    firstBadRow n rows start = none ↔ ∀ row ∈ rows, row.length = n := by
  induction rows generalizing start with
  | nil => simp [firstBadRow]
  | cons row rest ih =>
    unfold firstBadRow
    split_ifs with h
    · rw [ih, List.forall_mem_cons, and_iff_right h]
    · simp [h]

theorem transpose_eq_ok {built : List ColumnSidecar} : transpose shared rows p = .ok built ↔
    (∀ row ∈ rows, row.length = p.columns) ∧
      (List.range p.columns).map (column shared rows) = built := by
  unfold transpose
  split
  · rename_i hbad
    have hne : ¬ ∀ row ∈ rows, row.length = p.columns := by
      rw [← @firstBadRow_eq_none rows p.columns 0, hbad]
      simp
    simp [hne]
  · rename_i hgood
    rw [and_iff_right (firstBadRow_eq_none.mp hgood), Except.ok.injEq]

theorem sharedOf_eq_ok : sharedOf block depth = .ok shared ↔
    block.message.body.commitmentsBranch depth = .ok shared.inclusionProof ∧
      block.header depth = .ok shared.header ∧ shared.commitments = block.commitments := by
  unfold sharedOf
  simp only [Outcome.bind_eq_ok]
  constructor
  · rintro ⟨branch, hbranch, header, hheader, h⟩
    obtain rfl := Except.ok.inj h
    exact ⟨hbranch, hheader, rfl⟩
  · rintro ⟨hbranch, hheader, hcommitments⟩
    exact ⟨_, hbranch, _, hheader, by rw [← hcommitments]; rfl⟩

theorem sidecars_eq_ok (hrows : rows ≠ []) {built : List ColumnSidecar} :
    sidecars (some block) rows p = .ok built ↔
      rows.length = block.commitments.length ∧
        ∃ shared, sharedOf block p.commitmentsTreeDepth = .ok shared ∧
          transpose shared rows p = .ok built := by
  unfold sidecars
  simp only [List.isEmpty_iff, hrows, if_false]
  split_ifs with hlen
  · simp [hlen]
  · rw [and_iff_right (not_not.mp hlen)]
    cases sharedOf block p.commitmentsTreeDepth <;> simp

section Columns

variable (rect : ∀ row ∈ rows, row.length = n) (hc : c < n)

include rect hc

theorem column_cells : (column shared rows c).cells = rows.map (·.cell c) := by
  unfold column
  rw [← List.filterMap_eq_map']
  exact List.filterMap_congr fun row hrow =>
    ExtendedBlob.cells_getElem? (hc.trans_eq (rect row hrow).symm)

theorem column_proofs : (column shared rows c).proofs = rows.map (·.proof c) := by
  unfold column
  rw [← List.filterMap_eq_map']
  exact List.filterMap_congr fun row hrow =>
    ExtendedBlob.proofs_getElem? (hc.trans_eq (rect row hrow).symm)

theorem column_blobCount : (column shared rows c).blobCount = rows.length := by
  rw [ColumnSidecar.blobCount, column_cells rect hc, List.length_map]

end Columns

theorem column_index (small : n ≤ 2 ^ 64) (hc : c < n) :
    (column shared rows c).index.toNat = c :=
  Nat.mod_eq_of_lt (hc.trans_le small)

theorem eq_column_of_mem {s : ColumnSidecar} {columns : List ℕ} (small : n ≤ 2 ^ 64)
    (hcolumns : ∀ c ∈ columns, c < n) (h : s ∈ columns.map (column shared rows)) :
    s.index.toNat < n ∧ s = column shared rows s.index.toNat := by
  obtain ⟨c, hc, rfl⟩ := List.mem_map.mp h
  rw [column_index small (hcolumns c hc)]
  exact ⟨hcolumns c hc, rfl⟩

/-- Every sidecar of the list is a column of the matrix. -/
def TakenFrom (shared : Shared) (rows : List ExtendedBlob) (n : ℕ)
    (sidecars : List VerifiedColumn) : Prop :=
  ∀ v ∈ sidecars, v.index < n ∧ v.sidecar = column shared rows v.index

theorem takenFrom_of_map {sidecars : List VerifiedColumn} {columns : List ℕ} (small : n ≤ 2 ^ 64)
    (hcolumns : ∀ c ∈ columns, c < n)
    (h : sidecars.map (·.sidecar) = columns.map (column shared rows)) :
    TakenFrom shared rows n sidecars :=
  fun _ hv => eq_column_of_mem small hcolumns (h ▸ List.mem_map_of_mem hv)

theorem map_index_of_map {sidecars : List VerifiedColumn} {columns : List ℕ} (small : n ≤ 2 ^ 64)
    (hcolumns : ∀ c ∈ columns, c < n)
    (h : sidecars.map (·.sidecar) = columns.map (column shared rows)) :
    sidecars.map (·.index) = columns := by
  have hindex : sidecars.map (·.index) = (sidecars.map (·.sidecar)).map (·.index.toNat) := by
    rw [List.map_map]
    rfl
  rw [hindex, h, List.map_map]
  exact (List.map_congr_left fun c hc => column_index small (hcolumns c hc)).trans (List.map_id _)

namespace TakenFrom

variable {sidecars : List VerifiedColumn} {v w : VerifiedColumn}
  (taken : TakenFrom shared rows n sidecars)

include taken

theorem header_eq (hv : v ∈ sidecars) : v.header = shared.header := by
  have h := v.header_eq
  rw [(taken v hv).2] at h
  exact (Option.some.inj h).symm

theorem commitments_eq (hv : v ∈ sidecars) : v.sidecar.commitments = shared.commitments := by
  rw [(taken v hv).2]
  rfl

variable (rect : ∀ row ∈ rows, row.length = n)

include rect

theorem blobCount_eq (hv : v ∈ sidecars) : v.blobCount = rows.length := by
  rw [VerifiedColumn.blobCount, (taken v hv).2]
  exact column_blobCount rect (taken v hv).1

theorem cells_getElem? (hv : v ∈ sidecars) {r : ℕ} (hr : r < rows.length) :
    v.sidecar.cells[r]? = some (rows[r].cell v.index) := by
  rw [(taken v hv).2, column_cells rect (taken v hv).1]
  simp [hr]

theorem sameBlock (hv : v ∈ sidecars) (hw : w ∈ sidecars) : v.SameBlock w where
  blobCount_eq := by rw [taken.blobCount_eq rect hv, taken.blobCount_eq rect hw]
  header_eq := by rw [taken.header_eq hv, taken.header_eq hw]
  commitments_eq := by rw [taken.commitments_eq hv, taken.commitments_eq hw]

end TakenFrom

end Encoding

end ColumnSampling
