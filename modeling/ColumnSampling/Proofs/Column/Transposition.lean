import ColumnSampling.Proofs.Column.Honest

/-!
# Encoding as a transposition

Encoding either says what is wrong with the rows, or gives the columns of the matrix whose rows they
are: the cell and the proof of column `c` and row `b` are those of row `b` and column `c`, and
nothing else differs between the columns but their indices. So the rows can be read off the columns,
if there is a column at all to tell how many rows there are.
-/

namespace ColumnSampling

theorem filterMap_of_forall₂ {α β : Type} {f : α → Option β} {items : List α} {answers : List β}
    (h : List.Forall₂ (fun x y => f x = some y) items answers) : items.filterMap f = answers := by
  induction h with
  | nil => rfl
  | cons hx _ ih => rw [List.filterMap_cons_some hx, ih]

theorem filterMap_of_transposed {α β γ : Type} {rows : List α} {columns : List β}
    {ofRow : α → List γ} {ofColumn : β → List γ}
    (h : ∀ (c : ℕ) (column : β), columns[c]? = some column →
      List.Forall₂ (fun row x => (ofRow row)[c]? = some x) rows (ofColumn column))
    {r : ℕ} (hr : r < rows.length) (hlength : columns.length = (ofRow rows[r]).length) :
    columns.filterMap (fun column => (ofColumn column)[r]?) = ofRow rows[r] := by
  apply filterMap_of_forall₂
  rw [List.forall₂_iff_get]
  refine ⟨hlength, fun c hc hentry => ?_⟩
  have hcolumn := h c _ (List.getElem?_eq_getElem hc)
  have hr' : r < (ofColumn columns[c]).length := hr.trans_eq hcolumn.length_eq
  have hget : (ofRow rows[r])[c]? = some (ofColumn columns[c])[r] := hcolumn.get hr hr'
  rw [List.getElem?_eq_getElem hentry] at hget
  rw [List.get_eq_getElem, List.getElem?_eq_getElem hr', ← hget]
  rfl

namespace Encoding

/-- The column at `c` of the matrix of a block. -/
structure IsColumn (block : SignedBlock) (depth : ℕ) (rows : List ExtendedBlob) (c : ℕ)
    (s : ColumnSidecar) : Prop where
  index_eq : s.index.toNat = c
  cells : List.Forall₂ (fun row cell => row.cells[c]? = some cell) rows s.cells
  proofs : List.Forall₂ (fun row proof => row.proofs[c]? = some proof) rows s.proofs
  commitments_eq : s.commitments = block.commitments
  header_ok : ∃ header, block.header depth = .ok header ∧ s.header = some header
  inclusionProof_ok : block.message.body.commitmentsBranch depth = .ok s.inclusionProof

/-- The outcomes of encoding the rows of a block. -/
inductive Encoded (p : Parameters) : Option SignedBlock → List ExtendedBlob →
    Except ValidationError (List ColumnSidecar) → Prop
  | noBlock (rows : List ExtendedBlob) : Encoded p none rows (.ok [])
  | noBlobs (block : SignedBlock) : Encoded p (some block) [] (.ok [])
  | blobCount {block : SignedBlock} {rows : List ExtendedBlob} (hrows : rows ≠ [])
      (h : rows.length ≠ block.commitments.length) :
      Encoded p (some block) rows (.error (.blobCount block.commitments.length rows.length))
  | tooMany {block : SignedBlock} {rows : List ExtendedBlob} (hrows : rows ≠ [])
      (hlength : rows.length = block.commitments.length)
      (h : 2 ^ p.commitmentsTreeDepth < block.commitments.length) :
      Encoded p (some block) rows (.error (.block (.tooManyCommitments block.commitments.length
        p.commitmentsTreeDepth (2 ^ p.commitmentsTreeDepth))))
  /-- The first row that does not have a cell for each column. -/
  | cellCount {block : SignedBlock} {before after : List ExtendedBlob} {row : ExtendedBlob}
      (hlength : (before ++ row :: after).length = block.commitments.length)
      (fits : block.commitments.length ≤ 2 ^ p.commitmentsTreeDepth)
      (hbefore : ∀ other ∈ before, other.length = p.columns) (h : row.length ≠ p.columns) :
      Encoded p (some block) (before ++ row :: after)
        (.error (.cellCount before.length p.columns row.length))
  | columns {block : SignedBlock} {rows : List ExtendedBlob} {built : List ColumnSidecar}
      (hrows : rows ≠ []) (hlength : rows.length = block.commitments.length)
      (fits : block.commitments.length ≤ 2 ^ p.commitmentsTreeDepth)
      (rect : ∀ row ∈ rows, row.length = p.columns) (hcolumns : built.length = p.columns)
      (h : ∀ c s, built[c]? = some s → IsColumn block p.commitmentsTreeDepth rows c s) :
      Encoded p (some block) rows (.ok built)

/-- The rows read off some columns, as many as the first column has cells. -/
def readRows (columns : List ColumnSidecar) : Except SizeError (List ExtendedBlob) :=
  (List.range (columns.head?.elim 0 (·.blobCount))).mapM fun row =>
    ExtendedBlob.ofLists (columns.filterMap (·.cells[row]?)) (columns.filterMap (·.proofs[row]?))

variable {shared : Shared} {rows : List ExtendedBlob} {p : Parameters} {block : SignedBlock}
  {depth c n : ℕ}

section Rows

theorem firstBadRow_eq_some {start index actual : ℕ} :
    firstBadRow n rows start = some (index, actual) ↔
      ∃ before row after, rows = before ++ row :: after ∧ (∀ other ∈ before, other.length = n) ∧
        row.length ≠ n ∧ index = start + before.length ∧ actual = row.length := by
  induction rows generalizing start with
  | nil => simp [firstBadRow]
  | cons row rest ih =>
    unfold firstBadRow
    split_ifs with hrow
    · rw [ih]
      constructor
      · rintro ⟨before, bad, after, rfl, hbefore, hbad, rfl, rfl⟩
        exact ⟨row :: before, bad, after, rfl, List.forall_mem_cons.mpr ⟨hrow, hbefore⟩, hbad,
          by rw [List.length_cons]; omega, rfl⟩
      · rintro ⟨_ | ⟨other, before⟩, bad, after, hrows, hbefore, hbad, rfl, rfl⟩
        · cases hrows
          exact absurd hrow hbad
        · cases hrows
          exact ⟨before, bad, after, rfl, (List.forall_mem_cons.mp hbefore).2, hbad,
            by rw [List.length_cons]; omega, rfl⟩
    · constructor
      · rintro ⟨⟩
        exact ⟨[], row, rest, rfl, by simp, hrow, rfl, rfl⟩
      · rintro ⟨_ | ⟨other, before⟩, bad, after, hrows, hbefore, hbad, rfl, rfl⟩
        · cases hrows
          rfl
        · cases hrows
          exact absurd (List.forall_mem_cons.mp hbefore).1 hrow

end Rows

section Columns

theorem sharedOf_of_tooMany (h : 2 ^ depth < block.commitments.length) :
    sharedOf block depth =
      .error (.tooManyCommitments block.commitments.length depth (2 ^ depth)) := by
  have hleaves : Commitment.leaves block.message.body.commitments depth =
      .error (.tooManyCommitments block.commitments.length depth (2 ^ depth)) :=
    if_neg (Nat.not_le.mpr h)
  simp only [sharedOf, Body.commitmentsBranch, Body.leaves, Commitment.listRoot, hleaves]
  rfl

theorem isColumn_column (hshared : sharedOf block depth = .ok shared) (small : n ≤ 2 ^ 64)
    (rect : ∀ row ∈ rows, row.length = n) (hc : c < n) :
    IsColumn block depth rows c (column shared rows c) := by
  obtain ⟨hbranch, hheader, hcommitments⟩ := sharedOf_eq_ok.mp hshared
  refine ⟨column_index small hc, forall₂_filterMap fun row hrow => ?_,
    forall₂_filterMap fun row hrow => ?_, hcommitments, ⟨_, hheader, rfl⟩, hbranch⟩
  · have hcell := ExtendedBlob.cells_getElem? (hc.trans_eq (rect row hrow).symm)
    exact ⟨_, hcell, hcell⟩
  · have hproof := ExtendedBlob.proofs_getElem? (hc.trans_eq (rect row hrow).symm)
    exact ⟨_, hproof, hproof⟩

theorem IsColumn.eq_column {s : ColumnSidecar} (h : IsColumn block depth rows c s)
    (hshared : sharedOf block depth = .ok shared) : s = column shared rows c := by
  obtain ⟨hbranch, hheader, hcommitments⟩ := sharedOf_eq_ok.mp hshared
  obtain ⟨header, hheader', hsome⟩ := h.header_ok
  have hindex : s.index = c.toUInt64 := by
    rw [← h.index_eq]
    exact UInt64.ofNat_toNat.symm
  have hcells : s.cells = rows.filterMap (·.cells[c]?) := (filterMap_of_forall₂ h.cells).symm
  have hproofs : s.proofs = rows.filterMap (·.proofs[c]?) := (filterMap_of_forall₂ h.proofs).symm
  have hsigned : s.header = some shared.header := by
    rw [hsome, Except.ok.inj (hheader'.symm.trans hheader)]
  have hproof : s.inclusionProof = shared.inclusionProof :=
    Except.ok.inj (h.inclusionProof_ok.symm.trans hbranch)
  obtain ⟨index, cells, commitments, proofs, signed, branch⟩ := s
  simp only [column, ColumnSidecar.mk.injEq]
  exact ⟨hindex, hcells, h.commitments_eq.trans hcommitments.symm, hproofs, hsigned, hproof⟩

theorem map_column_eq (hshared : sharedOf block depth = .ok shared)
    {built : List ColumnSidecar} (hcolumns : built.length = n)
    (h : ∀ c s, built[c]? = some s → IsColumn block depth rows c s) :
    (List.range n).map (column shared rows) = built := by
  apply List.ext_getElem
  · rw [List.length_map, List.length_range, hcolumns]
  · intro c hc hbuilt
    rw [List.getElem_map, List.getElem_range]
    exact ((h c _ (List.getElem?_eq_getElem hbuilt)).eq_column hshared).symm

theorem isColumn_of_map (hshared : sharedOf block depth = .ok shared) (small : n ≤ 2 ^ 64)
    (rect : ∀ row ∈ rows, row.length = n) :
    ∀ c s, ((List.range n).map (column shared rows))[c]? = some s →
      IsColumn block depth rows c s := by
  intro c s h
  obtain ⟨hc, rfl⟩ := List.getElem?_eq_some_iff.mp h
  rw [List.getElem_map, List.getElem_range]
  rw [List.length_map, List.length_range] at hc
  exact isColumn_column hshared small rect hc

end Columns

section Reading

variable {built : List ColumnSidecar} (hcolumns : built.length = n)
  (rect : ∀ row ∈ rows, row.length = n)
  (h : ∀ c s, built[c]? = some s → IsColumn block depth rows c s)

include hcolumns rect h

theorem readRows_of_columns (hn : 1 ≤ n) : readRows built = .ok rows := by
  obtain ⟨first, rest, rfl⟩ := List.exists_cons_of_length_pos (hn.trans_eq hcolumns.symm)
  have hcount : first.blobCount = rows.length := (h 0 first rfl).cells.length_eq.symm
  rw [readRows, List.head?_cons, Option.elim_some, hcount, Outcome.mapM_eq_ok, List.forall₂_iff_get]
  refine ⟨List.length_range, fun r _ hr => ?_⟩
  rw [List.get_eq_getElem, List.get_eq_getElem, List.getElem_range]
  have hcells : (first :: rest).length = rows[r].cells.length :=
    hcolumns.trans (rect _ (List.getElem_mem hr)).symm
  rw [filterMap_of_transposed (fun c s hs => (h c s hs).cells) hr hcells,
    filterMap_of_transposed (fun c s hs => (h c s hs).proofs) hr
      (hcells.trans rows[r].length_eq)]
  exact dif_pos rows[r].length_eq

end Reading

theorem sidecars_eq_of_encoded {block : Option SignedBlock}
    {outcome : Except ValidationError (List ColumnSidecar)} (h : Encoded p block rows outcome) :
    sidecars block rows p = outcome := by
  cases h with
  | noBlock => rfl
  | noBlobs => rfl
  | blobCount hrows hlength =>
    simp [sidecars, hrows, hlength]
  | tooMany hrows hlength hmany =>
    simp [sidecars, hrows, hlength, sharedOf_of_tooMany hmany]
  | @cellCount block before after row hlength fits hbefore hrow =>
    obtain ⟨shared, hshared⟩ := exists_sharedOf fits
    have hbad : firstBadRow p.columns (before ++ row :: after) 0 =
        some (before.length, row.length) :=
      firstBadRow_eq_some.mpr ⟨before, row, after, rfl, hbefore, hrow, (Nat.zero_add _).symm, rfl⟩
    -- What the columns share is there already when the rows are looked at.
    simp only [sidecars, hshared, transpose, hbad]
    simp [hlength]
  | columns hrows hlength fits rect hcolumns hbuilt =>
    obtain ⟨shared, hshared⟩ := exists_sharedOf fits
    exact (sidecars_eq_ok hrows).mpr ⟨hlength, shared, hshared,
      transpose_eq_ok.mpr ⟨rect, map_column_eq hshared hcolumns hbuilt⟩⟩

theorem exists_encoded (p : Parameters) (block : Option SignedBlock) (rows : List ExtendedBlob) :
    ∃ outcome, Encoded p block rows outcome := by
  rcases block with _ | block
  · exact ⟨_, .noBlock rows⟩
  rcases eq_or_ne rows [] with rfl | hrows
  · exact ⟨_, .noBlobs block⟩
  rcases ne_or_eq rows.length block.commitments.length with hlength | hlength
  · exact ⟨_, .blobCount hrows hlength⟩
  rcases lt_or_ge (2 ^ p.commitmentsTreeDepth) block.commitments.length with hmany | fits
  · exact ⟨_, .tooMany hrows hlength hmany⟩
  cases hbad : firstBadRow p.columns rows 0 with
  | some bad =>
    obtain ⟨before, row, after, rfl, hbefore, hrow, -, -⟩ := firstBadRow_eq_some.mp hbad
    exact ⟨_, .cellCount hlength fits hbefore hrow⟩
  | none =>
    have rect := firstBadRow_eq_none.mp hbad
    obtain ⟨shared, hshared⟩ := exists_sharedOf fits
    have small : p.columns ≤ 2 ^ 64 := p.numberOfColumns.toNat_lt.le
    refine ⟨.ok ((List.range p.columns).map (column shared rows)),
      .columns hrows hlength fits rect ?_ (isColumn_of_map hshared small rect)⟩
    rw [List.length_map, List.length_range]

theorem encoded_sidecars (p : Parameters) (block : Option SignedBlock) (rows : List ExtendedBlob) :
    Encoded p block rows (sidecars block rows p) := by
  obtain ⟨outcome, h⟩ := exists_encoded p block rows
  rwa [sidecars_eq_of_encoded h]

/--
Encoding has exactly one outcome for a block and its rows, the first of its faults or the columns of
the matrix, and all rows can be read off the columns of a block unless there are none.
-/
theorem sidecars_eq_iff_encoded (p : Parameters) (rows : List ExtendedBlob) :
    (∀ block outcome, sidecars block rows p = outcome ↔ Encoded p block rows outcome) ∧
      ∀ block built, sidecars (some block) rows p = .ok built → 1 ≤ p.columns →
        readRows built = .ok rows := by
  constructor
  · intro block outcome
    constructor
    · rintro rfl
      exact encoded_sidecars p block rows
    · exact sidecars_eq_of_encoded
  · intro block built hbuilt hcolumns
    have hencoded := encoded_sidecars p (some block) rows
    rw [hbuilt] at hencoded
    cases hencoded with
    | noBlobs => rfl
    | columns _ _ _ rect hlength h => exact readRows_of_columns hlength rect h hcolumns

def numbered : ExtendedBlob where
  cells := (List.range 128).map fun c => ⟨⟨#[c.toUInt8]⟩⟩
  proofs := List.replicate 128 Commitment.infinity
  length_eq := by simp

def noCells : ExtendedBlob where
  cells := []
  proofs := []
  length_eq := rfl

/-- Two rows of 128 cells are read back, and a row without cells behind a whole one is named. -/
theorem sidecars_of_two_rows :
    ∃ block built, sidecars (some block) [.zeros, numbered] {} = .ok built ∧
      1 ≤ ({} : Parameters).columns ∧ readRows built = .ok [.zeros, numbered] ∧
      sidecars (some block) [.zeros, noCells] {} = .error (.cellCount 1 128 0) := by
  let block : SignedBlock := { message := { body := { commitments := [.infinity, .infinity] } } }
  have fits : block.commitments.length ≤ 2 ^ ({} : Parameters).commitmentsTreeDepth := by decide
  have rect : ∀ row ∈ [ExtendedBlob.zeros, numbered], row.length = 128 := by
    simp [ExtendedBlob.length, ExtendedBlob.zeros, numbered]
  obtain ⟨shared, hshared⟩ := exists_sharedOf fits
  have hcolumns : transpose shared [.zeros, numbered] {} = .ok _ :=
    transpose_eq_ok.mpr ⟨rect, rfl⟩
  have hbuilt : sidecars (some block) [.zeros, numbered] {} = .ok _ :=
    (sidecars_eq_ok (by simp)).mpr ⟨rfl, shared, hshared, hcolumns⟩
  refine ⟨block, _, hbuilt, by decide,
    (sidecars_eq_iff_encoded {} [.zeros, numbered]).2 block _ hbuilt (by decide), ?_⟩
  rw [(sidecars_eq_iff_encoded {} [.zeros, noCells]).1]
  have hzeros : ∀ other ∈ [ExtendedBlob.zeros], other.length = 128 := by
    simp [ExtendedBlob.length, ExtendedBlob.zeros]
  exact @Encoded.cellCount {} block [.zeros] [] noCells rfl fits hzeros (by decide)

end Encoding

end ColumnSampling
