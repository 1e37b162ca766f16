import ColumnSampling.Proofs.Column.Recovery
import ColumnSampling.Proofs.Column.RoundTrip
import ColumnSampling.Proofs.Guarded.Merkle

/-!
# Guarded work on columns

Cells are pushed onto the column at their position and read from their row, and the first of several
sidecars is read without asking whether there is one. That all of these exist follows from what was
checked before: the rows that are encoded are as long as there are columns, and the columns that
rows are read from are of one block.
-/

namespace ColumnSampling

open Guarded

namespace Encoding

variable {α : Type}

/-- Pushes each item onto the list at its position, from `index` on. -/
def push (lists : List (List α)) : (index : ℕ) → (items : List α) → Guarded (List (List α))
  | _, [] => .ok lists
  | index, item :: rest => do
    let list ← pick lists index
    push (lists.set index (list ++ [item])) (index + 1) rest

theorem push_eq {pushed others : List (List α)} {items : List α}
    (h : items.length = others.length) :
    push (pushed ++ others) pushed.length items =
      .ok (pushed ++ List.zipWith (fun list item => list ++ [item]) others items) := by
  induction items generalizing pushed others with
  | nil =>
    obtain rfl := List.length_eq_zero_iff.mp h.symm
    rfl
  | cons item rest ih =>
    obtain ⟨list, others, rfl⟩ := List.exists_cons_of_length_eq_add_one h.symm
    have hlist : (pushed ++ list :: others)[pushed.length]? = some list := by simp
    have hset : (pushed ++ list :: others).set pushed.length (list ++ [item]) =
        (pushed ++ [list ++ [item]]) ++ others := by simp
    have hlength : pushed.length + 1 = (pushed ++ [list ++ [item]]).length := by simp
    rw [push, pick_of_getElem? hlist, ok_bind, hset, hlength, ih (by simpa using h)]
    simp

theorem push_zero {lists : List (List α)} {items : List α} (h : items.length = lists.length) :
    push lists 0 items = .ok (List.zipWith (fun list item => list ++ [item]) lists items) :=
  @push_eq α [] lists items h

def gather (n : ℕ) (entries : ExtendedBlob → List α) (rows : List ExtendedBlob) :
    Guarded (List (List α)) :=
  rows.foldlM (fun lists row => push lists 0 (entries row)) (List.replicate n [])

theorem gather_eq {n : ℕ} {entries : ExtendedBlob → List α} {rows : List ExtendedBlob}
    (rect : ∀ row ∈ rows, (entries row).length = n) : gather n entries rows =
      .ok ((List.range n).map fun c => rows.filterMap fun row => (entries row)[c]?) := by
  induction rows using List.reverseRecOn with
  | nil => simp [gather, pure, Except.pure]
  | append_singleton before row ih =>
    have hrow : (entries row).length = n := rect row (by simp)
    have hbefore := ih fun other h => rect other (by simp [h])
    rw [gather, List.foldlM_append, ← gather, hbefore, ok_bind, List.foldlM_cons,
      push_zero (by simp [hrow]), ok_bind, List.foldlM_nil]
    refine congrArg Except.ok (List.ext_getElem (by simp [hrow]) fun c hc _ => ?_)
    have hc : c < (entries row).length := by simpa [hrow] using hc
    simp [hc]

def transposeGuarded (shared : Shared) (rows : List ExtendedBlob) (p : Parameters) :
    Guarded (Except ValidationError (List ColumnSidecar)) :=
  match firstBadRow p.columns rows 0 with
  | some (blob, actual) => .ok (.error (.cellCount blob p.columns actual))
  | none => do
    let cells ← gather p.columns (·.cells) rows
    let proofs ← gather p.columns (·.proofs) rows
    return .ok ((cells.zip proofs).mapIdx fun index lists =>
      { index := index.toUInt64, cells := lists.1, commitments := shared.commitments,
        proofs := lists.2, header := some shared.header,
        inclusionProof := shared.inclusionProof })

/-- Every row was checked to have one cell for each column before the first is pushed. -/
theorem transposeGuarded_eq (shared : Shared) (rows : List ExtendedBlob) (p : Parameters) :
    transposeGuarded shared rows p = .ok (transpose shared rows p) := by
  unfold transposeGuarded transpose
  cases hbad : firstBadRow p.columns rows 0 with
  | some bad => rfl
  | none =>
    have rect := firstBadRow_eq_none.mp hbad
    have rectProofs : ∀ row ∈ rows, row.proofs.length = p.columns := fun row hrow =>
      row.length_eq.symm.trans (rect row hrow)
    simp only [gather_eq rect, gather_eq rectProofs, ok_bind]
    refine congrArg (Except.ok ∘ Except.ok) (List.ext_getElem (by simp) fun c _ _ => ?_)
    simp [column]

section Block

variable {depth : ℕ} {p : Parameters}

def sharedOfGuarded (block : SignedBlock) (depth : ℕ) : Guarded (Except MerkleError Shared) :=
  andThen (block.message.body.commitmentsBranchGuarded depth) fun inclusionProof =>
    andThen (block.headerGuarded depth) fun header =>
      return .ok { commitments := block.commitments, inclusionProof := inclusionProof,
                   header := header }

def sidecarsGuarded (block : Option SignedBlock) (rows : List ExtendedBlob) (p : Parameters) :
    Guarded (Except ValidationError (List ColumnSidecar)) :=
  match block with
  | none => .ok (.ok [])
  | some block =>
    if rows.isEmpty then .ok (.ok [])
    else if rows.length ≠ block.commitments.length then
      .ok (.error (.blobCount block.commitments.length rows.length))
    else do
      let depth ← p.commitmentsTreeDepthGuarded
      match ← sharedOfGuarded block depth with
      | .error cause => return .error (.block cause)
      | .ok shared => transposeGuarded shared rows p

theorem sharedOfGuarded_eq (hdepth : depth < 64) (block : SignedBlock) :
    sharedOfGuarded block depth = .ok (sharedOf block depth) := by
  refine andThen_eq (block.message.body.commitmentsBranchGuarded_eq hdepth) fun branch _ => ?_
  exact andThen_eq (block.headerGuarded_eq hdepth) fun _ _ => rfl

theorem sidecarsGuarded_eq (valid : p.Valid) (block : Option SignedBlock)
    (rows : List ExtendedBlob) : sidecarsGuarded block rows p = .ok (sidecars block rows p) := by
  unfold sidecarsGuarded sidecars
  cases block with
  | none => rfl
  | some block =>
    simp only [valid.commitmentsTreeDepthGuarded_eq, ok_bind,
      sharedOfGuarded_eq valid.commitmentsTreeDepth_lt, transposeGuarded_eq]
    split_ifs
    · rfl
    · rfl
    · cases sharedOf block p.commitmentsTreeDepth <;> rfl

end Block

end Encoding

namespace ColumnSidecar

def checkInclusionGuarded (s : ColumnSidecar) (p : Parameters) :
    Guarded (Except EngineError Unit) :=
  match s.header with
  | none => .ok (.error (.validation (.noHeader s.index.toNat)))
  | some header =>
    if p.rootLength.toNat ≠ bytesPerRoot then
      .ok (.error (.validation (.rootLength p.rootLength.toNat bytesPerRoot)))
    else do
      let depth ← p.commitmentsTreeDepthGuarded
      match ← Commitment.listRootGuarded s.commitments depth with
      | .error cause => return .error (.validation (.block cause))
      | .ok list =>
        if Merkle.checkBranch list s.inclusionProof p.inclusionProofDepth.toNat
            commitmentsFieldIndex header.message.bodyRoot then return .ok ()
        else return .error (.cryptographic (.invalidInclusionProof s.index.toNat))

/-- A verified column. Nothing but the first gate looks at the lengths of its lists. -/
def verifiedGuarded (s : ColumnSidecar) : Guarded (Except EngineError VerifiedColumn) :=
  match s.verified with
  | .error (.validation (.mismatchedLengths ..)) => .error .unaligned
  | outcome => .ok outcome

variable {s : ColumnSidecar} {p : Parameters}

theorem checkInclusionGuarded_eq (valid : p.Valid) (s : ColumnSidecar) :
    s.checkInclusionGuarded p = .ok (s.checkInclusion p) := by
  unfold checkInclusionGuarded checkInclusion
  cases s.header with
  | none => rfl
  | some header =>
    simp only [valid.commitmentsTreeDepthGuarded_eq, ok_bind,
      Commitment.listRootGuarded_eq valid.commitmentsTreeDepth_lt]
    split_ifs
    · rfl
    · cases Commitment.listRoot s.commitments p.commitmentsTreeDepth with
      | error cause => rfl
      | ok list => simp only []; split_ifs <;> rfl

theorem verified_of_none (h : s.header = none) :
    s.verified = .error (.validation (.noHeader s.index.toNat)) := by
  unfold verified
  split
  · rfl
  · simp_all

theorem verifiedGuarded_eq (h : s.checkStructure p = .ok ()) :
    s.verifiedGuarded = .ok s.verified := by
  obtain ⟨-, -, hcells, hproofs⟩ := checkStructure_eq_ok.mp h
  unfold verifiedGuarded
  cases hheader : s.header with
  | none => rw [verified_of_none hheader]
  | some header =>
    obtain ⟨v, hv, -⟩ := exists_verified hheader hcells.symm (hproofs.trans hcells.symm)
    rw [hv]

end ColumnSidecar

namespace Verification

variable {p : Parameters}

def checkSidecarGuarded (p : Parameters) (s : ColumnSidecar) : Guarded (Except EngineError Unit) :=
  match s.checkStructure p with
  | .error cause => .ok (.error (.validation cause))
  | .ok () => s.checkInclusionGuarded p

def verifyGuarded (kzg : KzgBackend) (batch : List ColumnSidecar) (p : Parameters) :
    Guarded (Except EngineError (List VerifiedColumn)) :=
  andThen (each (checkSidecarGuarded p) batch) fun _ =>
    match checkProofs kzg batch with
    | .error cause => return .error (.cryptographic cause)
    | .ok () => build (·.verifiedGuarded) batch

theorem checkSidecarGuarded_eq (valid : p.Valid) (s : ColumnSidecar) :
    checkSidecarGuarded p s = .ok (checkSidecar p s) := by
  unfold checkSidecarGuarded checkSidecar
  cases s.checkStructure p with
  | error cause => rfl
  | ok _ => exact s.checkInclusionGuarded_eq valid

/-- What is handed out passed the first gate, so its lists fit together. -/
theorem verifyGuarded_eq (valid : p.Valid) (kzg : KzgBackend) (batch : List ColumnSidecar) :
    verifyGuarded kzg batch p = .ok (verify kzg batch p) := by
  refine andThen_eq (each_eq fun s _ => checkSidecarGuarded_eq valid s) fun _ hchecks => ?_
  cases checkProofs kzg batch with
  | error cause => rfl
  | ok _ =>
    refine build_eq fun s hs => ?_
    have hs := Outcome.forM_eq_ok.mp hchecks s hs
    exact ColumnSidecar.verifiedGuarded_eq (checkSidecar_eq_ok.mp hs).1

end Verification

namespace Decoding

open VerifiedColumn

variable {kzg : KzgBackend} {p : Parameters} {columns sidecars : List VerifiedColumn}
  {first : VerifiedColumn} {row : ℕ}

def rowDataGuarded (columns : List VerifiedColumn) (row : ℕ) : Guarded ByteArray :=
  columns.foldlM (fun data c => do
    let cell ← pick c.sidecar.cells row
    return data ++ cell.data) .empty

def blobSidecarGuarded (kzg : KzgBackend) (depth : ℕ) (first : VerifiedColumn)
    (columns : List VerifiedColumn) (row : ℕ) : Guarded (Except EngineError BlobSidecar) := do
  let data ← rowDataGuarded columns row
  match Blob.ofBytes data with
  | .error reason => return .error (.validation (.invalidCell 0 row reason))
  | .ok blob =>
    let commitment ← pick first.sidecar.commitments row
    match kzg.blobProof blob commitment with
    | .error cause => return .error (.kzg cause)
    | .ok proof =>
      match ← Commitment.inclusionProofGuarded first.sidecar.commitments row depth
          first.sidecar.inclusionProof blockBodyTreeDepth with
      | .error cause => return .error (.validation (.block cause))
      | .ok nodes =>
        return .ok { index := row.toUInt64, blob := blob, commitment := commitment, proof := proof,
                     header := first.header, inclusionProof := nodes }

def blobsGuarded (kzg : KzgBackend) (sidecars : List VerifiedColumn) (indices : List ℕ)
    (p : Parameters) : Guarded (Except EngineError (List BlobSidecar)) :=
  let needed := List.range p.columnsForRecovery
  let missing := needed.filter fun column => (lastOf sidecars column).isNone
  if missing ≠ [] then .ok (.error (.reconstruction (.missingColumns missing)))
  else
    let systematic := needed.filterMap (lastOf sidecars)
    match systematic with
    | [] => .ok (.ok [])
    | first :: _ =>
      match (distinct sidecars).forM first.sameBlock with
      | .error cause => .ok (.error (.validation cause))
      | .ok () => do
        let depth ← p.commitmentsTreeDepthGuarded
        build (blobSidecarGuarded kzg depth first systematic)
          (requestedRows indices first.blobCount)

theorem rowDataGuarded_eq (h : ∀ c ∈ columns, row < c.blobCount) :
    rowDataGuarded columns row = .ok (rowData columns row) := by
  refine foldlM_eq_foldl (fun c hc data => ?_) _
  have hrow : row < c.sidecar.cells.length := h c hc
  rw [pick_of_lt hrow, ok_bind, List.getElem?_eq_getElem hrow]
  rfl

theorem blobSidecarGuarded_eq (hdepth : p.commitmentsTreeDepth < 64)
    (hcolumns : ∀ c ∈ columns, row < c.blobCount) (hfirst : row < first.blobCount) :
    blobSidecarGuarded kzg p.commitmentsTreeDepth first columns row =
      .ok (blobSidecar kzg p first columns row) := by
  have hrow : row < first.sidecar.commitments.length :=
    hfirst.trans_eq first.length_commitments.symm
  unfold blobSidecarGuarded blobSidecar
  rw [rowDataGuarded_eq hcolumns, ok_bind]
  simp only [pick_of_lt hrow, ok_bind, List.getElem?_eq_getElem hrow,
    Commitment.inclusionProofGuarded_eq hdepth]
  cases Blob.ofBytes (rowData columns row) with
  | error reason => rfl
  | ok blob =>
    simp only []
    cases kzg.blobProof blob first.sidecar.commitments[row] with
    | error cause => rfl
    | ok proof =>
      simp only []
      cases Commitment.inclusionProof first.sidecar.commitments row p.commitmentsTreeDepth
        first.sidecar.inclusionProof blockBodyTreeDepth <;> rfl

/-- The rows asked for are rows of the first column, and so of every column of its block. -/
theorem blobsGuarded_eq (valid : p.Valid) (kzg : KzgBackend) (sidecars : List VerifiedColumn)
    (indices : List ℕ) :
    blobsGuarded kzg sidecars indices p = .ok (blobs kzg sidecars indices p) := by
  unfold blobsGuarded blobs
  simp only []
  split_ifs
  · rfl
  cases hsystematic : (List.range p.columnsForRecovery).filterMap (lastOf sidecars) with
  | nil => rfl
  | cons first others =>
    cases hsame : (distinct sidecars).forM first.sameBlock with
    | error cause => simp only [hsame]
    | ok _ =>
      simp only [hsame, valid.commitmentsTreeDepthGuarded_eq, ok_bind]
      refine build_eq fun row hrow => ?_
      have hfirst : row < first.blobCount := lt_of_mem_requestedRows hrow
      refine blobSidecarGuarded_eq valid.commitmentsTreeDepth_lt (fun c hc => ?_) hfirst
      -- A column of the first half is one of those that were compared with the first.
      rw [← hsystematic] at hc
      obtain ⟨n, -, hlast⟩ := List.mem_filterMap.mp hc
      obtain ⟨hmem, hindex⟩ := lastOf_eq_some hlast
      have hc : c ∈ distinct sidecars := mem_distinct.mpr ⟨hmem, hindex ▸ hlast⟩
      exact hfirst.trans_eq (forM_sameBlock_eq_ok.mp hsame c hc).blobCount_eq

end Decoding

namespace Reconstruction

variable {kzg : KzgBackend} {found sidecars : List VerifiedColumn} {row : ℕ}

def rowCellsGuarded (columns : List VerifiedColumn) (row : ℕ) : Guarded (List Cell) :=
  columns.mapM fun c => pick c.sidecar.cells row

def recoverRowGuarded (kzg : KzgBackend) (columns : List VerifiedColumn) (row : ℕ) :
    Guarded (Except ReconstructionError ExtendedBlob) := do
  let cells ← rowCellsGuarded columns row
  match kzg.recover (columns.map (·.index)) cells with
  | .error cause => return .error (.blobRecovery row cause)
  | .ok blob => return .ok blob

def recoverGuarded (kzg : KzgBackend) (sidecars : List VerifiedColumn) :
    Guarded (Except ReconstructionError (List ExtendedBlob)) :=
  match distinctColumns sidecars with
  | .error cause => .ok (.error cause)
  | .ok columns =>
    build (recoverRowGuarded kzg columns) (List.range (columns.head?.elim 0 (·.blobCount)))

def columnsGuarded (kzg : KzgBackend) (sidecars : List VerifiedColumn) (p : Parameters) :
    Guarded (Except EngineError (List ColumnSidecar)) :=
  match distinctColumns sidecars with
  | .error cause => .ok (.error (.reconstruction cause))
  | .ok present =>
    if p.columns ≤ present.length then .ok (.ok (present.map (·.sidecar)))
    else if present.length < p.columnsForRecovery then
      .ok (.error (.reconstruction (.notEnoughColumns present.length p.columnsForRecovery)))
    else do
      match ← recoverGuarded kzg sidecars with
      | .error cause => return .error (.reconstruction cause)
      | .ok rows =>
        let first ← pick sidecars 0
        match ← Encoding.transposeGuarded (sharedOf first) rows p with
        | .error cause => return .error (.validation cause)
        | .ok rebuilt =>
          -- How many columns were recovered is told to the log.
          let _ ← minus rebuilt.length present.length
          return .ok rebuilt

theorem rowCellsGuarded_eq (h : ∀ c ∈ found, row < c.blobCount) :
    rowCellsGuarded found row = .ok (rowCells found row) := by
  rw [rowCellsGuarded, Outcome.mapM_eq_ok, rowCells]
  induction found with
  | nil => exact .nil
  | cons c rest ih =>
    obtain ⟨hc, hrest⟩ := List.forall_mem_cons.mp h
    have hcell : c.sidecar.cells[row]? = some c.sidecar.cells[row] := List.getElem?_eq_getElem hc
    simp only [List.filterMap_cons, hcell]
    exact .cons (pick_of_getElem? hcell) (ih hrest)

theorem recoverRowGuarded_eq (h : ∀ c ∈ found, row < c.blobCount) :
    recoverRowGuarded kzg found row = .ok (recoverRow kzg found row) := by
  rw [recoverRowGuarded, rowCellsGuarded_eq h, ok_bind, recoverRow]
  cases kzg.recover (found.map (·.index)) (rowCells found row) <;> rfl

theorem blobCount_of_distinctColumns (h : distinctColumns sidecars = .ok found)
    (hrow : row < found.head?.elim 0 (·.blobCount)) : ∀ c ∈ found, row < c.blobCount := by
  cases sidecars with
  | nil => cases h
  | cons first rest =>
    obtain ⟨same, rfl⟩ := distinctColumns_eq_ok.mp h
    rw [blobCount_present same] at hrow
    intro c hc
    exact hrow.trans_eq (same c (mem_of_mem_present hc)).blobCount_eq

theorem recoverGuarded_eq (kzg : KzgBackend) (sidecars : List VerifiedColumn) :
    recoverGuarded kzg sidecars = .ok (recover kzg sidecars) := by
  unfold recoverGuarded recover
  cases hdistinct : distinctColumns sidecars with
  | error cause => rfl
  | ok columns =>
    refine build_eq fun row hrow => recoverRowGuarded_eq ?_
    exact blobCount_of_distinctColumns hdistinct (List.mem_range.mp hrow)

/-- There are more columns rebuilt than present, and the present ones are not none. -/
theorem columnsGuarded_eq (kzg : KzgBackend) (sidecars : List VerifiedColumn) (p : Parameters) :
    columnsGuarded kzg sidecars p = .ok (columns kzg sidecars p) := by
  unfold columnsGuarded columns
  cases hdistinct : distinctColumns sidecars with
  | error cause => rfl
  | ok present =>
    simp only []
    split_ifs with hall hfew
    · rfl
    · rfl
    -- A list without a first sidecar has no distinct columns.
    obtain _ | ⟨first, rest⟩ := sidecars
    · cases hdistinct
    simp only [recoverGuarded_eq, ok_bind]
    cases recover kzg (first :: rest) with
    | error cause => rfl
    | ok rows =>
      have hfirst : (first :: rest)[0]? = some first := rfl
      simp only [pick_of_getElem? hfirst, ok_bind, Encoding.transposeGuarded_eq]
      cases htranspose : Encoding.transpose (sharedOf first) rows p with
      | error cause => rfl
      | ok rebuilt =>
        have hlength : rebuilt.length = p.columns := by
          rw [← (Encoding.transpose_eq_ok.mp htranspose).2, List.length_map, List.length_range]
        simp only [minus_of_le (show present.length ≤ rebuilt.length by omega), ok_bind]
        rfl

end Reconstruction

end ColumnSampling
