import ColumnSampling.Proofs.Column.Recovery
import Mathlib.Data.List.ReduceOption

/-!
# What recovery asks the backend

Recovery turns the columns of one block into a problem for each blob: the columns present in
ascending order, each with the cell that its first sidecar has in the row of the blob. No row
depends on another, so the rows may be taken in any order, or side by side. Each answer has a slot
of its own, and the answers come out row by row; if some row fails, then the failure that is
reported is that of a row which failed.
-/

namespace ColumnSampling.Reconstruction

open Encoding VerifiedColumn

structure Problem where
  columns : List ℕ
  cells : List Cell

def Problem.answer (q : Problem) (kzg : KzgBackend) : Except KzgError ExtendedBlob :=
  kzg.recover q.columns q.cells

/-- The distinct columns of a list in ascending order, each with the cell that its first sidecar has
in the row. -/
structure Problem.OfRow (q : Problem) (sidecars : List VerifiedColumn) (row : ℕ) : Prop where
  ascending : q.columns.Pairwise (· < ·)
  mem_columns : ∀ c, c ∈ q.columns ↔ ∃ v ∈ sidecars, v.index = c
  aligned : List.Forall₂ (fun c cell => ∃ v, firstOf sidecars c = some v ∧
    v.sidecar.cells[row]? = some cell) q.columns q.cells

def problem (columns : List VerifiedColumn) (row : ℕ) : Problem where
  columns := columns.map (·.index)
  cells := rowCells columns row

def problems (sidecars : List VerifiedColumn) : List Problem :=
  (List.range (sidecars.head?.elim 0 (·.blobCount))).map (problem (present sidecars))

/-- What recovery may come to: the answers row by row, or the failure of a row. -/
inductive Recovered (kzg : KzgBackend) (asked : List Problem) :
    Except ReconstructionError (List ExtendedBlob) → Prop
  | rows {rows : List ExtendedBlob}
      (h : List.Forall₂ (fun q row => q.answer kzg = .ok row) asked rows) :
      Recovered kzg asked (.ok rows)
  | failed {r : ℕ} {q : Problem} {cause : KzgError} (hr : asked[r]? = some q)
      (h : q.answer kzg = .error cause) : Recovered kzg asked (.error (.blobRecovery r cause))

/-- The rows taken one after the other. Each answer goes into the slot of its row, and the first
failure ends the work. -/
def fillSlots (kzg : KzgBackend) (columns : List VerifiedColumn) (order : List ℕ)
    (slots : List (Option ExtendedBlob)) :
    Except ReconstructionError (List (Option ExtendedBlob)) :=
  order.foldlM (fun slots row => return slots.set row (some (← recoverRow kzg columns row))) slots

/-- Recovery with its rows taken in some order. At the end the slots are joined; one that was never
filled would be passed over. -/
def recoverInOrder (kzg : KzgBackend) (sidecars : List VerifiedColumn) (order : List ℕ) :
    Except ReconstructionError (List ExtendedBlob) :=
  match distinctColumns sidecars with
  | .error e => .error e
  | .ok columns =>
    (fillSlots kzg columns order (List.replicate (columns.head?.elim 0 (·.blobCount)) none)).map
      List.reduceOption

variable {kzg : KzgBackend} {columns sidecars rest : List VerifiedColumn} {first : VerifiedColumn}
  {order : List ℕ} {slots filled : List (Option ExtendedBlob)} {r : ℕ}

section Slots

theorem recoverRow_eq_ok {blob : ExtendedBlob} :
    recoverRow kzg columns r = .ok blob ↔ (problem columns r).answer kzg = .ok blob := by
  unfold recoverRow Problem.answer problem
  split <;> next h => simp [h]

theorem recoverRow_eq_error {e : ReconstructionError} : recoverRow kzg columns r = .error e ↔
    ∃ cause, (problem columns r).answer kzg = .error cause ∧ e = .blobRecovery r cause := by
  unfold recoverRow Problem.answer problem
  split <;> next h => simp [h, eq_comm]

theorem fillSlots_cons : fillSlots kzg columns (r :: order) slots =
    recoverRow kzg columns r >>= fun blob =>
      fillSlots kzg columns order (slots.set r (some blob)) := by
  rw [fillSlots, List.foldlM_cons]
  cases recoverRow kzg columns r <;> rfl

/-- The rows that were taken have their answers in their slots, and no other slot has changed. -/
theorem slot_of_fillSlots (h : fillSlots kzg columns order slots = .ok filled) :
    filled.length = slots.length ∧ ∀ r < slots.length,
      (r ∈ order → ∃ blob, recoverRow kzg columns r = .ok blob ∧ filled[r]? = some (some blob)) ∧
        (r ∉ order → filled[r]? = slots[r]?) := by
  induction order generalizing slots with
  | nil =>
    obtain rfl := Except.ok.inj h
    exact ⟨rfl, fun r _ => ⟨fun hr => absurd hr List.not_mem_nil, fun _ => rfl⟩⟩
  | cons row order ih =>
    rw [fillSlots_cons] at h
    obtain ⟨blob, hblob, h⟩ := Outcome.bind_eq_ok.mp h
    obtain ⟨hlength, hslots⟩ := ih h
    rw [List.length_set] at hlength hslots
    refine ⟨hlength, fun r hr => ?_⟩
    obtain ⟨hlater, hkept⟩ := hslots r hr
    -- A row that comes again is answered again, so its later answer counts.
    by_cases hmem : r ∈ order
    · exact ⟨fun _ => hlater hmem, fun hnot => absurd (List.mem_cons_of_mem _ hmem) hnot⟩
    · by_cases hrow : r = row
      · subst hrow
        refine ⟨fun _ => ⟨blob, hblob, ?_⟩, fun hnot => absurd List.mem_cons_self hnot⟩
        rw [hkept hmem, List.getElem?_set_self hr]
      · refine ⟨fun hcons => ?_, fun _ => ?_⟩
        · exact absurd (List.mem_cons.mp hcons) (not_or.mpr ⟨hrow, hmem⟩)
        · rw [hkept hmem, List.getElem?_set_ne (Ne.symm hrow)]

theorem exists_of_fillSlots_error {e : ReconstructionError}
    (h : fillSlots kzg columns order slots = .error e) :
    ∃ r ∈ order, recoverRow kzg columns r = .error e := by
  induction order generalizing slots with
  | nil => cases h
  | cons row order ih =>
    rw [fillSlots_cons] at h
    cases hrow : recoverRow kzg columns row with
    | error cause =>
      rw [hrow] at h
      cases h
      exact ⟨row, List.mem_cons_self, hrow⟩
    | ok blob =>
      rw [hrow] at h
      obtain ⟨r, hr, hfailed⟩ := ih h
      exact ⟨r, List.mem_cons_of_mem _ hr, hfailed⟩

/-- Slot by slot is row by row: the slots filled so far are the rows so far. -/
theorem fillSlots_range' (done : List ExtendedBlob) (n : ℕ) :
    fillSlots kzg columns (List.range' done.length n)
        (done.map some ++ List.replicate n none) =
      ((List.range' done.length n).mapM (recoverRow kzg columns)).map
        fun rows => (done ++ rows).map some := by
  induction n generalizing done with
  | zero => simp [fillSlots, pure, Except.pure, Except.map]
  | succ n ih =>
    rw [List.range'_succ, fillSlots_cons, List.mapM_cons, List.replicate_succ]
    cases recoverRow kzg columns done.length with
    | error e => rfl
    | ok blob =>
      have hset : (done.map some ++ none :: List.replicate n none).set done.length (some blob) =
          (done ++ [blob]).map some ++ List.replicate n none := by
        simp
      have hlater := ih (done ++ [blob])
      rw [List.length_append, List.length_singleton] at hlater
      simp only [bind, Except.bind, hset, hlater]
      cases (List.range' (done.length + 1) n).mapM (recoverRow kzg columns) with
      | error e => rfl
      | ok rows => simp [Except.map, pure, Except.pure]

end Slots

theorem reduceOption_map_some (rows : List ExtendedBlob) :
    (rows.map some).reduceOption = rows := by
  induction rows with
  | nil => rfl
  | cons row rows ih => rw [List.map_cons, List.reduceOption_cons_of_some, ih]

section Problems

theorem problems_getElem? (hr : r < first.blobCount) :
    (problems (first :: rest))[r]? = some (problem (present (first :: rest)) r) := by
  simp [problems, hr]

theorem forall₂_rowCells {R : ℕ → Cell → Prop}
    (h : ∀ v ∈ columns, ∃ cell, v.sidecar.cells[r]? = some cell ∧ R v.index cell) :
    List.Forall₂ R (columns.map (·.index)) (rowCells columns r) := by
  rw [List.forall₂_map_left_iff]
  exact forall₂_filterMap h

theorem problem_ofRow (hr : ∀ v ∈ sidecars, r < v.blobCount) :
    (problem (present sidecars) r).OfRow sidecars r := by
  refine ⟨?_, fun c => ?_, forall₂_rowCells fun v hv => ?_⟩
  · rw [problem, map_index_present]
    exact (coverage sidecars).sortedLT_sort.pairwise
  · rw [problem, map_index_present, Finset.mem_sort, mem_coverage]
  · have hlt : r < v.sidecar.cells.length := hr v (mem_of_mem_present hv)
    obtain ⟨c, -, hfirst⟩ := List.mem_filterMap.mp hv
    obtain ⟨-, rfl⟩ := firstOf_eq_some hfirst
    exact ⟨_, List.getElem?_eq_getElem hlt, v, hfirst, List.getElem?_eq_getElem hlt⟩

theorem recover_eq_inconsistent : (∃ cause, recover kzg (first :: rest) =
    .error (.inconsistent cause)) ↔ ∃ v ∈ first :: rest, ¬ first.SameBlock v := by
  by_cases same : ∀ v ∈ first :: rest, first.SameBlock v
  · refine iff_of_false ?_ ?_
    · rintro ⟨cause, hfailed⟩
      rw [recover, distinctColumns_eq_ok.mpr ⟨same, rfl⟩] at hfailed
      obtain ⟨row, reason, hrow⟩ := recoverRows_eq_error hfailed
      cases hrow
    · rintro ⟨v, hv, hother⟩
      exact hother (same v hv)
  · cases hcheck : (first :: rest).forM first.sameBlock with
    | ok _ => exact absurd (forM_sameBlock_eq_ok.mp hcheck) same
    | error cause =>
      have hfailed : recover kzg (first :: rest) = .error (.inconsistent cause) := by
        simp only [recover, distinctColumns, hcheck]
      exact iff_of_true ⟨cause, hfailed⟩ (by simpa only [not_forall, exists_prop] using same)

variable (same : ∀ v ∈ first :: rest, first.SameBlock v)

include same

theorem recoverInOrder_of_sameBlock : recoverInOrder kzg (first :: rest) order =
    (fillSlots kzg (present (first :: rest)) order (List.replicate first.blobCount none)).map
      List.reduceOption := by
  unfold recoverInOrder
  rw [distinctColumns_eq_ok.mpr ⟨same, rfl⟩]
  simp only [blobCount_present same]

theorem recover_eq_recoverInOrder : recover kzg (first :: rest) =
    recoverInOrder kzg (first :: rest) (List.range first.blobCount) := by
  have hfill := @fillSlots_range' kzg (present (first :: rest)) [] first.blobCount
  rw [List.length_nil, List.map_nil, List.nil_append, ← List.range_eq_range'] at hfill
  unfold recover
  rw [distinctColumns_eq_ok.mpr ⟨same, rfl⟩, recoverInOrder_of_sameBlock same, hfill]
  simp only [recoverRows, blobCount_present same]
  cases (List.range first.blobCount).mapM (recoverRow kzg (present (first :: rest))) with
  | error e => rfl
  | ok rows => exact congrArg Except.ok (reduceOption_map_some rows).symm

/-- Whichever order the rows are taken in, each once, recovery answers all problems or names one
that failed. -/
theorem recovered_of_order (once : order.Perm (List.range first.blobCount)) :
    Recovered kzg (problems (first :: rest)) (recoverInOrder kzg (first :: rest) order) := by
  have hmem (r : ℕ) : r ∈ order ↔ r < first.blobCount := by
    rw [once.mem_iff, List.mem_range]
  rw [recoverInOrder_of_sameBlock same]
  cases hfill : fillSlots kzg (present (first :: rest)) order
      (List.replicate first.blobCount none) with
  | error e =>
    obtain ⟨r, hr, hfailed⟩ := exists_of_fillSlots_error hfill
    obtain ⟨cause, hcause, rfl⟩ := recoverRow_eq_error.mp hfailed
    exact .failed (problems_getElem? ((hmem r).mp hr)) hcause
  | ok filled =>
    obtain ⟨hlength, hslots⟩ := slot_of_fillSlots hfill
    rw [List.length_replicate] at hlength hslots
    have hanswers : ∀ r ∈ List.range first.blobCount, ∃ blob,
        recoverRow kzg (present (first :: rest)) r = .ok blob ∧
          filled[r]? = some (some blob) := by
      intro r hr
      have hlt := List.mem_range.mp hr
      exact (hslots r hlt).1 ((hmem r).mpr hlt)
    obtain ⟨rows, hrows, hfilled⟩ := Outcome.exists_mapM_ok hanswers
    -- Every slot is filled, so nothing is passed over when the slots are joined.
    have hall : filled = rows.map some := by
      have hcount : rows.length = first.blobCount := by
        rw [← hfilled.length_eq, List.length_range]
      refine List.ext_getElem? fun r => ?_
      by_cases hr : r < first.blobCount
      · have hslot := hfilled.get (by simpa using hr) (hr.trans_eq hcount.symm)
        simpa [hr, hcount] using hslot
      · rw [List.getElem?_eq_none (by omega), List.getElem?_eq_none (by simpa [hcount] using hr)]
    rw [hall, Except.map, reduceOption_map_some]
    refine .rows ?_
    rw [problems, List.head?_cons, Option.elim_some, List.forall₂_map_left_iff]
    exact (Outcome.mapM_eq_ok.mp hrows).imp fun _ _ => recoverRow_eq_ok.mp

end Problems

/--
Recovery is inconsistent exactly if some sidecar is not of the block of the first one. Otherwise the
backend is asked one problem for each blob: the columns present in ascending order, each with the
cell of its first sidecar in the row of the blob. If all problems are answered, then the result has
the answers row by row; if not, then the failure is that of a row which failed, with the backend's
reason. It makes no difference in which order the rows are taken.
-/
theorem recovered_of_problems (kzg : KzgBackend) (first : VerifiedColumn)
    (rest : List VerifiedColumn) :
    ((∃ cause, recover kzg (first :: rest) = .error (.inconsistent cause)) ↔
      ∃ v ∈ first :: rest, ¬ first.SameBlock v) ∧
    ((∀ v ∈ first :: rest, first.SameBlock v) →
      (problems (first :: rest)).length = first.blobCount ∧
      (∀ (r : ℕ) (q : Problem), (problems (first :: rest))[r]? = some q →
        q.OfRow (first :: rest) r) ∧
      Recovered kzg (problems (first :: rest)) (recover kzg (first :: rest)) ∧
      ∀ order, order.Perm (List.range first.blobCount) →
        Recovered kzg (problems (first :: rest)) (recoverInOrder kzg (first :: rest) order)) := by
  refine ⟨recover_eq_inconsistent, fun same => ⟨by simp [problems], fun r q hq => ?_, ?_, ?_⟩⟩
  · obtain ⟨hr, -⟩ := List.getElem?_eq_some_iff.mp hq
    have hr : r < first.blobCount := by simpa [problems] using hr
    rw [problems_getElem? hr] at hq
    obtain rfl := Option.some.inj hq
    exact problem_ofRow fun v hv => hr.trans_eq (same v hv).blobCount_eq
  · rw [recover_eq_recoverInOrder same]
    exact recovered_of_order same (List.Perm.refl _)
  · exact fun order once => recovered_of_order same once

/-- Column 5 twice around column 3, with two blobs of zeros, whose rows may be taken backwards. -/
theorem recovered_of_repeated_column : ∃ (first : VerifiedColumn) (rest : List VerifiedColumn),
    (first :: rest).map (·.index) = [5, 3, 5] ∧ (∀ v ∈ first :: rest, first.SameBlock v) ∧
      [1, 0].Perm (List.range first.blobCount) ∧
      (∀ q ∈ problems (first :: rest), q.columns = [3, 5]) ∧
      recover .zeros (first :: rest) = .ok [.zeros, .zeros] ∧
      recoverInOrder .zeros (first :: rest) [1, 0] = .ok [.zeros, .zeros] := by
  let block : SignedBlock := { message := { body := { commitments := [.infinity, .infinity] } } }
  have valid := Parameters.valid_default
  have serves : KzgBackend.zeros.Serves [.zeros, .zeros] := KzgBackend.serves_zeros (by simp)
  have committed : [Blob.zeros, .zeros].mapM KzgBackend.zeros.commit = .ok block.commitments := rfl
  have fits : [Commitment.infinity, .infinity].length ≤
      ({} : Parameters).maxCommitmentsPerBlock.toNat := by
    decide
  obtain ⟨rows, shared, honest⟩ := exists_honest valid serves committed fits
  have hcolumns : ∀ c ∈ [5, 3, 5], c < 128 := by decide
  obtain ⟨sidecars, hverify⟩ := honest.exists_verify valid serves (by simp) hcolumns
  have hsidecars := Verification.map_sidecar_of_verify hverify
  have taken := takenFrom_of_map (by decide) hcolumns hsidecars
  have hindex := map_index_of_map (by decide) hcolumns hsidecars
  obtain ⟨first, rest, rfl⟩ : ∃ first rest, sidecars = first :: rest := by
    apply List.exists_cons_of_ne_nil
    rintro rfl
    cases hindex
  have same : ∀ v ∈ first :: rest, first.SameBlock v := fun v hv =>
    taken.sameBlock honest.rect List.mem_cons_self hv
  have hcount : first.blobCount = 2 :=
    (taken.blobCount_eq honest.rect List.mem_cons_self).trans honest.length_rows
  obtain ⟨-, hproblems⟩ := recovered_of_problems .zeros first rest
  obtain ⟨hlength, hrows, hrecovered, hordered⟩ := hproblems same
  rw [hcount] at hlength hordered
  -- This backend answers every problem with zeros.
  have hzeros : ∀ outcome, Recovered .zeros (problems (first :: rest)) outcome →
      outcome = .ok [.zeros, .zeros] := by
    rintro _ (@⟨rows, hanswers⟩ | ⟨-, hfailed⟩)
    · have hrow : ∀ row ∈ rows, row = ExtendedBlob.zeros := by
        intro row hrow
        obtain ⟨r, hr, rfl⟩ := List.mem_iff_getElem.mp hrow
        exact (Except.ok.inj (hanswers.get (hanswers.length_eq ▸ hr) hr)).symm
      rw [List.eq_replicate_iff.mpr ⟨hanswers.length_eq.symm.trans hlength, hrow⟩]
      rfl
    · cases hfailed
  refine ⟨first, rest, hindex, same, by rw [hcount]; decide, fun q hq => ?_,
    hzeros _ hrecovered, hzeros _ (hordered [1, 0] (by decide))⟩
  obtain ⟨r, hr⟩ := List.mem_iff_getElem?.mp hq
  obtain ⟨ascending, hmem, -⟩ := hrows r q hr
  have hcovered : ∀ c, c ∈ q.columns ↔ c ∈ [5, 3, 5] := by
    intro c
    rw [hmem, ← hindex, List.mem_map]
  rw [← Ascending.ofList_eq ascending hcovered]
  decide

end ColumnSampling.Reconstruction
