import ColumnSampling.Proofs.Column.Verification

/-!
# What verification of a batch decides

The three gates are one decision: a batch is accepted exactly if every sidecar passes the first two
and the backend says yes to the one question about all cells. The question is put together by
running through three lists of a sidecar at once, which would cut off the longer ones and leave
cells unasked. The first gate has made the lists equally long by then, so nothing is cut off.
-/

namespace ColumnSampling

variable {kzg : KzgBackend} {p : Parameters} {batch : List ColumnSidecar} {s : ColumnSidecar}

namespace ColumnSidecar

/-- The lists of a sidecar are equally long. -/
structure Aligned (s : ColumnSidecar) : Prop where
  length_cells : s.cells.length = s.commitments.length
  length_proofs : s.proofs.length = s.commitments.length

theorem aligned_of_checkStructure (h : s.checkStructure p = .ok ()) : s.Aligned := by
  obtain ⟨-, -, hcells, hproofs⟩ := checkStructure_eq_ok.mp h
  exact ⟨hcells, hproofs⟩

theorem cells_ne_nil_of_checkStructure (h : s.checkStructure p = .ok ()) : s.cells ≠ [] := by
  obtain ⟨-, hne, hcells, -⟩ := checkStructure_eq_ok.mp h
  rw [← List.length_pos_iff, hcells]
  exact List.length_pos_iff.mpr hne

namespace Aligned

variable (aligned : s.Aligned)

include aligned

theorem map_commitment_openings : s.openings.map (·.commitment) = s.commitments := by
  rw [openings, List.map_map]
  refine List.map_fst_zip ?_
  rw [List.length_zip, aligned.length_cells, aligned.length_proofs, min_self]

theorem map_column_openings :
    s.openings.map (·.column) = List.replicate s.cells.length s.index.toNat := by
  rw [List.eq_replicate_iff]
  constructor
  · simp [openings, aligned.length_cells, aligned.length_proofs]
  · simp +contextual [openings]

theorem map_cell_openings : s.openings.map (·.cell) = s.cells := by
  have hrows : s.openings.map (·.cell) =
      ((s.commitments.zip (s.cells.zip s.proofs)).map Prod.snd).map Prod.fst := by
    rw [openings, List.map_map, List.map_map]
    rfl
  rw [hrows, List.map_snd_zip, List.map_fst_zip]
  · rw [aligned.length_cells, aligned.length_proofs]
  · rw [List.length_zip, aligned.length_cells, aligned.length_proofs, min_self]

theorem map_proof_openings : s.openings.map (·.proof) = s.proofs := by
  have hrows : s.openings.map (·.proof) =
      ((s.commitments.zip (s.cells.zip s.proofs)).map Prod.snd).map Prod.snd := by
    rw [openings, List.map_map, List.map_map]
    rfl
  rw [hrows, List.map_snd_zip, List.map_snd_zip]
  · rw [aligned.length_cells, aligned.length_proofs]
  · rw [List.length_zip, aligned.length_cells, aligned.length_proofs, min_self]

end Aligned

end ColumnSidecar

namespace Verification

/-- What the backend is asked about a batch: four lists with an entry for every cell. -/
structure Question where
  commitments : List Commitment
  columns : List ℕ
  cells : List Cell
  proofs : List Proof

def question (batch : List ColumnSidecar) : Question where
  commitments := batch.flatMap (·.commitments)
  columns := batch.flatMap fun s => List.replicate s.cells.length s.index.toNat
  cells := batch.flatMap (·.cells)
  proofs := batch.flatMap (·.proofs)

def Question.answer (q : Question) (kzg : KzgBackend) : Except KzgError Bool :=
  kzg.verifyCells q.commitments q.columns q.cells q.proofs

/-- Every cell of the batch is asked about once, with its own commitment, column and proof. -/
structure Question.Covers (q : Question) (batch : List ColumnSidecar) : Prop where
  length_cells : q.cells.length = (batch.map (·.cells.length)).sum
  length_commitments : q.commitments.length = q.cells.length
  length_columns : q.columns.length = q.cells.length
  length_proofs : q.proofs.length = q.cells.length
  /-- Row `r` of a sidecar stands behind all rows of the sidecars before it. -/
  rows : ∀ before s after, batch = before ++ s :: after → ∀ r < s.cells.length,
    let position := (before.map (·.cells.length)).sum + r
    q.commitments[position]? = s.commitments[r]? ∧ q.columns[position]? = some s.index.toNat ∧
      q.cells[position]? = s.cells[r]? ∧ q.proofs[position]? = s.proofs[r]?

/-- Why a batch is refused after the backend's answer, if it is. -/
def faultOf : Except KzgError Bool → Option ProofFault
  | .error cause => some (.backend cause)
  | .ok false => some .rejected
  | .ok true => none

section Question

theorem getElem?_flatMap {α β : Type} {f : α → List β} {before after : List α} {x : α} {n r : ℕ}
    (hn : (before.flatMap f).length = n) (hr : r < (f x).length) :
    ((before ++ x :: after).flatMap f)[n + r]? = (f x)[r]? := by
  rw [List.flatMap_append, List.flatMap_cons, ← hn,
    List.getElem?_append_right (Nat.le_add_right _ _), Nat.add_sub_cancel_left,
    List.getElem?_append_left hr]

variable {β : Type} {f : ColumnSidecar → List β}

theorem length_flatMap_rows (h : ∀ s ∈ batch, (f s).length = s.cells.length) :
    (batch.flatMap f).length = (batch.map (·.cells.length)).sum := by
  rw [List.length_flatMap, List.map_congr_left h]

theorem getElem?_flatMap_rows {before after : List ColumnSidecar} {r : ℕ}
    (h : ∀ t ∈ before ++ s :: after, (f t).length = t.cells.length) (hr : r < s.cells.length) :
    ((before ++ s :: after).flatMap f)[(before.map (·.cells.length)).sum + r]? = (f s)[r]? := by
  obtain ⟨hbefore, hs⟩ := List.forall_mem_append.mp h
  refine getElem?_flatMap (length_flatMap_rows hbefore) ?_
  rwa [hs s List.mem_cons_self]

theorem covers_question (aligned : ∀ s ∈ batch, s.Aligned) : (question batch).Covers batch := by
  have hcommitments : ∀ s ∈ batch, s.commitments.length = s.cells.length :=
    fun s hs => (aligned s hs).length_cells.symm
  have hcolumns : ∀ s ∈ batch, (List.replicate s.cells.length s.index.toNat).length =
      s.cells.length := fun _ _ => List.length_replicate
  have hproofs : ∀ s ∈ batch, s.proofs.length = s.cells.length :=
    fun s hs => (aligned s hs).length_proofs.trans (hcommitments s hs)
  have hcells : (question batch).cells.length = (batch.map (·.cells.length)).sum :=
    List.length_flatMap
  refine ⟨hcells, ?_, ?_, ?_, ?_⟩
  · exact (length_flatMap_rows hcommitments).trans hcells.symm
  · exact (length_flatMap_rows hcolumns).trans hcells.symm
  · exact (length_flatMap_rows hproofs).trans hcells.symm
  · rintro before s after rfl r hr
    have hcolumn := getElem?_flatMap_rows hcolumns hr
    rw [List.getElem?_replicate_of_lt hr] at hcolumn
    exact ⟨getElem?_flatMap_rows hcommitments hr, hcolumn,
      getElem?_flatMap_rows (fun _ _ => rfl) hr, getElem?_flatMap_rows hproofs hr⟩

end Question

section Gates

theorem checkSidecar_eq_error {e : EngineError} : checkSidecar p s = .error e ↔
    (∃ cause, s.checkStructure p = .error cause ∧ e = .validation cause) ∨
      s.checkStructure p = .ok () ∧ s.checkInclusion p = .error e := by
  unfold checkSidecar
  cases s.checkStructure p with
  | error cause => simp [eq_comm]
  | ok _ => simp

theorem forall_checkSidecar : (∀ s ∈ batch, checkSidecar p s = .ok ()) ↔
    (∀ s ∈ batch, s.checkStructure p = .ok ()) ∧ ∀ s ∈ batch, s.checkInclusion p = .ok () := by
  simp only [checkSidecar_eq_ok, forall_and]

variable (structures : ∀ s ∈ batch, s.checkStructure p = .ok ())

include structures

theorem answer_question :
    kzg.verifyCells ((batch.flatMap (·.openings)).map (·.commitment))
      ((batch.flatMap (·.openings)).map (·.column)) ((batch.flatMap (·.openings)).map (·.cell))
      ((batch.flatMap (·.openings)).map (·.proof)) = (question batch).answer kzg := by
  have aligned : ∀ s ∈ batch, s.Aligned :=
    fun s hs => ColumnSidecar.aligned_of_checkStructure (structures s hs)
  simp only [List.map_flatMap]
  rw [List.flatMap_congr fun s hs => (aligned s hs).map_commitment_openings,
    List.flatMap_congr fun s hs => (aligned s hs).map_column_openings,
    List.flatMap_congr fun s hs => (aligned s hs).map_cell_openings,
    List.flatMap_congr fun s hs => (aligned s hs).map_proof_openings]
  rfl

/-- The shortcut for batches without cells is taken by the empty batch alone. -/
theorem checkProofs_eq (hne : batch ≠ []) : checkProofs kzg batch =
    match faultOf ((question batch).answer kzg) with
    | some fault => .error (.invalidKzgProof batch.length fault)
    | none => .ok () := by
  have hcells : ¬ batch.all (·.cells.isEmpty) = true := by
    -- A sidecar that passed the first gate has a commitment, and so a cell.
    obtain ⟨s, hs⟩ := List.exists_mem_of_ne_nil batch hne
    intro h
    exact ColumnSidecar.cells_ne_nil_of_checkStructure (structures s hs)
      (List.isEmpty_iff.mp (List.all_eq_true.mp h s hs))
  unfold checkProofs
  simp only [if_neg hcells, answer_question structures]
  cases (question batch).answer kzg with
  | error cause => rfl
  | ok valid => cases valid <;> rfl

theorem checkProofs_eq_ok : checkProofs kzg batch = .ok () ↔
    (batch ≠ [] → (question batch).answer kzg = .ok true) := by
  by_cases hne : batch = []
  · subst hne
    simp [checkProofs]
  · rw [checkProofs_eq structures hne]
    cases (question batch).answer kzg with
    | error cause => simp [faultOf, hne]
    | ok valid => cases valid <;> simp [faultOf, hne]

theorem checkProofs_eq_error {cause : CryptographicError} : checkProofs kzg batch = .error cause ↔
    batch ≠ [] ∧ ∃ fault, faultOf ((question batch).answer kzg) = some fault ∧
      cause = .invalidKzgProof batch.length fault := by
  by_cases hne : batch = []
  · subst hne
    simp [checkProofs]
  · rw [checkProofs_eq structures hne]
    cases faultOf ((question batch).answer kzg) <;> simp [hne, eq_comm]

end Gates

/-- What comes of the gates comes of the batch: past them, every sidecar can be handed out. -/
theorem verify_eq_error {e : EngineError} : verify kzg batch p = .error e ↔
    batch.forM (checkSidecar p) = .error e ∨ (∀ s ∈ batch, checkSidecar p s = .ok ()) ∧
      ∃ cause, checkProofs kzg batch = .error cause ∧ e = .cryptographic cause := by
  cases hchecks : batch.forM (checkSidecar p) with
  | error cause =>
    have hnot : ¬ ∀ s ∈ batch, checkSidecar p s = .ok () := by
      rw [← Outcome.forM_eq_ok, hchecks]
      simp
    simp [verify, hchecks, bind, Except.bind, hnot]
  | ok _ =>
    have hgates := Outcome.forM_eq_ok.mp hchecks
    cases hproofs : checkProofs kzg batch with
    | error cause =>
      have hfailed : verify kzg batch p = .error (.cryptographic cause) := by
        simp only [verify, hchecks, hproofs, bind, Except.bind]
      rw [hfailed]
      constructor
      · rintro ⟨⟩
        exact .inr ⟨hgates, cause, rfl, rfl⟩
      · rintro (h | ⟨-, _, ⟨⟩, rfl⟩)
        · cases h
        · rfl
    | ok _ =>
      obtain ⟨verified, hverified⟩ := exists_verify hgates hproofs
      simp [hverified]

/--
A batch is verified exactly if all sidecars pass both gates and the backend says yes to the question
about all cells, which covers every cell once; then its sidecars are handed out in their order, each
with its own header. Otherwise the first sidecar that is refused gives the failure, its structure
before its inclusion, or else the backend does.
-/
theorem verify_iff_gates (kzg : KzgBackend) (batch : List ColumnSidecar) (p : Parameters) :
    ((∃ verified, verify kzg batch p = .ok verified) ↔
      (∀ s ∈ batch, s.checkStructure p = .ok ()) ∧ (∀ s ∈ batch, s.checkInclusion p = .ok ()) ∧
        (batch ≠ [] → (question batch).answer kzg = .ok true)) ∧
    ((∀ s ∈ batch, s.checkStructure p = .ok ()) → (question batch).Covers batch) ∧
    (∀ verified, verify kzg batch p = .ok verified →
      List.Forall₂ (fun s v => v.sidecar = s ∧ s.header = some v.header) batch verified) ∧
    (∀ e, verify kzg batch p = .error e ↔
      (∃ before s after, batch = before ++ s :: after ∧
        (∀ t ∈ before, t.checkStructure p = .ok () ∧ t.checkInclusion p = .ok ()) ∧
        ((∃ cause, s.checkStructure p = .error cause ∧ e = .validation cause) ∨
          s.checkStructure p = .ok () ∧ s.checkInclusion p = .error e)) ∨
      (∀ s ∈ batch, s.checkStructure p = .ok ()) ∧ (∀ s ∈ batch, s.checkInclusion p = .ok ()) ∧
        batch ≠ [] ∧ ∃ fault, faultOf ((question batch).answer kzg) = some fault ∧
          e = .cryptographic (.invalidKzgProof batch.length fault)) := by
  refine ⟨⟨?_, ?_⟩, ?_, ?_, fun e => ?_⟩
  · rintro ⟨verified, h⟩
    obtain ⟨hgates, hproofs, -⟩ := verify_eq_ok.mp h
    obtain ⟨hstructures, hinclusions⟩ := forall_checkSidecar.mp hgates
    exact ⟨hstructures, hinclusions, (checkProofs_eq_ok hstructures).mp hproofs⟩
  · rintro ⟨hstructures, hinclusions, hanswer⟩
    exact exists_verify (forall_checkSidecar.mpr ⟨hstructures, hinclusions⟩)
      ((checkProofs_eq_ok hstructures).mpr hanswer)
  · exact fun structures => covers_question fun s hs =>
      ColumnSidecar.aligned_of_checkStructure (structures s hs)
  · intro verified h
    obtain ⟨-, -, hverified⟩ := verify_eq_ok.mp h
    refine hverified.imp fun s v hv => ?_
    obtain rfl := ColumnSidecar.sidecar_of_verified hv
    exact ⟨rfl, v.header_eq⟩
  · -- Either a gate stops the chain of checks or the backend does, after all gates.
    rw [verify_eq_error, Outcome.forM_eq_error, forall_checkSidecar, and_assoc]
    simp only [checkSidecar_eq_error, checkSidecar_eq_ok]
    refine or_congr Iff.rfl (and_congr_right fun hstructures => and_congr_right fun _ => ?_)
    constructor
    · rintro ⟨cause, hproofs, rfl⟩
      obtain ⟨hne, fault, hfault, rfl⟩ := (checkProofs_eq_error hstructures).mp hproofs
      exact ⟨hne, fault, hfault, rfl⟩
    · rintro ⟨hne, fault, hfault, rfl⟩
      exact ⟨_, (checkProofs_eq_error hstructures).mpr ⟨hne, fault, hfault, rfl⟩, rfl⟩

end Verification

end ColumnSampling
