import ColumnSampling.Proofs.Column.Batch
import ColumnSampling.Proofs.Column.Honest

/-!
# Verifying sidecars one by one

A backend that judges each opening for itself makes the verification of a batch the verification of
its sidecars: whether one passes has nothing to do with the others or with its place among them. No
opening escapes, so a batch with a single cell, proof or commitment exchanged for one that does not
open is refused as a whole.
-/

namespace ColumnSampling

open ColumnSidecar (Opening)

/-- What the backend says about some openings at once. -/
def KzgBackend.verdict (kzg : KzgBackend) (openings : List Opening) : Except KzgError Bool :=
  kzg.verifyCells (openings.map (·.commitment)) (openings.map (·.column)) (openings.map (·.cell))
    (openings.map (·.proof))

/-- The backend judges every opening for itself: it says yes exactly if each of them holds. -/
structure KzgBackend.Judges (kzg : KzgBackend) (holds : Opening → Prop) : Prop where
  yes : ∀ openings, (∀ o ∈ openings, holds o) → kzg.verdict openings = .ok true
  no : ∀ openings, (∃ o ∈ openings, ¬ holds o) → kzg.verdict openings = .ok false

namespace ColumnSidecar

/-- What is asked about one row of a sidecar. -/
structure OpeningAt (s : ColumnSidecar) (row : ℕ) (o : Opening) : Prop where
  column_eq : o.column = s.index.toNat
  commitment_eq : s.commitments[row]? = some o.commitment
  cell_eq : s.cells[row]? = some o.cell
  proof_eq : s.proofs[row]? = some o.proof

/-- Something to put in the place of what a sidecar has in a row. -/
inductive Exchange where
  | cell (cell : Cell)
  | proof (proof : Proof)
  | commitment (commitment : Commitment)

/-- A sidecar with one entry of one of its lists exchanged. -/
def exchange (s : ColumnSidecar) (row : ℕ) : Exchange → ColumnSidecar
  | .cell cell => { s with cells := s.cells.set row cell }
  | .proof proof => { s with proofs := s.proofs.set row proof }
  | .commitment commitment => { s with commitments := s.commitments.set row commitment }

variable {s : ColumnSidecar} {o : Opening} {p : Parameters} {row : ℕ}

theorem openings_getElem? : s.openings[row]? = some o ↔ s.OpeningAt row o := by
  simp only [openings, List.getElem?_map, Option.map_eq_some_iff, List.getElem?_zip_eq_some]
  constructor
  · rintro ⟨⟨commitment, cell, proof⟩, ⟨hcommitment, hcell, hproof⟩, rfl⟩
    exact ⟨rfl, hcommitment, hcell, hproof⟩
  · rintro ⟨hcolumn, hcommitment, hcell, hproof⟩
    refine ⟨⟨o.commitment, o.cell, o.proof⟩, ⟨hcommitment, hcell, hproof⟩, ?_⟩
    rw [← hcolumn]

theorem mem_openings : o ∈ s.openings ↔ ∃ row, s.OpeningAt row o := by
  rw [List.mem_iff_getElem?]
  exact exists_congr fun _ => openings_getElem?

theorem checkStructure_exchange (change : Exchange) :
    (s.exchange row change).checkStructure p = s.checkStructure p := by
  cases change <;> simp [exchange, checkStructure]

end ColumnSidecar

namespace Verification

open ColumnSidecar (Exchange)

variable {kzg : KzgBackend} {holds : Opening → Prop} {p : Parameters}
  {batch before after : List ColumnSidecar} {s : ColumnSidecar} {o : Opening}

def Accepts (kzg : KzgBackend) (p : Parameters) (batch : List ColumnSidecar) : Prop :=
  ∃ verified, verify kzg batch p = .ok verified

/-- The sidecar passes the first two gates, and what is asked about it holds. -/
structure Passes (holds : Opening → Prop) (p : Parameters) (s : ColumnSidecar) : Prop where
  gates : checkSidecar p s = .ok ()
  holds : ∀ o ∈ s.openings, holds o

theorem verdict_eq_true (judges : kzg.Judges holds) {openings : List Opening} :
    kzg.verdict openings = .ok true ↔ ∀ o ∈ openings, holds o := by
  constructor
  · intro hyes
    by_contra hnot
    have hno := judges.no openings (by simpa using hnot)
    rw [hyes] at hno
    cases hno
  · exact judges.yes openings

theorem checkProofs_of_judges (judges : kzg.Judges holds)
    (structures : ∀ s ∈ batch, s.checkStructure p = .ok ()) :
    checkProofs kzg batch = .ok () ↔ ∀ s ∈ batch, ∀ o ∈ s.openings, holds o := by
  have hanswer : (question batch).answer kzg = kzg.verdict (batch.flatMap (·.openings)) :=
    (answer_question structures).symm
  rw [checkProofs_eq_ok structures, hanswer, verdict_eq_true judges]
  constructor
  · intro h s hs o ho
    exact h (List.ne_nil_of_mem hs) o (List.mem_flatMap.mpr ⟨s, hs, ho⟩)
  · intro h _ o ho
    obtain ⟨s, hs, ho⟩ := List.mem_flatMap.mp ho
    exact h s hs o ho

theorem accepts_iff_passes (judges : kzg.Judges holds) :
    Accepts kzg p batch ↔ ∀ s ∈ batch, Passes holds p s := by
  constructor
  · rintro ⟨verified, hverified⟩ s hs
    obtain ⟨hgates, hproofs, -⟩ := verify_eq_ok.mp hverified
    have hholds := (checkProofs_of_judges judges (forall_checkSidecar.mp hgates).1).mp hproofs
    exact ⟨hgates s hs, hholds s hs⟩
  · intro h
    have hgates : ∀ s ∈ batch, checkSidecar p s = .ok () := fun s hs => (h s hs).gates
    exact exists_verify hgates <|
      (checkProofs_of_judges judges (forall_checkSidecar.mp hgates).1).mpr fun s hs =>
        (h s hs).holds

theorem accepts_append (judges : kzg.Judges holds) : Accepts kzg p (before ++ after) ↔
    Accepts kzg p before ∧ Accepts kzg p after := by
  simp only [accepts_iff_passes judges, List.forall_mem_append]

theorem accepts_singleton (judges : kzg.Judges holds) :
    Accepts kzg p [s] ↔ Passes holds p s := by
  rw [accepts_iff_passes judges, List.forall_mem_singleton]

theorem not_passes_of_openingAt {row : ℕ} (ho : s.OpeningAt row o) (hnot : ¬ holds o) :
    ¬ Passes holds p s := fun h =>
  hnot (h.holds o (ColumnSidecar.mem_openings.mpr ⟨row, ho⟩))

/-- The first two gates look at no cell and no proof, only at how many there are. -/
theorem checkSidecar_exchange {row : ℕ} {change : Exchange}
    (h : ∀ commitment, change ≠ .commitment commitment) :
    checkSidecar p (s.exchange row change) = checkSidecar p s := by
  unfold checkSidecar
  rw [ColumnSidecar.checkStructure_exchange]
  cases change with
  | cell cell => rfl
  | proof proof => rfl
  | commitment commitment => exact absurd rfl (h commitment)

theorem verify_of_refused (judges : kzg.Judges holds)
    (hgates : ∀ s ∈ batch, checkSidecar p s = .ok ()) (hs : s ∈ batch) (ho : o ∈ s.openings)
    (hnot : ¬ holds o) :
    verify kzg batch p = .error (.cryptographic (.invalidKzgProof batch.length .rejected)) := by
  have structures := (forall_checkSidecar.mp hgates).1
  have hanswer : (question batch).answer kzg = .ok false := by
    rw [← answer_question structures]
    exact judges.no _ ⟨o, List.mem_flatMap.mpr ⟨s, hs, ho⟩, hnot⟩
  have hproofs : checkProofs kzg batch = .error (.invalidKzgProof batch.length .rejected) := by
    rw [checkProofs_eq_error structures, hanswer]
    exact ⟨List.ne_nil_of_mem hs, .rejected, rfl, rfl⟩
  exact verify_eq_error.mpr (.inr ⟨hgates, _, hproofs, rfl⟩)

/--
If the backend judges every opening for itself, then two batches are accepted together exactly if
both are, so a batch is accepted exactly if each of its sidecars is, in whatever order they come. If
a cell, a proof or a commitment of an accepted batch is exchanged for one that does not open, the
batch is refused; for a cell or a proof it is the backend that says no.
-/
theorem accepts_iff_each (judges : kzg.Judges holds) (p : Parameters) :
    (∀ xs ys, Accepts kzg p (xs ++ ys) ↔ Accepts kzg p xs ∧ Accepts kzg p ys) ∧
    (∀ batch, Accepts kzg p batch ↔ ∀ s ∈ batch, Accepts kzg p [s]) ∧
    (∀ xs ys : List ColumnSidecar, xs.Perm ys → (Accepts kzg p xs ↔ Accepts kzg p ys)) ∧
    ∀ (before : List ColumnSidecar) (s : ColumnSidecar) (after : List ColumnSidecar) (row : ℕ)
      (change : Exchange) (o : Opening), Accepts kzg p (before ++ s :: after) →
      (s.exchange row change).OpeningAt row o → ¬ holds o →
      ¬ Accepts kzg p (before ++ s.exchange row change :: after) ∧
        ((∀ commitment, change ≠ .commitment commitment) →
          verify kzg (before ++ s.exchange row change :: after) p = .error (.cryptographic
            (.invalidKzgProof (before ++ s :: after).length .rejected))) := by
  refine ⟨fun xs ys => accepts_append judges, fun batch => ?_, fun xs ys hperm => ?_, ?_⟩
  · simp only [accepts_singleton judges, accepts_iff_passes judges]
  · simp only [accepts_iff_passes judges, hperm.mem_iff]
  · intro before s after row change o haccepts ho hnot
    have hmem : s.exchange row change ∈ before ++ s.exchange row change :: after := by simp
    constructor
    · intro haccepts'
      exact not_passes_of_openingAt ho hnot ((accepts_iff_passes judges).mp haccepts' _ hmem)
    · intro hchange
      have hpasses := (accepts_iff_passes judges).mp haccepts
      have hgates : ∀ t ∈ before ++ s.exchange row change :: after, checkSidecar p t = .ok () := by
        simp only [List.forall_mem_append, List.forall_mem_cons] at hpasses ⊢
        obtain ⟨hbefore, hs, hafter⟩ := hpasses
        exact ⟨fun t ht => (hbefore t ht).gates, (checkSidecar_exchange hchange).trans hs.gates,
          fun t ht => (hafter t ht).gates⟩
      rw [verify_of_refused judges hgates hmem (ColumnSidecar.mem_openings.mpr ⟨row, ho⟩) hnot]
      simp

theorem judges_zeros : KzgBackend.zeros.Judges (·.cell = .zeros) := by
  have hverdict : ∀ openings, KzgBackend.zeros.verdict openings =
      .ok ((openings.map (·.cell)).all (· = .zeros)) := fun _ => rfl
  constructor
  · intro openings hall
    rw [hverdict]
    simpa using hall
  · intro openings hnot
    rw [hverdict]
    simpa using hnot

/-- Three columns of zeros, and the same with a cell of ones in the second of them. -/
theorem accepts_of_three_columns : ∃ x y z : ColumnSidecar,
    (Accepts .zeros {} ([x, y] ++ [z]) ↔ Accepts .zeros {} [x, y] ∧ Accepts .zeros {} [z]) ∧
      [x, y, z].Perm [z, y, x] ∧ Accepts .zeros {} [x, y, z] ∧ Accepts .zeros {} [z, y, x] ∧
      (∀ s ∈ [x, y, z], Accepts .zeros {} [s]) ∧
      ∃ (ones : Cell) (o : Opening), ones ≠ .zeros ∧ o.cell = ones ∧
        (y.exchange 0 (.cell ones)).OpeningAt 0 o ∧
        verify .zeros [x, y.exchange 0 (.cell ones), z] {} =
          .error (.cryptographic (.invalidKzgProof 3 .rejected)) := by
  obtain ⟨block, shared, -, honest⟩ := Encoding.exists_honest_zeros 0
  have serves : KzgBackend.zeros.Serves [.zeros] := KzgBackend.serves_zeros (by simp)
  have haccepts : Accepts .zeros {} ([3, 70, 9].map (Encoding.column shared [.zeros])) :=
    honest.exists_verify Parameters.valid_default serves (by simp) (by decide)
  obtain ⟨happend, heach, hperm, hexchange⟩ := accepts_iff_each judges_zeros {}
  let column := Encoding.column shared [.zeros]
  let ones : Cell := ⟨⟨Array.replicate bytesPerCell 1⟩⟩
  have hswap : [column 3, column 70, column 9].Perm [column 9, column 70, column 3] :=
    (List.reverse_perm [column 9, column 70, column 3])
  obtain ⟨commitment, hcommitment⟩ : ∃ commitment, shared.commitments = [commitment] := by
    rw [← List.length_eq_one_iff, honest.commitments_eq, honest.length_commitments]
    rfl
  have hopening : ((column 70).exchange 0 (.cell ones)).OpeningAt 0
      ⟨commitment, 70, ones, Commitment.infinity⟩ :=
    ⟨rfl, congrArg (·[0]?) hcommitment, rfl, rfl⟩
  have hones : ones ≠ .zeros := by
    intro h
    have hfirst : ones.data.data[0]? = Cell.zeros.data.data[0]? := by rw [h]
    simp [ones, Cell.zeros, bytesPerCell, bytesPerFieldElement, fieldElementsPerCell] at hfirst
  refine ⟨column 3, column 70, column 9, happend _ _, hswap, haccepts,
    (hperm _ _ hswap).mp haccepts, (heach _).mp haccepts, ones, _, hones, rfl, hopening, ?_⟩
  exact (hexchange [column 3] (column 70) [column 9] 0 (.cell ones) _ haccepts hopening hones).2
    (by simp)

end Verification

end ColumnSampling
