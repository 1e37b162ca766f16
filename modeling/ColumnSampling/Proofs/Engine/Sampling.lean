import ColumnSampling.Proofs.Column.Honest
import ColumnSampling.Proofs.Custody.Columns
import ColumnSampling.Proofs.Custody.Sampling
import ColumnSampling.Proofs.Engine.Run

/-!
# What a node samples

The columns that a used engine samples are those of its id at its sampling size, as the network's
rule for groups has them. That size is within the number of groups at every time if the least number
of samples is, and at no time otherwise: the rules for parameters bound the two custody requirements
and leave this third count out.
-/

namespace ColumnSampling.Engine

variable {kzg : KzgBackend} {p : Parameters} {subscribe : Bool} {e created : Engine}

section Consistent

variable (consistent : e.Consistent p) {id : NodeId} {kind : CustodyCount}

include consistent

theorem samplingColumns_of_error {cause : CustodyError}
    (h : Custody.groups id (e.custody.samplingSize kind p) p = .error cause) :
    (e.samplingColumns id kind).1 = .error (.custody cause) := by
  rw [consistent.samplingColumns_eq, PeerCustody.compute_of_error h]
  rfl

theorem samplingColumns_of_groups (valid : p.Valid) {groups : List ℕ}
    (h : Custody.groups id (e.custody.samplingSize kind p) p = .ok groups) :
    ∃ columns, (e.samplingColumns id kind).1 = .ok columns ∧ columns.Pairwise (· < ·) ∧
      ∀ c, c ∈ columns ↔ c < p.columns ∧ c % p.groups ∈ groups := by
  obtain ⟨-, -, below⟩ := (Custody.sampled_of_groups h).of_ok
  obtain ⟨answer, hanswer, -, sorted, hcolumns⟩ := PeerCustody.compute_of_groups valid h below
  exact ⟨answer.columns, consistent.samplingColumns_of_compute hanswer, sorted, hcolumns⟩

end Consistent

/--
After any run, the sampling size is within the groups exactly if the least number of samples is. If
it is, then sampling never asks for too many groups, and gives the columns of the groups of the node
whenever the walk meets enough of them; if it is not, then every sampling asks for too many.
-/
theorem samplingColumns_of_run (accepted : create kzg p subscribe = .ok created)
    (operations : List Operation) (id : NodeId) (kind : CustodyCount) :
    let e := created.run operations
    let size := e.custody.samplingSize kind p
    (size ≤ p.groups ↔ p.samplesPerSlot.toNat ≤ p.groups) ∧
    (p.samplesPerSlot.toNat ≤ p.groups →
      (∀ count max, (e.samplingColumns id kind).1 ≠ .error (.custody (.tooLarge count max))) ∧
      (size = p.groups ∨ (∃ n, size ≤ (Custody.candidates id p.groups n).card) →
        ∃ groups columns, Custody.groups id size p = .ok groups ∧
          (e.samplingColumns id kind).1 = .ok columns ∧ columns.Pairwise (· < ·) ∧
          ∀ c, c ∈ columns ↔ c < p.columns ∧ c % p.groups ∈ groups)) ∧
    (p.groups < p.samplesPerSlot.toNat →
      (e.samplingColumns id kind).1 =
        .error (.custody (.tooLarge p.samplesPerSlot.toNat p.groups))) := by
  intro e size
  have valid : p.Valid := Parameters.valid_of_check (check_of_create accepted)
  have consistent : e.Consistent p := (consistent_of_create accepted).run operations
  have sampled := Custody.sampled_groups id size p
  have hsize : size ≤ p.groups ↔ p.samplesPerSlot.toNat ≤ p.groups :=
    CustodyPolicy.samplingSize_le_iff valid consistent.bounded kind
  refine ⟨hsize, fun within => ⟨?_, fun enough => ?_⟩, fun beyond => ?_⟩
  · -- Columns and subnets can always be told, so a failure is one of the walk.
    intro count max h
    cases hgroups : Custody.groups id size p with
    | ok groups =>
      obtain ⟨columns, hcolumns, -⟩ := samplingColumns_of_groups consistent valid hgroups
      rw [hcolumns] at h
      cases h
    | error cause =>
      rw [hgroups] at sampled
      obtain ⟨rfl, -⟩ := sampled.of_error (hsize.mpr within)
      rw [samplingColumns_of_error consistent hgroups] at h
      cases h
  · cases hgroups : Custody.groups id size p with
    | ok groups =>
      obtain ⟨columns, h⟩ := samplingColumns_of_groups consistent valid hgroups
      exact ⟨groups, columns, rfl, h⟩
    | error cause =>
      rw [hgroups] at sampled
      obtain ⟨-, few, never⟩ := sampled.of_error (hsize.mpr within)
      rcases enough with hall | ⟨n, hn⟩
      · exact absurd hall few.ne
      · exact absurd hn (not_le.mpr (never n))
  · have hmax : size = p.samplesPerSlot.toNat :=
      CustodyPolicy.samplingSize_of_le valid consistent.bounded kind beyond.le
    rw [← hmax] at beyond ⊢
    exact samplingColumns_of_error consistent (if_pos beyond)

/--
One sample more than there are groups is accepted, and never obtained; with the parameters of the
main network a node that subscribes to all subnets samples all columns.
-/
theorem samplingColumns_of_129_samples :
    let id : NodeId := ⟨.zero 32⟩
    let calls := [Operation.updateValidators (fun _ => .ok 32000000000) [0, 1], .announce 200]
    (∃ created, create .zeros { samplesPerSlot := 129 } false = .ok created ∧
      ((created.run calls).samplingColumns id .target).1 =
        .error (.custody (.tooLarge 129 128))) ∧
    ∃ created columns, create .zeros {} true = .ok created ∧
      ((created.run calls).samplingColumns id .actual).1 = .ok columns ∧
      ∀ c, c ∈ columns ↔ c < 128 := by
  intro id calls
  constructor
  · obtain ⟨created, hcreated⟩ :
        ∃ created, create .zeros { samplesPerSlot := 129 } false = .ok created := ⟨_, rfl⟩
    obtain ⟨-, -, beyond⟩ := samplingColumns_of_run hcreated calls id .target
    exact ⟨created, hcreated, beyond (by decide)⟩
  · obtain ⟨created, hcreated⟩ : ∃ created, create .zeros {} true = .ok created := ⟨_, rfl⟩
    obtain ⟨-, within, -⟩ := samplingColumns_of_run hcreated calls id .actual
    have hsize : (created.run calls).custody.samplingSize .actual {} = 128 := by
      cases hcreated
      rfl
    obtain ⟨-, h⟩ := within (by decide)
    obtain ⟨groups, columns, hgroups, hcolumns, -, hmem⟩ := h (.inl hsize)
    refine ⟨created, columns, hcreated, hcolumns, fun c => ?_⟩
    rw [hsize] at hgroups
    have all : groups = List.range 128 := by
      cases hgroups
      rfl
    simp only [hmem, all, List.mem_range]
    exact and_iff_left (Nat.mod_lt _ (by decide))

end ColumnSampling.Engine
