import ColumnSampling.Proofs.Custody.Growth
import ColumnSampling.Proofs.Custody.SelfReconstruction
import ColumnSampling.Proofs.Engine.Run

/-!
# What a node keeps, it samples

The sampling size is never less than the count of groups that a node keeps, and it grows with that
count. All these counts are asked of one walk, so what a node samples contains what it keeps, and no
column drops out of what it samples before its count falls.
-/

namespace ColumnSampling

section Answers

variable {id : NodeId} {p : Parameters} {count : ℕ}

/-- The walk from an id meets as many groups as a request short of all groups may ask for. -/
def Custody.MeetsGroups (id : NodeId) (p : Parameters) : Prop :=
  ∀ count < p.groups, ∃ n, count ≤ (candidates id p.groups n).card

theorem Custody.MeetsGroups.exists_groups (meets : MeetsGroups id p) (h : count ≤ p.groups) :
    ∃ groups, Custody.groups id count p = .ok groups := by
  have sampled := sampled_groups id count p
  cases hgroups : Custody.groups id count p with
  | ok groups => exact ⟨groups, rfl⟩
  | error cause =>
    rw [hgroups] at sampled
    obtain ⟨-, few, never⟩ := sampled.of_error h
    obtain ⟨n, hn⟩ := meets count few
    exact absurd hn (not_le.mpr (never n))

theorem PeerCustody.exists_compute (valid : p.Valid) (meets : Custody.MeetsGroups id p)
    (h : count ≤ p.groups) : ∃ answer, compute id count p = .ok answer := by
  obtain ⟨groups, hgroups⟩ := meets.exists_groups h
  obtain ⟨-, -, below⟩ := (Custody.sampled_of_groups hgroups).of_ok
  obtain ⟨answer, hanswer, -⟩ := compute_of_groups valid hgroups below
  exact ⟨answer, hanswer⟩

end Answers

namespace CustodyPolicy

variable {c c' : CustodyPolicy} {p : Parameters} {kind kind' : CustodyCount}

theorem actual_le_samplingSize : c.actual p ≤ c.samplingSize .actual p := le_max_right _ _

theorem samplingSize_mono (h : c.count kind p ≤ c'.count kind' p) :
    c.samplingSize kind p ≤ c'.samplingSize kind' p :=
  max_le_max_left _ h

end CustodyPolicy

namespace Engine

variable {kzg : KzgBackend} {p : Parameters} {subscribe : Bool} {e created : Engine} {id : NodeId}

theorem Consistent.exists_compute_samplingSize (consistent : e.Consistent p)
    (within : p.samplesPerSlot.toNat ≤ p.groups) (meets : Custody.MeetsGroups id p) :
    ∃ answers : CustodyCount → PeerCustody, ∀ kind,
      PeerCustody.compute id (e.custody.samplingSize kind p) p = .ok (answers kind) := by
  have each (kind : CustodyCount) : ∃ answer,
      PeerCustody.compute id (e.custody.samplingSize kind p) p = .ok answer := by
    apply PeerCustody.exists_compute consistent.valid meets
    exact (CustodyPolicy.samplingSize_le_iff consistent.valid consistent.bounded kind).mpr within
  choose answers hanswers using each
  exact ⟨answers, hanswers⟩

/--
At every time the columns that a node keeps are among those that it samples for the count that it
keeps, and these among those for the count that it aims at. It samples as many columns as its
sampling size has groups to give, and at any later time it still samples all of them unless its
count is lower then.
-/
theorem sampled_of_run (accepted : create kzg p subscribe = .ok created)
    (within : p.samplesPerSlot.toNat ≤ p.groups) (id : NodeId) (meets : Custody.MeetsGroups id p)
    (operations more : List Operation) :
    let e := created.run operations
    let later := e.run more
    ∃ (kept : PeerCustody) (sampled sampled' : CustodyCount → List ℕ),
      (e.peerCustody id (e.custody.actual p)).1 = .ok kept ∧
      (∀ kind, (e.samplingColumns id kind).1 = .ok (sampled kind)) ∧
      (∀ kind, (later.samplingColumns id kind).1 = .ok (sampled' kind)) ∧
      kept.columns ⊆ sampled .actual ∧ sampled .actual ⊆ sampled .target ∧
      (∀ kind, (sampled kind).Pairwise (· < ·) ∧ (sampled kind).length =
        max p.samplesPerSlot.toNat (e.custody.count kind p) * p.columnsPerGroup) ∧
      ∀ kind, e.custody.count kind p ≤ later.custody.count kind p →
        sampled kind ⊆ sampled' kind := by
  intro e later
  have consistent : e.Consistent p := (consistent_of_create accepted).run operations
  have consistent' : later.Consistent p := consistent.run more
  have valid := consistent.valid
  have hactual : e.custody.actual p ≤ p.groups :=
    CustodyPolicy.count_le valid consistent.bounded .actual
  obtain ⟨kept, hkept⟩ := PeerCustody.exists_compute valid meets hactual
  obtain ⟨answers, hanswers⟩ := consistent.exists_compute_samplingSize within meets
  obtain ⟨answers', hanswers'⟩ := consistent'.exists_compute_samplingSize within meets
  refine ⟨kept, fun kind => (answers kind).columns, fun kind => (answers' kind).columns,
    consistent.peerCustody_of_compute hkept,
    fun kind => consistent.samplingColumns_of_compute (hanswers kind),
    fun kind => consistent'.samplingColumns_of_compute (hanswers' kind), ?_, ?_, ?_, ?_⟩
  · obtain ⟨-, hcolumns, -⟩ := PeerCustody.compute_subset hkept (hanswers .actual)
      CustodyPolicy.actual_le_samplingSize
    exact hcolumns
  · have hcount : e.custody.count .actual p ≤ e.custody.count .target p := min_le_left _ _
    obtain ⟨-, hcolumns, -⟩ := PeerCustody.compute_subset (hanswers .actual) (hanswers .target)
      (CustodyPolicy.samplingSize_mono hcount)
    exact hcolumns
  · have hcolumns : 0 < p.columns := valid.columns_eq_128 ▸ Nat.succ_pos 127
    have hgroups := Nat.pos_of_dvd_of_pos valid.groups_dvd_columns hcolumns
    intro kind
    obtain ⟨hlength, sorted, -⟩ :=
      PeerCustody.columns_of_compute hgroups valid.groups_dvd_columns (hanswers kind)
    exact ⟨sorted, hlength⟩
  · intro kind hcount
    obtain ⟨-, hcolumns, -⟩ := PeerCustody.compute_subset (hanswers kind) (hanswers' kind)
      (CustodyPolicy.samplingSize_mono hcount)
    exact hcolumns

def twoGroups : Parameters where
  numberOfCustodyGroups := 2
  custodyRequirement := 1
  validatorCustodyRequirement := 1
  samplesPerSlot := 1

/-- A node whose validators require both groups, and which first tells its peers of one only. -/
theorem sampled_of_announced_group :
    ∃ created, create .zeros twoGroups false = .ok created ∧
      let id : NodeId := ⟨.replicate 32 7⟩
      let e := created.run [.updateValidators (fun _ => .ok 64000000000) [0]]
      let later := e.run [.announce 2]
      Custody.MeetsGroups id twoGroups ∧ e.custody.actual twoGroups = 1 ∧
      e.custody.target twoGroups = 2 ∧ later.custody.actual twoGroups = 2 ∧
      ∃ (kept : PeerCustody) (sampled sampled' : CustodyCount → List ℕ),
        (e.peerCustody id 1).1 = .ok kept ∧
        (∀ kind, (e.samplingColumns id kind).1 = .ok (sampled kind)) ∧
        (∀ kind, (later.samplingColumns id kind).1 = .ok (sampled' kind)) ∧
        kept.columns ⊆ sampled .actual ∧ sampled .actual ⊆ sampled .target ∧
        (sampled .actual).length = 64 ∧ (sampled .target).length = 128 ∧
        sampled .actual ⊆ sampled' .actual := by
  obtain ⟨created, hcreated⟩ : ∃ created, create .zeros twoGroups false = .ok created := ⟨_, rfl⟩
  refine ⟨created, hcreated, ?_⟩
  intro id e later
  have meets : Custody.MeetsGroups id twoGroups := by
    intro count hcount
    have hone : count ≤ 1 := Nat.le_of_lt_succ hcount
    exact ⟨1, hone.trans Custody.isLeast_one.1⟩
  have hactual : e.custody.actual twoGroups = 1 := by
    cases hcreated
    rfl
  have htarget : e.custody.target twoGroups = 2 := by
    cases hcreated
    rfl
  have hlater : later.custody.actual twoGroups = 2 := by
    cases hcreated
    rfl
  obtain ⟨kept, sampled, sampled', hkept, hsampled, hsampled', hcovers, hgrows, hsizes, hstays⟩ :=
    sampled_of_run hcreated (by decide) id meets [.updateValidators (fun _ => .ok 64000000000) [0]]
      [.announce 2]
  obtain ⟨-, hlength⟩ := hsizes .actual
  obtain ⟨-, hlength'⟩ := hsizes .target
  refine ⟨meets, hactual, htarget, hlater, kept, sampled, sampled', hactual ▸ hkept, hsampled,
    hsampled', hcovers, hgrows, ?_, ?_, hstays .actual ?_⟩
  · rw [hlength, CustodyPolicy.count, hactual]
    rfl
  · rw [hlength', CustodyPolicy.count, htarget]
    rfl
  · rw [CustodyPolicy.count, CustodyPolicy.count, hactual, hlater]
    exact one_le_two

end Engine

end ColumnSampling
