import ColumnSampling.Proofs.Column.Recovery
import ColumnSampling.Proofs.Custody.Columns
import ColumnSampling.Proofs.Custody.Sampling

/-!
# Nodes that can rebuild all columns by themselves

Whether a node can do so is told from the number of its groups alone. Its groups are distinct and no
column is dealt to two of them, so their number fixes the number of columns, and half of the groups
hold half of the columns however the halves are rounded.
-/

namespace ColumnSampling

namespace Custody

variable {p : Parameters} {groups : List ℕ} {group count : ℕ}

section Dealt

theorem nodup_flatMap_dealt (hgroups : 0 < p.groups) (divides : p.groups ∣ p.columns)
    (distinct : groups.Nodup) (below : ∀ group ∈ groups, group < p.groups) :
    (groups.flatMap (dealt p)).Nodup := by
  rw [List.nodup_flatMap]
  refine ⟨fun group _ => (pairwise_dealt hgroups).imp Nat.ne_of_lt, distinct.imp_of_mem ?_⟩
  intro group other hgroup hother hne c hc hc'
  apply hne
  rw [← ((mem_dealt divides (below group hgroup)).mp hc).2,
    ((mem_dealt divides (below other hother)).mp hc').2]

theorem length_flatMap_dealt :
    (groups.flatMap (dealt p)).length = groups.length * p.columnsPerGroup := by
  simp [List.length_flatMap, length_dealt]

end Dealt

theorem columnsPerGroup_pos (hcolumns : 0 < p.columns) (divides : p.groups ∣ p.columns) :
    0 < p.columnsPerGroup :=
  Nat.div_pos (Nat.le_of_dvd hcolumns divides) (Nat.pos_of_dvd_of_pos divides hcolumns)

theorem canSelfReconstruct_iff (hcolumns : 0 < p.columns) (divides : p.groups ∣ p.columns) :
    canSelfReconstruct count p = true ↔ p.columnsForRecovery ≤ count * p.columnsPerGroup := by
  have hall : p.groups * p.columnsPerGroup = p.columns := Nat.mul_div_cancel' divides
  have hper := columnsPerGroup_pos hcolumns divides
  calc canSelfReconstruct count p = true
      ↔ p.groups ≤ 2 * count := by rw [canSelfReconstruct, decide_eq_true_iff]; omega
    _ ↔ p.groups * p.columnsPerGroup ≤ 2 * count * p.columnsPerGroup :=
      (Nat.mul_le_mul_right_iff hper).symm
    _ ↔ p.columnsForRecovery ≤ count * p.columnsPerGroup := by
      rw [hall, Nat.mul_assoc, Parameters.columnsForRecovery]
      omega

end Custody

namespace PeerCustody

variable {p : Parameters} {id : NodeId} {count : ℕ} {answer : PeerCustody}

theorem columns_of_compute (hgroups : 0 < p.groups) (divides : p.groups ∣ p.columns)
    (h : compute id count p = .ok answer) :
    answer.columns.length = count * p.columnsPerGroup ∧ answer.columns.Pairwise (· < ·) ∧
      ∀ c ∈ answer.columns, c < p.columns := by
  obtain ⟨hfound, hcolumns, -⟩ := compute_eq_ok.mp h
  obtain ⟨hlength, sorted, below⟩ := (Custody.sampled_of_groups hfound).of_ok
  have distinct : answer.groups.Nodup := sorted.imp Nat.ne_of_lt
  rw [Custody.columns_of_lt below] at hcolumns
  rw [← Except.ok.inj hcolumns]
  refine ⟨?_, Ascending.pairwise_ofList _, ?_⟩
  · rw [Ascending.ofList_eq_sort, Finset.length_sort, List.toFinset_card_of_nodup
      (Custody.nodup_flatMap_dealt hgroups divides distinct below), Custody.length_flatMap_dealt,
      hlength]
  · intro c hc
    exact ((Custody.mem_flatMap_dealt divides below).mp (Ascending.mem_ofList.mp hc)).1

end PeerCustody

namespace Custody

open Reconstruction

variable {p : Parameters} {id : NodeId} {count : ℕ} {answer : PeerCustody}

/--
The columns of a node are as many as its groups hold, and whether half of the groups are kept tells
whether half of the columns are. From verified columns of one block that cover just the columns of
the node, reconstruction reports a lack of columns exactly if the node cannot reconstruct by itself.
-/
theorem canSelfReconstruct_iff_columns (hcolumns : 0 < p.columns) (divides : p.groups ∣ p.columns)
    (h : PeerCustody.compute id count p = .ok answer) :
    answer.columns.length = count * p.columns / p.groups ∧ answer.columns.Pairwise (· < ·) ∧
      (∀ c ∈ answer.columns, c < p.columns) ∧
      (canSelfReconstruct count p = true ↔ p.columnsForRecovery ≤ answer.columns.length) ∧
      ∀ (kzg : KzgBackend) (sidecars : List VerifiedColumn),
        (∀ v ∈ sidecars, ∀ w ∈ sidecars, v.SameBlock w) →
        coverage sidecars = answer.columns.toFinset →
        (canSelfReconstruct count p = false ↔
          Reconstruction.columns kzg sidecars p = .error (.reconstruction
            (if count = 0 then .noSidecars
              else .notEnoughColumns answer.columns.length p.columnsForRecovery))) ∧
        (canSelfReconstruct count p = true →
          Reconstruction.columns kzg sidecars p ≠ .error (.reconstruction .noSidecars) ∧
          ∀ present need, Reconstruction.columns kzg sidecars p ≠
            .error (.reconstruction (.notEnoughColumns present need))) := by
  obtain ⟨hlength, sorted, below⟩ :=
    PeerCustody.columns_of_compute (Nat.pos_of_dvd_of_pos divides hcolumns) divides h
  have hiff : canSelfReconstruct count p = true ↔ p.columnsForRecovery ≤ answer.columns.length := by
    rw [hlength]
    exact canSelfReconstruct_iff hcolumns divides
  have hcannot :
      canSelfReconstruct count p = false ↔ answer.columns.length < p.columnsForRecovery := by
    rw [← Bool.not_eq_true, hiff, Nat.not_le]
  have hnone : answer.columns.length = 0 ↔ count = 0 := by
    rw [hlength, Nat.mul_eq_zero]
    exact or_iff_left (columnsPerGroup_pos hcolumns divides).ne'
  refine ⟨?_, sorted, below, hiff, fun kzg sidecars same covers => ?_⟩
  · rw [hlength, Parameters.columnsPerGroup, Nat.mul_div_assoc _ divides]
  · have hcard : (coverage sidecars).card = answer.columns.length := by
      rw [covers, List.toFinset_card_of_nodup (sorted.imp Nat.ne_of_lt)]
    have hlack := @columns_lacking_iff sidecars kzg p hcolumns same
    rw [hcard] at hlack
    simp only [hcannot, hiff, ← hnone]
    exact hlack

def fourGroups : Parameters := { numberOfCustodyGroups := 4, validatorCustodyRequirement := 4 }

/-- A node with one of the four groups cannot rebuild the columns of the others. -/
theorem not_canSelfReconstruct_of_one_group :
    ∃ (id : NodeId) (answer : PeerCustody) (batch : List ColumnSidecar)
      (sidecars : List VerifiedColumn),
      PeerCustody.compute id 1 fourGroups = .ok answer ∧
      Verification.verify .zeros batch fourGroups = .ok sidecars ∧
      coverage sidecars = answer.columns.toFinset ∧ answer.columns.length = 32 ∧
      canSelfReconstruct 1 fourGroups = false ∧
      Reconstruction.columns .zeros sidecars fourGroups =
        .error (.reconstruction (.notEnoughColumns 32 64)) := by
  have valid : fourGroups.Valid := Parameters.valid_of_check rfl
  let id : NodeId := ⟨.replicate 32 0⟩
  -- One group is met at the first id already, whatever its digest.
  have first : IsLeast {n | 1 ≤ (candidates id fourGroups.groups n).card} 1 := by
    refine ⟨by simp [candidates], fun n hn => Nat.one_le_iff_ne_zero.mpr ?_⟩
    rintro rfl
    simp [candidates] at hn
  have hgroups := groups_of_isLeast (by decide) first (by decide)
  obtain ⟨-, -, below⟩ := Sampled.of_ok (hgroups ▸ sampled_groups id 1 fourGroups)
  obtain ⟨answer, hanswer, -, -, hmem⟩ := PeerCustody.compute_of_groups valid hgroups below
  have hcolumns : ∀ c ∈ answer.columns, c < 128 := fun c hc => ((hmem c).mp hc).1
  obtain ⟨block, shared, -, honest⟩ := Encoding.exists_honest_zeros 0
  have honest : Encoding.Honest .zeros fourGroups block [.zeros] [.zeros] shared :=
    ⟨honest.fits, honest.committed, honest.extended, honest.rect, honest.sharedOf_eq⟩
  obtain ⟨sidecars, hverify⟩ :=
    honest.exists_verify valid (KzgBackend.serves_zeros (by simp)) (by simp) hcolumns
  have hsidecars := Verification.map_sidecar_of_verify hverify
  have taken := Encoding.takenFrom_of_map (by decide) hcolumns hsidecars
  have covers : coverage sidecars = answer.columns.toFinset := by
    rw [coverage, Encoding.map_index_of_map (by decide) hcolumns hsidecars]
  obtain ⟨hlength, -, -, -, hreport⟩ :=
    canSelfReconstruct_iff_columns (by decide) (by decide) hanswer
  obtain ⟨hlack, -⟩ :=
    hreport .zeros sidecars (fun _ hv _ hw => taken.sameBlock honest.rect hv hw) covers
  have hcannot : canSelfReconstruct 1 fourGroups = false := by decide
  have hfailed := hlack.mp hcannot
  rw [hlength] at hfailed
  exact ⟨id, answer, _, sidecars, hanswer, hverify, covers, hlength, hcannot, hfailed⟩

end Custody

end ColumnSampling
