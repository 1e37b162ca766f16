import ColumnSampling.Custody.PeerCache
import ColumnSampling.Proofs.Outcome
import ColumnSampling.Proofs.Parameters

/-!
# The columns and subnets of a node

Columns are dealt out to the groups in turn, so under valid parameters a column is kept exactly if
its number modulo the number of groups is one of the groups kept. Of the three steps from an id to
its custody only the first can fail.
-/

namespace ColumnSampling

namespace Custody

variable {p : Parameters} {groups : List ℕ} {group c : ℕ}

/-- The columns that a group has been dealt. -/
def dealt (p : Parameters) (group : ℕ) : List ℕ :=
  (List.range p.columnsPerGroup).map fun i => p.groups * i + group

theorem columnsOfGroup_of_lt (h : group < p.groups) :
    columnsOfGroup group p = .ok (dealt p group) :=
  if_pos h

theorem columns_of_lt (h : ∀ group ∈ groups, group < p.groups) :
    columns groups p = .ok (Ascending.ofList (groups.flatMap (dealt p))) := by
  have general (found : List ℕ) :
      groups.foldlM (fun found group => return Ascending.insertAll (← columnsOfGroup group p) found)
        found = .ok (Ascending.insertAll (groups.flatMap (dealt p)) found) := by
    induction groups generalizing found with
    | nil => rfl
    | cons group rest ih =>
      obtain ⟨hgroup, hrest⟩ := List.forall_mem_cons.mp h
      rw [List.foldlM_cons, columnsOfGroup_of_lt hgroup, List.flatMap_cons, Ascending.insertAll,
        List.foldl_append]
      exact ih hrest _
  exact general []

/-- Every group is dealt columns that exist, also where they do not come out even. -/
theorem dealt_lt {i : ℕ} (h : group < p.groups) (hi : i < p.columnsPerGroup) :
    p.groups * i + group < p.columns :=
  calc p.groups * i + group < p.groups * (i + 1) := by rw [Nat.mul_succ]; omega
    _ ≤ p.groups * p.columnsPerGroup := Nat.mul_le_mul_left _ hi
    _ ≤ p.columns := Nat.mul_div_le _ _

theorem length_dealt : (dealt p group).length = p.columnsPerGroup := by
  rw [dealt, List.length_map, List.length_range]

theorem pairwise_dealt (hgroups : 0 < p.groups) : (dealt p group).Pairwise (· < ·) := by
  apply List.pairwise_map.mpr
  exact List.pairwise_lt_range.imp fun h =>
    Nat.add_lt_add_right (Nat.mul_lt_mul_of_pos_left h hgroups) group

theorem mem_dealt (divides : p.groups ∣ p.columns) (h : group < p.groups) :
    c ∈ dealt p group ↔ c < p.columns ∧ c % p.groups = group := by
  have hcolumns : p.groups * p.columnsPerGroup = p.columns := Nat.mul_div_cancel' divides
  simp only [dealt, List.mem_map, List.mem_range]
  constructor
  · rintro ⟨i, hi, rfl⟩
    exact ⟨dealt_lt h hi, by rw [Nat.mul_add_mod, Nat.mod_eq_of_lt h]⟩
  · rintro ⟨hc, rfl⟩
    refine ⟨c / p.groups, ?_, Nat.div_add_mod c p.groups⟩
    rw [Nat.div_lt_iff_lt_mul (Nat.zero_lt_of_lt h), Nat.mul_comm, hcolumns]
    exact hc

theorem mem_flatMap_dealt (divides : p.groups ∣ p.columns)
    (h : ∀ group ∈ groups, group < p.groups) :
    c ∈ groups.flatMap (dealt p) ↔ c < p.columns ∧ c % p.groups ∈ groups := by
  rw [List.mem_flatMap]
  constructor
  · rintro ⟨group, hgroup, hc⟩
    obtain ⟨below, rfl⟩ := (mem_dealt divides (h group hgroup)).mp hc
    exact ⟨below, hgroup⟩
  · rintro ⟨hc, hgroup⟩
    exact ⟨_, hgroup, (mem_dealt divides (h _ hgroup)).mpr ⟨hc, rfl⟩⟩

theorem exists_subnets (h : p.subnetCount ≠ 0) (columns : List ℕ) :
    ∃ found, subnets columns p = .ok found := by
  have each : ∀ c ∈ columns, ∃ subnet, subnetOfColumn c p = .ok subnet ∧ True :=
    fun c _ => ⟨_, if_neg h, trivial⟩
  obtain ⟨found, hfound, -⟩ := Outcome.exists_mapM_ok each
  exact ⟨_, Outcome.bind_eq_ok.mpr ⟨found, hfound, rfl⟩⟩

end Custody

namespace Parameters.Valid

variable {p : Parameters} (valid : p.Valid)

include valid

theorem groups_dvd_columns : p.groups ∣ p.columns := by
  have h := congrArg UInt64.toNat valid.columns_mod_groups
  rw [UInt64.toNat_mod] at h
  exact Nat.dvd_of_mod_eq_zero h

theorem subnetCount_ne_zero : p.subnetCount ≠ 0 :=
  valid.nonZero ("data_column_sidecar_subnet_count", p.subnetCount) (by simp [Parameters.nonZero])

end Parameters.Valid

namespace PeerCustody

variable {id : NodeId} {count : ℕ} {p : Parameters} {groups : List ℕ} {answer : PeerCustody}

theorem compute_eq_ok : compute id count p = .ok answer ↔
    Custody.groups id count p = .ok answer.groups ∧
      Custody.columns answer.groups p = .ok answer.columns ∧
      Custody.subnets answer.columns p = .ok answer.subnets := by
  simp only [compute, Outcome.bind_eq_ok]
  constructor
  · rintro ⟨groups, hgroups, columns, hcolumns, subnets, hsubnets, h⟩
    obtain rfl := Except.ok.inj h
    exact ⟨hgroups, hcolumns, hsubnets⟩
  · rintro ⟨hgroups, hcolumns, hsubnets⟩
    exact ⟨_, hgroups, _, hcolumns, _, hsubnets, rfl⟩

theorem compute_of_error {cause : CustodyError} (h : Custody.groups id count p = .error cause) :
    compute id count p = .error cause := by
  rw [compute, h]
  rfl

theorem compute_of_groups (valid : p.Valid) (h : Custody.groups id count p = .ok groups)
    (below : ∀ group ∈ groups, group < p.groups) :
    ∃ answer, compute id count p = .ok answer ∧ answer.groups = groups ∧
      answer.columns.Pairwise (· < ·) ∧
      ∀ c, c ∈ answer.columns ↔ c < p.columns ∧ c % p.groups ∈ groups := by
  let columns := Ascending.ofList (groups.flatMap (Custody.dealt p))
  have hcolumns : Custody.columns groups p = .ok columns := Custody.columns_of_lt below
  obtain ⟨subnets, hsubnets⟩ := Custody.exists_subnets valid.subnetCount_ne_zero columns
  refine ⟨⟨groups, columns, subnets⟩, ?_, rfl, Ascending.pairwise_ofList _, fun c => ?_⟩
  · exact compute_eq_ok.mpr ⟨h, hcolumns, hsubnets⟩
  · rw [Ascending.mem_ofList, Custody.mem_flatMap_dealt valid.groups_dvd_columns below]

end PeerCustody

end ColumnSampling
