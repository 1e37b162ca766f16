import ColumnSampling.Proofs.Guarded.Custody

/-!
# The groups divide the columns

Columns are dealt out in turn. Where they come out even, each column has one owner, told by division
with remainder, and the groups have equal shares; a list of groups then has the columns whose owner
it names, unless it names a group that does not exist. What a group is dealt are columns in any
case, so computing them stays within a word.
-/

namespace ColumnSampling.Custody

variable {p : Parameters} {groups : List ℕ} {group c : ℕ}

theorem groupOfColumn_eq_ok (hgroups : 0 < p.groups) :
    groupOfColumn c p = .ok group ↔ c < p.columns ∧ c % p.groups = group := by
  unfold groupOfColumn
  split_ifs with hcolumn hzero
  · simp [hcolumn]
  · omega
  · simp [Nat.lt_of_not_le hcolumn]

theorem mem_dealt_iff_groupOfColumn (divides : p.groups ∣ p.columns) (h : group < p.groups) :
    c ∈ dealt p group ↔ groupOfColumn c p = .ok group := by
  rw [mem_dealt divides h, groupOfColumn_eq_ok (Nat.zero_lt_of_lt h)]

theorem columns_of_find {bad : ℕ} (h : groups.find? (p.groups ≤ ·) = some bad) :
    columns groups p = .error (.invalidGroup bad p.groups) := by
  have general (found : List ℕ) :
      groups.foldlM (fun found group => return Ascending.insertAll (← columnsOfGroup group p) found)
        found = .error (.invalidGroup bad p.groups) := by
    induction groups generalizing found with
    | nil => cases h
    | cons group rest ih =>
      rw [List.foldlM_cons]
      by_cases hgroup : group < p.groups
      · rw [List.find?_cons_of_neg (by simpa using hgroup)] at h
        rw [columnsOfGroup_of_lt hgroup]
        exact ih h _
      · rw [List.find?_cons_of_pos (by simpa using hgroup)] at h
        obtain rfl := Option.some.inj h
        rw [columnsOfGroup, if_neg hgroup]
        rfl
  exact general []

/--
If the columns come out even, every column is among those of exactly one group, its owner; each
group has an equal share, in ascending order; and a list of groups has the columns whose owners it
names, or fails at the first group that does not exist. Even or not, the columns of a group are
computed with products and sums that a word holds.
-/
theorem columnsOfGroup_partition (p : Parameters) :
    (0 < p.groups → p.groups ∣ p.columns →
      (∀ c < p.columns, ∃ owner < p.groups, groupOfColumn c p = .ok owner ∧
        ∀ group < p.groups,
          (∃ found, columnsOfGroup group p = .ok found ∧ c ∈ found) ↔ group = owner) ∧
      (∀ group < p.groups, ∃ found, columnsOfGroup group p = .ok found ∧
        found.Pairwise (· < ·) ∧ found.length = p.columns / p.groups ∧
        ∀ c ∈ found, c < p.columns) ∧
      ∀ groups : List ℕ, match groups.find? (p.groups ≤ ·) with
        | some bad => columns groups p = .error (.invalidGroup bad p.groups)
        | none => ∃ found, columns groups p = .ok found ∧ found.Pairwise (· < ·) ∧
          ∀ c, c ∈ found ↔ ∃ group ∈ groups, groupOfColumn c p = .ok group) ∧
    (∀ group < p.groups, ∀ i < p.columnsPerGroup,
      p.groups * i < 2 ^ 64 ∧ p.groups * i + group < 2 ^ 64) ∧
    ∀ group, columnsOfGroupGuarded group p = .ok (columnsOfGroup group p) := by
  refine ⟨fun hgroups divides => ⟨fun c hc => ?_, fun group hgroup => ?_, fun groups => ?_⟩,
    fun group hgroup i hi => ?_, fun group => columnsOfGroupGuarded_eq group p⟩
  · refine ⟨c % p.groups, Nat.mod_lt _ hgroups, (groupOfColumn_eq_ok hgroups).mpr ⟨hc, rfl⟩, ?_⟩
    intro group hgroup
    constructor
    · rintro ⟨found, hfound, hmem⟩
      rw [columnsOfGroup_of_lt hgroup] at hfound
      obtain rfl := Except.ok.inj hfound
      exact ((mem_dealt divides hgroup).mp hmem).2.symm
    · rintro rfl
      exact ⟨_, columnsOfGroup_of_lt hgroup, (mem_dealt divides hgroup).mpr ⟨hc, rfl⟩⟩
  · exact ⟨_, columnsOfGroup_of_lt hgroup, pairwise_dealt hgroups, length_dealt,
      fun c hc => ((mem_dealt divides hgroup).mp hc).1⟩
  · cases hfind : groups.find? (p.groups ≤ ·) with
    | some bad => exact columns_of_find hfind
    | none =>
      have below : ∀ group ∈ groups, group < p.groups := by
        simpa using hfind
      refine ⟨_, columns_of_lt below, Ascending.pairwise_ofList _, fun c => ?_⟩
      rw [Ascending.mem_ofList, List.mem_flatMap]
      exact exists_congr fun group => and_congr_right fun hgroup =>
        mem_dealt_iff_groupOfColumn divides (below group hgroup)
  · have hcolumn := dealt_lt hgroup hi
    have hword : p.columns < 2 ^ 64 := p.numberOfColumns.toNat_lt
    omega

/-- Six columns in three groups: column 5 is dealt to the last group alone, naming a group twice
adds nothing, and of two groups that do not exist the first is reported. -/
theorem columnsOfGroup_of_three_groups :
    let p : Parameters := { numberOfColumns := 6, numberOfCustodyGroups := 3 }
    0 < p.groups ∧ p.groups ∣ p.columns ∧
      (∀ group < p.groups,
        (∃ found, columnsOfGroup group p = .ok found ∧ 5 ∈ found) ↔ group = 2) ∧
      (∃ found, columns [2, 0, 2] p = .ok found ∧ found = [0, 2, 3, 5] ∧
        ∀ c, c ∈ found ↔ ∃ group ∈ [2, 0, 2], groupOfColumn c p = .ok group) ∧
      columns [1, 4, 7] p = .error (.invalidGroup 4 3) := by
  intro p
  have hgroups : 0 < p.groups := by decide
  have divides : p.groups ∣ p.columns := by decide
  obtain ⟨owners, -, unions⟩ := (columnsOfGroup_partition p).1 hgroups divides
  obtain ⟨owner, -, howner, honly⟩ := owners 5 (by decide)
  have hlast : groupOfColumn 5 p = .ok 2 := by decide
  obtain rfl : owner = 2 := Except.ok.inj (howner.symm.trans hlast)
  obtain ⟨found, hfound, -, hmem⟩ := unions [2, 0, 2]
  have hlist : columns [2, 0, 2] p = .ok [0, 2, 3, 5] := by decide
  exact ⟨hgroups, divides, honly,
    ⟨found, hfound, Except.ok.inj (hfound.symm.trans hlist), hmem⟩, unions [1, 4, 7]⟩

end ColumnSampling.Custody
