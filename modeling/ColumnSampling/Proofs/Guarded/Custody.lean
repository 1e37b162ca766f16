import ColumnSampling.Custody.PeerCache
import ColumnSampling.Custody.Policy
import ColumnSampling.Proofs.Custody.Columns
import ColumnSampling.Proofs.Custody.Sampling
import ColumnSampling.Proofs.Guarded.Steps

/-!
# Guarded custody

The walk over the node ids divides by the number of groups and may not end, the columns of a group
are sums and products of words, and shares are quotients. Whether the walk meets enough groups is a
matter of the digests and stays a condition; all else follows from the parameters.
-/

namespace ColumnSampling

open Guarded

/-- The walk from the id meets enough groups for the count, if it is needed at all. -/
def Custody.Reached (id : NodeId) (count : ℕ) (p : Parameters) : Prop :=
  count < p.groups → ∃ n, count ≤ (candidates id p.groups n).card

namespace Custody

variable {id : NodeId} {p : Parameters} {count total steps missing group : ℕ} {met found : List ℕ}

section Groups

def groupAtGuarded (id : NodeId) (total : ℕ) : Guarded ℕ :=
  remainder (Endian.ofLittle ((Sha256.digest id.littleEndian).toList.take 8)) total

def walkGuarded (total : ℕ) : (steps : ℕ) → (id : NodeId) → (missing : ℕ) → (met : List ℕ) →
    Guarded (List ℕ)
  | _, _, 0, met => .ok met
  | 0, _, _ + 1, _ => .error .endless
  | steps + 1, id, missing + 1, met => do
    let group ← groupAtGuarded id total
    if group ∈ met then walkGuarded total steps id.next (missing + 1) met
    else walkGuarded total steps id.next missing (Ascending.insert group met)

def groupsGuarded (id : NodeId) (count : ℕ) (p : Parameters) :
    Guarded (Except CustodyError (List ℕ)) :=
  if p.groups < count then .ok (.error (.tooLarge count p.groups))
  else if count = p.groups then .ok (.ok (List.range p.groups))
  else do
    let met ← walkGuarded p.groups idCount id count []
    if met.length = count then return .ok met
    else return .error (.internal count met.length)

theorem walkGuarded_eq (htotal : 0 < total) (h : walk total steps id missing met = some found) :
    walkGuarded total steps id missing met = .ok found := by
  induction steps generalizing id missing met with
  | zero =>
    cases missing with
    | zero => exact congrArg Except.ok (Option.some.inj h)
    | succ missing => cases h
  | succ steps ih =>
    cases missing with
    | zero => exact congrArg Except.ok (Option.some.inj h)
    | succ missing =>
      have hgroup : groupAtGuarded id total = .ok (groupAt id total) := remainder_of_pos htotal
      rw [walk] at h
      rw [walkGuarded, hgroup, ok_bind]
      split_ifs at h ⊢ with hmet
      · exact ih h
      · exact ih h

theorem exists_walk (h : count < p.groups) (reached : Reached id count p) :
    ∃ found, walk p.groups idCount id count [] = some found := by
  obtain ⟨_, enough⟩ := reached h
  obtain ⟨n, hn, least⟩ := exists_isLeast enough
  rw [walk_eq_resumed]
  exact ⟨_, resumed_of_isLeast least (Nat.zero_le n) (hn.trans_eq (Nat.zero_add _).symm)⟩

theorem groupsGuarded_eq (reached : Reached id count p) :
    groupsGuarded id count p = .ok (groups id count p) := by
  unfold groupsGuarded groups
  split_ifs with hlarge hall
  · rfl
  · rfl
  · obtain ⟨found, hwalk⟩ := exists_walk (by omega) reached
    simp only [walkGuarded_eq (by omega) hwalk, ok_bind, hwalk]
    split_ifs <;> rfl

end Groups

section Columns

def columnsOfGroupGuarded (group : ℕ) (p : Parameters) : Guarded (Except CustodyError (List ℕ)) :=
  if group < p.groups then do
    let count ← quotient p.columns p.groups
    let columns ← (List.range count).mapM fun i => do
      let first ← word (p.groups * i)
      word (first + group)
    return .ok columns
  else .ok (.error (.invalidGroup group p.groups))

def groupOfColumnGuarded (column : ℕ) (p : Parameters) : Guarded (Except CustodyError ℕ) :=
  if p.columns ≤ column then .ok (.error (.invalidColumn column p.columns))
  else if p.groups = 0 then .ok (.error (.zeroParameter "number_of_custody_groups"))
  else do
    let group ← remainder column p.groups
    return .ok group

def columnsFromGuarded (p : Parameters) : (groups : List ℕ) → (found : List ℕ) →
    Guarded (Except CustodyError (List ℕ))
  | [], found => .ok (.ok found)
  | group :: rest, found =>
    andThen (columnsOfGroupGuarded group p) fun columns =>
      columnsFromGuarded p rest (Ascending.insertAll columns found)

def subnetOfColumnGuarded (column : ℕ) (p : Parameters) : Guarded (Except CustodyError ℕ) :=
  if p.subnetCount = 0 then .ok (.error (.zeroParameter "data_column_sidecar_subnet_count"))
  else do
    let subnet ← remainder column p.subnetCount.toNat
    return .ok subnet

def subnetsGuarded (columns : List ℕ) (p : Parameters) : Guarded (Except CustodyError (List ℕ)) :=
  andThen (build (subnetOfColumnGuarded · p) columns) fun subnets =>
    return .ok (Ascending.ofList subnets)

/-- The greatest word in the sum is a column, and columns are words. -/
theorem columnsOfGroupGuarded_eq (group : ℕ) (p : Parameters) :
    columnsOfGroupGuarded group p = .ok (columnsOfGroup group p) := by
  unfold columnsOfGroupGuarded columnsOfGroup
  split_ifs with hgroup
  · have hentry : ∀ i ∈ List.range p.columnsPerGroup, (do
        let first ← word (p.groups * i)
        word (first + group)) = .ok (p.groups * i + group) := by
      intro i hi
      have hcolumn := dealt_lt hgroup (List.mem_range.mp hi)
      have hword : p.columns < 2 ^ 64 := p.numberOfColumns.toNat_lt
      -- Both words are below a column, so neither step overflows.
      rw [word_of_lt (by omega), ok_bind, word_of_lt (by omega)]
    rw [quotient_of_pos (Nat.zero_lt_of_lt hgroup), ok_bind, ← Parameters.columnsPerGroup,
      mapM_eq_map hentry]
    rfl
  · rfl

theorem groupOfColumnGuarded_eq (column : ℕ) (p : Parameters) :
    groupOfColumnGuarded column p = .ok (groupOfColumn column p) := by
  unfold groupOfColumnGuarded groupOfColumn
  split_ifs with hcolumn hzero
  · rfl
  · rfl
  · rw [remainder_of_pos (Nat.pos_of_ne_zero hzero), ok_bind]
    rfl

theorem columnsFromGuarded_eq (groups found : List ℕ) (p : Parameters) :
    columnsFromGuarded p groups found = .ok (groups.foldlM (fun found group =>
      return Ascending.insertAll (← columnsOfGroup group p) found) found) := by
  induction groups generalizing found with
  | nil => rfl
  | cons group rest ih =>
    rw [List.foldlM_cons, bind_assoc]
    exact andThen_eq (columnsOfGroupGuarded_eq group p) fun _ _ => ih _

theorem subnetsGuarded_eq (columns : List ℕ) (p : Parameters) :
    subnetsGuarded columns p = .ok (subnets columns p) := by
  have hsubnet : ∀ c ∈ columns, subnetOfColumnGuarded c p = .ok (subnetOfColumn c p) := by
    intro c _
    unfold subnetOfColumnGuarded subnetOfColumn
    split_ifs with hzero
    · rfl
    · have hpos : 0 < p.subnetCount.toNat := by
        rw [← UInt64.toNat_inj] at hzero
        exact Nat.pos_of_ne_zero hzero
      rw [remainder_of_pos hpos, ok_bind]
      rfl
  exact andThen_eq (build_eq hsubnet) fun _ _ => rfl

end Columns

def validatorsRequirementGuarded (balance : ℕ → Except String ℕ) (indices : List ℕ)
    (p : Parameters) : Guarded (Except CustodyError ℕ) :=
  andThen (.ok (totalBalance balance indices 0)) fun sum => do
    let shares ← quotient sum p.balancePerAdditionalGroup.toNat
    return .ok (min (max shares p.validatorCustodyRequirement.toNat) p.groups)

theorem validatorsRequirementGuarded_eq (valid : p.Valid) (balance : ℕ → Except String ℕ)
    (indices : List ℕ) : validatorsRequirementGuarded balance indices p =
      .ok (validatorsRequirement balance indices p) := by
  have hshare : 0 < p.balancePerAdditionalGroup.toNat := by
    have h := valid.nonZero ("balance_per_additional_custody_group", p.balancePerAdditionalGroup)
      (by simp [Parameters.nonZero])
    rw [ne_eq, ← UInt64.toNat_inj] at h
    exact Nat.pos_of_ne_zero h
  refine andThen_eq rfl fun sum _ => ?_
  rw [quotient_of_pos hshare, ok_bind]
  rfl

end Custody

def PeerCustody.computeGuarded (id : NodeId) (count : ℕ) (p : Parameters) :
    Guarded (Except CustodyError PeerCustody) :=
  andThen (Custody.groupsGuarded id count p) fun groups =>
    andThen (Custody.columnsFromGuarded p groups []) fun columns =>
      andThen (Custody.subnetsGuarded columns p) fun subnets =>
        return .ok { groups := groups, columns := columns, subnets := subnets }

def PeerCache.askGuarded (c : PeerCache) (id : NodeId) (count : ℕ) (p : Parameters) :
    Guarded (Except CustodyError (PeerCustody × Bool) × PeerCache) :=
  let key := key id count
  match c.find? key with
  | some answer => .ok (.ok (answer, true), c.touch key answer)
  | none => do
    match ← PeerCustody.computeGuarded id count p with
    | .error cause => return (.error cause, c)
    | .ok answer => return (.ok (answer, false), c.touch key answer)

variable {id : NodeId} {count : ℕ} {p : Parameters}

theorem PeerCustody.computeGuarded_eq (reached : Custody.Reached id count p) :
    computeGuarded id count p = .ok (compute id count p) := by
  refine andThen_eq (Custody.groupsGuarded_eq reached) fun groups _ => ?_
  refine andThen_eq (Custody.columnsFromGuarded_eq groups [] p) fun columns _ => ?_
  exact andThen_eq (Custody.subnetsGuarded_eq columns p) fun _ _ => rfl

theorem PeerCache.askGuarded_eq (reached : Custody.Reached id count p) (c : PeerCache) :
    c.askGuarded id count p = .ok (c.ask id count p) := by
  unfold askGuarded ask
  simp only [PeerCustody.computeGuarded_eq reached, ok_bind]
  cases c.find? (key id count) with
  | some answer => rfl
  | none => cases PeerCustody.compute id count p <;> rfl

end ColumnSampling
