import ColumnSampling.Custody.Policy
import ColumnSampling.Proofs.Outcome
import ColumnSampling.Proofs.Parameters

/-!
# The counts of a node and what its validators require

Whatever the balances of its validators and whatever it told its peers, a node aims at no more
groups than there are, and it keeps no more. The number that it samples has one more source, a
parameter that no rule bounds, so the sampling size stays within the groups exactly if that
parameter does.

Balances are added up one after the other, and a sum that would exceed the greatest 64-bit number is
held there. Since no balance is negative, a sum that is held once stays held, so what comes out is
the exact sum, held at the end. Hence the order of the validators does not matter, more balance
never requires fewer groups, and nothing is lost if all groups together cost no more than that
number.
-/

namespace ColumnSampling

theorem Parameters.Valid.custodyRequirement_le {p : Parameters} (valid : p.Valid) :
    p.custodyRequirement.toNat ≤ p.groups :=
  valid.atMostGroups ("custody_requirement", p.custodyRequirement)
    (by simp [Parameters.atMostGroups])

theorem Custody.validatorsRequirement_le {balance : ℕ → Except String ℕ} {indices : List ℕ}
    {p : Parameters} {n : ℕ} (h : validatorsRequirement balance indices p = .ok n) :
    n ≤ p.groups := by
  obtain ⟨sum, -, hsum⟩ := Outcome.bind_eq_ok.mp h
  cases hsum
  exact min_le_right _ _

namespace CustodyPolicy

variable {c : CustodyPolicy} {p : Parameters}

/-- The validators of the node require no more groups than there are. -/
def Bounded (c : CustodyPolicy) (p : Parameters) : Prop := ∀ n ∈ c.requirement, n ≤ p.groups

theorem target_le (valid : p.Valid) (bounded : c.Bounded p) : c.target p ≤ p.groups := by
  unfold target
  split_ifs
  · exact le_rfl
  · cases hrequirement : c.requirement with
    | none => exact valid.custodyRequirement_le
    | some n => exact bounded n hrequirement

theorem count_le (valid : p.Valid) (bounded : c.Bounded p) (kind : CustodyCount) :
    c.count kind p ≤ p.groups := by
  cases kind with
  | target => exact target_le valid bounded
  | actual => exact (min_le_left _ _).trans (target_le valid bounded)

theorem samplingSize_of_le (valid : p.Valid) (bounded : c.Bounded p) (kind : CustodyCount)
    (h : p.groups ≤ p.samplesPerSlot.toNat) : c.samplingSize kind p = p.samplesPerSlot.toNat :=
  max_eq_left ((count_le valid bounded kind).trans h)

theorem samplingSize_le_iff (valid : p.Valid) (bounded : c.Bounded p) (kind : CustodyCount) :
    c.samplingSize kind p ≤ p.groups ↔ p.samplesPerSlot.toNat ≤ p.groups := by
  rw [samplingSize, max_le_iff, and_iff_left (count_le valid bounded kind)]

theorem samplingSize_lt (valid : p.Valid) (bounded : c.Bounded p) (kind : CustodyCount) :
    c.samplingSize kind p < 2 ^ 64 :=
  max_lt p.samplesPerSlot.toNat_lt
    ((count_le valid bounded kind).trans_lt p.numberOfCustodyGroups.toNat_lt)

end CustodyPolicy

end ColumnSampling

namespace ColumnSampling.Custody

variable {balance balance' : ℕ → Except String ℕ} {amount amount' : ℕ → ℕ}
  {indices indices' : List ℕ} {p : Parameters} {total total' : ℕ}

/-- How many groups a total balance requires. If a share costs nothing, none is required for it. -/
def required (p : Parameters) (total : ℕ) : ℕ :=
  min p.groups (max p.validatorCustodyRequirement.toNat
    (if p.balancePerAdditionalGroup.toNat = 0 then 0
      else total / p.balancePerAdditionalGroup.toNat))

/-- What is answered to validators: the first unknown balance, or what the sum of all requires. -/
inductive Answered (balance : ℕ → Except String ℕ) (p : Parameters) :
    List ℕ → Except CustodyError ℕ → Prop
  | unknown {before after : List ℕ} {index : ℕ} {cause : String}
      (known : ∀ i ∈ before, ∃ amount, balance i = .ok amount) (h : balance index = .error cause) :
      Answered balance p (before ++ index :: after) (.error (.validatorBalance index cause))
  | known {indices : List ℕ} (amount : ℕ → ℕ) (h : ∀ i ∈ indices, balance i = .ok (amount i)) :
      Answered balance p indices (.ok (required p (min (indices.map amount).sum maxWord)))

section Total

/-- Holding every sum is holding the last one. -/
theorem totalBalance_of_known (known : ∀ i ∈ indices, balance i = .ok (amount i)) {sum : ℕ}
    (held : sum ≤ maxWord) :
    totalBalance balance indices sum = .ok (min (sum + (indices.map amount).sum) maxWord) := by
  induction indices generalizing sum with
  | nil =>
    rw [totalBalance, List.map_nil, List.sum_nil, Nat.add_zero, min_eq_left held]
  | cons index rest ih =>
    obtain ⟨hindex, hrest⟩ := List.forall_mem_cons.mp known
    rw [totalBalance, hindex]
    dsimp only
    rw [ih hrest (min_le_right _ _), List.map_cons, List.sum_cons]
    congr 1
    omega

theorem totalBalance_of_unknown {before after : List ℕ} {index : ℕ} {cause : String}
    (known : ∀ i ∈ before, ∃ amount, balance i = .ok amount) (h : balance index = .error cause)
    (sum : ℕ) :
    totalBalance balance (before ++ index :: after) sum =
      .error (.validatorBalance index cause) := by
  induction before generalizing sum with
  | nil => rw [List.nil_append, totalBalance, h]
  | cons i before ih =>
    obtain ⟨⟨amount, hi⟩, hbefore⟩ := List.forall_mem_cons.mp known
    rw [List.cons_append, totalBalance, hi]
    exact ih hbefore _

end Total

section Requirement

theorem required_eq (p : Parameters) (total : ℕ) :
    min (max (total / p.balancePerAdditionalGroup.toNat) p.validatorCustodyRequirement.toNat)
      p.groups = required p total := by
  by_cases free : p.balancePerAdditionalGroup.toNat = 0
  · rw [required, if_pos free, free, Nat.div_zero, min_comm, max_comm]
  · rw [required, if_neg free, min_comm, max_comm]

theorem required_mono (h : total ≤ total') : required p total ≤ required p total' := by
  unfold required
  split_ifs
  · exact le_rfl
  · exact min_le_min_left _ (max_le_max_left _ (Nat.div_le_div_right h))

/-- If the greatest number is enough for all groups, no more than that is ever needed. -/
theorem required_held (enough : p.balancePerAdditionalGroup.toNat * p.groups ≤ maxWord)
    (total : ℕ) :
    required p (min total maxWord) = required p total := by
  rcases le_total total maxWord with small | large
  · rw [min_eq_left small]
  rw [min_eq_right large]
  by_cases free : p.balancePerAdditionalGroup.toNat = 0
  · rw [required, required, if_pos free, if_pos free]
  have all : ∀ n, maxWord ≤ n → required p n = p.groups := by
    intro n hn
    have hquotient : p.groups ≤ n / p.balancePerAdditionalGroup.toNat := by
      rw [Nat.le_div_iff_mul_le (Nat.pos_of_ne_zero free), Nat.mul_comm]
      exact enough.trans hn
    rw [required, if_neg free]
    exact min_eq_left (hquotient.trans (le_max_right _ _))
  rw [all maxWord le_rfl, all total large]

theorem Answered.eq {outcome : Except CustodyError ℕ} (h : Answered balance p indices outcome) :
    validatorsRequirement balance indices p = outcome := by
  cases h with
  | unknown known h =>
    rw [validatorsRequirement, totalBalance_of_unknown known h]
    rfl
  | known amount h =>
    rw [validatorsRequirement, totalBalance_of_known h (Nat.zero_le _), Nat.zero_add, ← required_eq]
    rfl

theorem exists_answered (balance : ℕ → Except String ℕ) (p : Parameters) (indices : List ℕ) :
    ∃ outcome, Answered balance p indices outcome := by
  by_cases known : ∀ i ∈ indices, ∃ amount, balance i = .ok amount
  · choose! amount h using known
    exact ⟨_, .known amount h⟩
  · -- The first index without a balance splits the list.
    induction indices with
    | nil => exact absurd (fun i hi => absurd hi List.not_mem_nil) known
    | cons index rest ih =>
      cases hindex : balance index with
      | error cause =>
        exact ⟨_, @Answered.unknown balance p [] rest index cause (by simp) hindex⟩
      | ok amount =>
        have hrest : ¬ ∀ i ∈ rest, ∃ amount, balance i = .ok amount := fun h =>
          known (List.forall_mem_cons.mpr ⟨⟨amount, hindex⟩, h⟩)
        obtain ⟨outcome, h⟩ := ih hrest
        cases h with
        | @unknown before after i cause hbefore hi =>
          exact ⟨_, @Answered.unknown balance p (index :: before) after i cause
            (List.forall_mem_cons.mpr ⟨⟨amount, hindex⟩, hbefore⟩) hi⟩
        | known amount h => exact absurd (fun i hi => ⟨amount i, h i hi⟩) hrest

theorem answered_validatorsRequirement (balance : ℕ → Except String ℕ) (indices : List ℕ)
    (p : Parameters) : Answered balance p indices (validatorsRequirement balance indices p) := by
  obtain ⟨outcome, h⟩ := exists_answered balance p indices
  rwa [h.eq]

theorem exists_amount {n : ℕ} (h : validatorsRequirement balance indices p = .ok n) :
    ∃ amount : ℕ → ℕ, (∀ i ∈ indices, balance i = .ok (amount i)) ∧
      n = required p (min (indices.map amount).sum maxWord) := by
  have answered := answered_validatorsRequirement balance indices p
  rw [h] at answered
  cases answered with
  | known amount known => exact ⟨amount, known, rfl⟩

theorem validatorsRequirement_of_perm {n : ℕ} (same : indices.Perm indices')
    (h : validatorsRequirement balance indices p = .ok n) :
    validatorsRequirement balance indices' p = .ok n := by
  obtain ⟨amount, known, rfl⟩ := exists_amount h
  rw [(same.map amount).sum_eq]
  exact (Answered.known amount fun i hi => known i (same.mem_iff.mpr hi)).eq

theorem sum_le_of_subperm (more : indices.Subperm indices')
    (larger : ∀ i ∈ indices, amount i ≤ amount' i) :
    (indices.map amount).sum ≤ (indices'.map amount').sum := by
  obtain ⟨part, same, hpart⟩ := more
  calc (indices.map amount).sum
      ≤ (indices.map amount').sum := List.sum_le_sum larger
    _ = (part.map amount').sum := (same.map amount').sum_eq.symm
    _ ≤ (indices'.map amount').sum := (hpart.map amount').sum_le_sum fun _ _ => Nat.zero_le _

end Requirement

/--
The answer to validators is the first unknown balance in the order of the list, or what the exact
sum of all balances requires when it is held at the greatest 64-bit number. The order of the
validators does not change a number, more validators or larger balances never lower it, and where
all groups together cost no more than that number it is what the sum requires without being held.
-/
theorem validatorsRequirement_eq_iff_answered (p : Parameters) :
    (∀ balance indices outcome,
      validatorsRequirement balance indices p = outcome ↔ Answered balance p indices outcome) ∧
    (∀ balance (indices indices' : List ℕ) n, indices.Perm indices' →
      (validatorsRequirement balance indices p = .ok n ↔
        validatorsRequirement balance indices' p = .ok n)) ∧
    (∀ balance balance' (indices indices' : List ℕ) n n', indices.Subperm indices' →
      (∀ i ∈ indices, ∀ amount amount', balance i = .ok amount → balance' i = .ok amount' →
        amount ≤ amount') →
      validatorsRequirement balance indices p = .ok n →
      validatorsRequirement balance' indices' p = .ok n' → n ≤ n') ∧
    (p.balancePerAdditionalGroup.toNat * p.groups ≤ maxWord → ∀ balance indices (amount : ℕ → ℕ),
      (∀ i ∈ indices, balance i = .ok (amount i)) →
      validatorsRequirement balance indices p = .ok (required p (indices.map amount).sum)) := by
  refine ⟨?_, ?_, ?_, ?_⟩
  · intro balance indices outcome
    constructor
    · rintro rfl
      exact answered_validatorsRequirement balance indices p
    · exact Answered.eq
  · intro balance indices indices' n same
    exact ⟨validatorsRequirement_of_perm same, validatorsRequirement_of_perm same.symm⟩
  · intro balance balance' indices indices' n n' more larger h h'
    obtain ⟨amount, known, rfl⟩ := exists_amount h
    obtain ⟨amount', known', rfl⟩ := exists_amount h'
    have hsum : (indices.map amount).sum ≤ (indices'.map amount').sum := by
      apply sum_le_of_subperm more
      intro i hi
      exact larger i hi _ _ (known i hi) (known' i (more.subset hi))
    exact required_mono (min_le_min_right _ hsum)
  · intro enough balance indices amount known
    rw [(Answered.known amount known).eq, required_held enough]

/--
Two validators whose balances exceed the greatest 64-bit number in sum require all groups, in either
order; a third alone requires ten, and a fourth, whose balance is not known, is named before a
fifth.
-/
theorem validatorsRequirement_of_four :
    let balance (i : ℕ) : Except String ℕ :=
      if i < 2 then .ok maxWord else if i = 2 then .ok 320000000000 else .error "unknown"
    let p : Parameters := {}
    p.balancePerAdditionalGroup.toNat * p.groups ≤ maxWord ∧
      validatorsRequirement balance [2] p = .ok 10 ∧
      validatorsRequirement balance [0, 2, 1] p = .ok (required p (2 * maxWord + 320000000000)) ∧
      validatorsRequirement balance [1, 0, 2] p = .ok (required p (2 * maxWord + 320000000000)) ∧
      10 ≤ required p (2 * maxWord + 320000000000) ∧
      validatorsRequirement balance [0, 3, 1, 4] p = .error (.validatorBalance 3 "unknown") := by
  intro balance p
  obtain ⟨answered, order, growth, exact⟩ := validatorsRequirement_eq_iff_answered p
  have enough : p.balancePerAdditionalGroup.toNat * p.groups ≤ maxWord := by decide
  let amount (i : ℕ) : ℕ := if i < 2 then maxWord else 320000000000
  have hten : required p ([2].map amount).sum = 10 := by decide
  have hsum : ([0, 2, 1].map amount).sum = 2 * maxWord + 320000000000 := by decide
  have hone := hten ▸ exact enough balance [2] amount (by decide)
  have hthree := hsum ▸ exact enough balance [0, 2, 1] amount (by decide)
  refine ⟨enough, hone, hthree, (order balance _ _ _ (by decide)).mp hthree, ?_, ?_⟩
  · apply growth balance balance [2] [0, 2, 1] _ _ (by decide) _ hone hthree
    intro i _ n n' hn hn'
    exact (Except.ok.inj (hn.symm.trans hn')).le
  · have hfirst : ∀ i ∈ [0], ∃ amount, balance i = .ok amount := by
      simp [balance]
    exact (answered balance [0, 3, 1, 4] _).mpr
      (@Answered.unknown balance p [0] [1, 4] 3 "unknown" hfirst rfl)

end ColumnSampling.Custody
