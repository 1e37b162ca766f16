import ColumnSampling.Proofs.Column.Honest
import ColumnSampling.Proofs.Custody.Sampling
import ColumnSampling.Proofs.Engine.Run

/-!
# The custody counts of a run

What a node aims at comes from the last update of its validators that succeeded, and what it tells
its peers from its last announcement; no other call matters to them. Whatever the order of the
calls, the node keeps no more groups than it aims at, and aims at no more than there are, so its own
counts are never too large to ask about.
-/

namespace ColumnSampling

theorem Parameters.Valid.validatorRequirement_le {p : Parameters} (valid : p.Valid) :
    p.validatorCustodyRequirement.toNat ≤ p.groups :=
  valid.atMostGroups ("validator_custody_requirement", p.validatorCustodyRequirement)
    (by simp [Parameters.atMostGroups])

theorem Custody.le_validatorsRequirement {balance : ℕ → Except String ℕ} {indices : List ℕ}
    {p : Parameters} {n : ℕ} (valid : p.Valid)
    (h : validatorsRequirement balance indices p = .ok n) :
    p.validatorCustodyRequirement.toNat ≤ n := by
  obtain ⟨sum, -, hsum⟩ := Outcome.bind_eq_ok.mp h
  cases hsum
  exact le_min (le_max_right _ _) valid.validatorRequirement_le

namespace CustodyPolicy

variable {c : CustodyPolicy}

theorem counts_of_all (p : Parameters) (h : c.subscribeAllSubnets = true) :
    c.target p = p.groups ∧ c.advertised p = p.groups :=
  ⟨if_pos h, if_pos h⟩

theorem counts_of_some (p : Parameters) (h : c.subscribeAllSubnets = false) :
    c.target p = c.requirement.getD p.custodyRequirement.toNat ∧
      c.advertised p = max p.custodyRequirement.toNat c.announced := by
  have hnot : ¬ c.subscribeAllSubnets = true := by
    rw [h]
    decide
  exact ⟨if_neg hnot, (if_neg hnot).trans (max_comm _ _)⟩

end CustodyPolicy

structure ValidatorUpdate where
  balance : ℕ → Except String ℕ
  indices : List ℕ

namespace Engine

/-- The update of the validators that a call makes, if it makes one and succeeds. -/
def Call.update? : Call → Option ValidatorUpdate
  | ⟨e, .updateValidators balance indices⟩ =>
    if (e.updateValidators balance indices).1.isOk then some ⟨balance, indices⟩ else none
  | _ => none

/-- The count that an operation announces, if it does. -/
def Operation.announced? : Operation → Option ℕ
  | .announce count => some count
  | _ => none

/-- The last update of a run that succeeded. -/
def lastUpdate (e : Engine) (operations : List Operation) : Option ValidatorUpdate :=
  ((e.calls operations).filterMap Call.update?).getLast?

/-- The last count that a run announces, zero before any. -/
def lastAnnounced (operations : List Operation) : ℕ :=
  (operations.filterMap Operation.announced?).getLast?.getD 0

/-- What the validators of the last update require. -/
inductive Required (p : Parameters) : Option ValidatorUpdate → Option ℕ → Prop
  /-- Nothing, before any update. -/
  | never : Required p none none
  /-- Nothing, without validators. -/
  | nobody (balance : ℕ → Except String ℕ) : Required p (some ⟨balance, []⟩) none
  | some {balance : ℕ → Except String ℕ} {indices : List ℕ} {n : ℕ} (hne : indices ≠ [])
      (h : Custody.validatorsRequirement balance indices p = .ok n) :
      Required p (some ⟨balance, indices⟩) (some n)

variable {e created : Engine} {p : Parameters}

section Step

/-- A call that neither updates the validators nor announces a count leaves the counts alone. -/
theorem custody_after (e : Engine) (operation : Operation) :
    (e.after operation).custody =
      match operation with
      | .updateValidators balance indices => (e.updateValidators balance indices).2.custody
      | .announce count => { e.custody with announced := count }
      | _ => e.custody := by
  have hasked : ∀ id count, (e.peerCustody id count).2.custody = e.custody := by
    intro id count
    unfold peerCustody
    split <;> rfl
  cases operation with
  | buildSidecars block blobs =>
    simp only [after, buildSidecars]
    split
    · rfl
    · rfl
    · split <;> rfl
  | verifySidecars batch =>
    simp only [after, verifySidecars]
    split <;> rfl
  | rebuildBlobs columns indices => rfl
  | rebuildColumns columns => rfl
  | updateValidators balance indices => rfl
  | announce count => rfl
  | peerCustody id count => exact hasked id count
  | peerCustodyFromRecord id record =>
    simp only [after, peerCustodyFromRecord]
    split
    · rfl
    · exact hasked id _
  | samplingColumns id kind =>
    simp only [after, samplingColumns_eq_map]
    exact hasked id _

theorem updateValidators_cases (e : Engine) (balance : ℕ → Except String ℕ) (indices : List ℕ) :
    (∃ cause, e.updateValidators balance indices = (.error cause, e)) ∨
      ∃ target requirement, Required e.parameters (some ⟨balance, indices⟩) requirement ∧
        e.updateValidators balance indices =
          (.ok target, { e with custody := { e.custody with requirement := requirement } }) := by
  by_cases hindices : indices = []
  · subst hindices
    exact .inr ⟨_, none, .nobody balance, rfl⟩
  · have hempty : ¬ indices.isEmpty = true := by simpa using hindices
    unfold updateValidators
    cases hrequirement : Custody.validatorsRequirement balance indices e.parameters with
    | error cause =>
      simp only [if_neg hempty]
      exact .inl ⟨_, rfl⟩
    | ok n =>
      simp only [if_neg hempty]
      exact .inr ⟨_, some n, .some hindices hrequirement, rfl⟩

/-- The fields of the counts come from one update and one announcement. -/
structure Follows (e : Engine) (p : Parameters) (subscribe : Bool) (update : Option ValidatorUpdate)
    (announced : ℕ) : Prop where
  subscribe_eq : e.custody.subscribeAllSubnets = subscribe
  required : Required p update e.custody.requirement
  announced_eq : e.custody.announced = announced

theorem Follows.after {subscribe : Bool} {update : Option ValidatorUpdate} {announced : ℕ}
    (follows : e.Follows p subscribe update announced) (hp : e.parameters = p)
    (operation : Operation) :
    (e.after operation).Follows p subscribe ((Call.mk e operation).update?.or update)
      (operation.announced?.getD announced) := by
  obtain ⟨hsubscribe, required, hannounced⟩ := follows
  have hcustody := custody_after e operation
  cases operation with
  | updateValidators balance indices =>
    rcases updateValidators_cases e balance indices with
      ⟨cause, heq⟩ | ⟨target, requirement, hrequired, heq⟩
    · have hupdate : (Call.mk e (.updateValidators balance indices)).update? = none := by
        simp [Call.update?, heq, Except.isOk, Except.toBool]
      simp only [heq] at hcustody
      rw [hupdate, Option.none_or]
      exact ⟨hcustody ▸ hsubscribe, hcustody ▸ required, hcustody ▸ hannounced⟩
    · have hupdate : (Call.mk e (.updateValidators balance indices)).update? =
          some ⟨balance, indices⟩ := by
        simp [Call.update?, heq, Except.isOk, Except.toBool]
      simp only [heq] at hcustody
      rw [hupdate, Option.some_or, ← hp]
      exact ⟨hcustody ▸ hsubscribe, hcustody ▸ hrequired, hcustody ▸ hannounced⟩
  | announce count => exact ⟨hsubscribe, required, rfl⟩
  | _ => exact ⟨hcustody ▸ hsubscribe, hcustody ▸ required, hcustody ▸ hannounced⟩

end Step

section Run

theorem run_concat (e : Engine) (operations : List Operation) (operation : Operation) :
    e.run (operations ++ [operation]) = (e.run operations).after operation := by
  rw [run, List.foldl_append]
  rfl

theorem calls_concat (e : Engine) (operations : List Operation) (operation : Operation) :
    e.calls (operations ++ [operation]) =
      e.calls operations ++ [⟨e.run operations, operation⟩] := by
  induction operations generalizing e with
  | nil => rfl
  | cons first rest ih =>
    rw [List.cons_append, calls, ih]
    rfl

theorem getLast?_filterMap_concat {α β : Type} (f : α → Option β) (l : List α) (x : α) :
    ((l ++ [x]).filterMap f).getLast? = (f x).or (l.filterMap f).getLast? := by
  rw [List.filterMap_append, List.getLast?_append]
  cases hx : f x <;> simp [hx]

theorem follows_run {kzg : KzgBackend} {subscribe : Bool}
    (h : create kzg p subscribe = .ok created) (operations : List Operation) :
    (created.run operations).Follows p subscribe (created.lastUpdate operations)
      (lastAnnounced operations) := by
  induction operations using List.reverseRecOn with
  | nil =>
    rw [create, check_of_create h] at h
    cases h
    exact ⟨rfl, .never, rfl⟩
  | append_singleton before operation ih =>
    have hparameters := ((consistent_of_create h).run before).parameters_eq
    have hupdate : created.lastUpdate (before ++ [operation]) =
        (Call.mk (created.run before) operation).update?.or (created.lastUpdate before) := by
      rw [lastUpdate, calls_concat, getLast?_filterMap_concat]
      rfl
    have hannounced : lastAnnounced (before ++ [operation]) =
        operation.announced?.getD (lastAnnounced before) := by
      rw [lastAnnounced, getLast?_filterMap_concat]
      cases operation.announced? <;> rfl
    rw [run_concat, hupdate, hannounced]
    exact ih.after hparameters operation

end Run

section Counts

/-- What a node aims at that does not subscribe to all subnets. -/
def AimsAt (p : Parameters) (target : ℕ) : Option ValidatorUpdate → Prop
  | none => target = p.custodyRequirement.toNat
  | some ⟨_, []⟩ => target = p.custodyRequirement.toNat
  | some ⟨balance, indices⟩ => Custody.validatorsRequirement balance indices p = .ok target ∧
      p.validatorCustodyRequirement.toNat ≤ target ∧ target ≤ p.groups

theorem Required.aimsAt {update : Option ValidatorUpdate} {requirement : Option ℕ}
    (required : Required p update requirement) (valid : p.Valid) :
    AimsAt p (requirement.getD p.custodyRequirement.toNat) update := by
  cases required with
  | never => rfl
  | nobody balance => rfl
  | @some balance indices n hne h =>
    cases indices with
    | nil => exact absurd rfl hne
    | cons index rest =>
      exact ⟨h, Custody.le_validatorsRequirement valid h, Custody.validatorsRequirement_le h⟩

theorem Required.le {update : Option ValidatorUpdate} {requirement : Option ℕ}
    (required : Required p update requirement) (valid : p.Valid) :
    min p.custodyRequirement.toNat p.validatorCustodyRequirement.toNat ≤
      requirement.getD p.custodyRequirement.toNat := by
  cases required with
  | never => exact min_le_left _ _
  | nobody balance => exact min_le_left _ _
  | some hne h => exact (min_le_right _ _).trans (Custody.le_validatorsRequirement valid h)

theorem Follows.le_actual {subscribe : Bool} {update : Option ValidatorUpdate} {announced : ℕ}
    (follows : e.Follows p subscribe update announced) (valid : p.Valid) :
    min p.custodyRequirement.toNat p.validatorCustodyRequirement.toNat ≤ e.custody.actual p := by
  rw [CustodyPolicy.actual]
  cases subscribe with
  | true =>
    obtain ⟨htarget, hadvertised⟩ := CustodyPolicy.counts_of_all p follows.subscribe_eq
    rw [htarget, hadvertised, min_self]
    exact (min_le_left _ _).trans valid.custodyRequirement_le
  | false =>
    obtain ⟨htarget, hadvertised⟩ := CustodyPolicy.counts_of_some p follows.subscribe_eq
    rw [htarget, hadvertised]
    exact le_min (follows.required.le valid) ((min_le_left _ _).trans (le_max_left _ _))

theorem peerCustody_ne_tooLarge (consistent : e.Consistent p) (id : NodeId) {asked : ℕ}
    (within : asked ≤ p.groups) (count max : ℕ) :
    (e.peerCustody id asked).1 ≠ .error (.custody (.tooLarge count max)) := by
  have small : asked < 2 ^ 64 := within.trans_lt p.numberOfCustodyGroups.toNat_lt
  have sampled := Custody.sampled_groups id asked p
  rw [consistent.peerCustody_eq id small]
  cases hgroups : Custody.groups id asked p with
  | ok groups =>
    rw [hgroups] at sampled
    obtain ⟨answer, hanswer, -⟩ :=
      PeerCustody.compute_of_groups consistent.valid hgroups sampled.of_ok.2.2
    rw [hanswer]
    nofun
  | error cause =>
    rw [hgroups] at sampled
    obtain ⟨rfl, -⟩ := sampled.of_error within
    rw [PeerCustody.compute_of_error hgroups]
    nofun

/--
In every state of an engine in use, the counts of its node are told by whether it subscribes to all
subnets, by the last update of its validators that succeeded and by its last announcement. The node
keeps no more than it aims at and no less than both least counts allow, and it can always ask what
it keeps.
-/
theorem counts_of_run {kzg : KzgBackend} {subscribe : Bool}
    (h : create kzg p subscribe = .ok created) (operations : List Operation) :
    let e := created.run operations
    let target := e.custody.target p
    let advertised := e.custody.advertised p
    let actual := e.custody.actual p
    (subscribe = true → target = p.groups ∧ advertised = p.groups ∧ actual = p.groups) ∧
      (subscribe = false → AimsAt p target (created.lastUpdate operations) ∧
        advertised = max p.custodyRequirement.toNat (lastAnnounced operations)) ∧
      actual = min target advertised ∧
      min p.custodyRequirement.toNat p.validatorCustodyRequirement.toNat ≤ actual ∧
      actual ≤ target ∧ target ≤ p.groups ∧
      ∀ id kind count max,
        (e.peerCustody id (e.custody.count kind p)).1 ≠
          .error (.custody (.tooLarge count max)) := by
  intro e target advertised actual
  have consistent : e.Consistent p := (consistent_of_create h).run operations
  have valid := consistent.valid
  have follows := follows_run h operations
  refine ⟨?_, ?_, rfl, follows.le_actual valid, min_le_left _ _,
    CustodyPolicy.target_le valid consistent.bounded, ?_⟩
  · rintro rfl
    obtain ⟨htarget, hadvertised⟩ := CustodyPolicy.counts_of_all p follows.subscribe_eq
    exact ⟨htarget, hadvertised, (congrArg₂ min htarget hadvertised).trans (min_self _)⟩
  · rintro rfl
    obtain ⟨htarget, hadvertised⟩ := CustodyPolicy.counts_of_some p follows.subscribe_eq
    rw [follows.announced_eq] at hadvertised
    refine ⟨?_, hadvertised⟩
    rw [show target = _ from htarget]
    exact follows.required.aimsAt valid
  · intro id kind count max
    exact peerCustody_ne_tooLarge consistent id
      (CustodyPolicy.count_le valid consistent.bounded kind) count max

/-- A later update fails, and the node has announced less than its validators require. -/
theorem counts_of_failed_update : ∃ created : Engine, create .zeros {} false = .ok created ∧
    let operations : List Operation :=
      [.announce 200, .updateValidators (fun _ => .ok 640000000000) [0],
        .updateValidators (fun _ => .error "unknown") [1], .announce 7]
    let e := created.run operations
    created.lastUpdate operations = some ⟨fun _ => .ok 640000000000, [0]⟩ ∧
      e.custody.target {} = 20 ∧ e.custody.advertised {} = 7 ∧ e.custody.actual {} = 7 ∧
      ∀ id kind count max,
        (e.peerCustody id (e.custody.count kind {})).1 ≠
          .error (.custody (.tooLarge count max)) := by
  obtain ⟨created, hcreated⟩ : ∃ created, create .zeros {} false = .ok created := ⟨_, rfl⟩
  refine ⟨created, hcreated, ?_⟩
  intro operations e
  have hlast : created.lastUpdate operations = some ⟨fun _ => .ok 640000000000, [0]⟩ := by
    cases hcreated
    rfl
  obtain ⟨-, hsome, hactual, -, -, -, hasked⟩ := counts_of_run hcreated operations
  obtain ⟨haims, hadvertised⟩ := hsome rfl
  rw [hlast] at haims
  have htarget : e.custody.target {} = 20 := (Except.ok.inj haims.1).symm
  refine ⟨hlast, htarget, hadvertised, ?_, hasked⟩
  rw [hactual, htarget, hadvertised]
  rfl

end Counts

end Engine

end ColumnSampling
