import ColumnSampling.Proofs.Column.Honest
import ColumnSampling.Proofs.Engine.Run
import ColumnSampling.Proofs.Guarded.Columns
import ColumnSampling.Proofs.Guarded.Custody

/-!
# No fault in a run

Every call has a guarded version, in which each step that could be a fault is taken with its check.
On an engine that was made for its parameters, and after any calls, the guarded version gives the
very outcome that the call has.
-/

namespace ColumnSampling.Engine

open Guarded

def encodeGuarded (e : Engine) (block : SignedBlock) (blobs : List Blob) :
    Guarded (Except EngineError (List ColumnSidecar)) :=
  match Encoding.extendBlobs e.kzg blobs with
  | .error cause => .ok (.error (.kzg cause))
  | .ok rows => do
    match ← Encoding.sidecarsGuarded (some block) rows e.parameters with
    | .error cause => return .error (.validation cause)
    | .ok sidecars => return .ok sidecars

def buildSidecarsGuarded (e : Engine) (block : Option SignedBlock) (blobs : List Blob) :
    Guarded (Except EngineError (List ColumnSidecar) × Engine) :=
  match block, blobs with
  | none, _ => .ok (.ok [], e)
  | _, [] => .ok (.ok [], e)
  | some block, blobs => do
    match ← e.encodeGuarded block blobs with
    | .error cause => return (.error cause, e)
    | .ok sidecars =>
      return (.ok sidecars, { e with counters := e.counters.built sidecars.length blobs.length })

def verifySidecarsGuarded (e : Engine) (batch : List ColumnSidecar) :
    Guarded (Except EngineError (List VerifiedColumn) × Engine) := do
  match ← Verification.verifyGuarded e.kzg batch e.parameters with
  | .ok columns => return (.ok columns, { e with counters := e.counters.accepted batch.length })
  | .error cause =>
    let counters :=
      match cause with
      | .cryptographic (.invalidInclusionProof _) => e.counters.inclusionFailed
      | _ => e.counters
    return (.error cause, { e with counters := counters.refused batch.length })

def rebuildBlobsGuarded (e : Engine) (columns : List VerifiedColumn) (indices : List ℕ) :
    Guarded (Except EngineError (List BlobSidecar) × Engine) := do
  let rebuilt ← Decoding.blobsGuarded e.kzg columns indices e.parameters
  return (rebuilt, e)

def rebuildColumnsGuarded (e : Engine) (columns : List VerifiedColumn) :
    Guarded (Except EngineError (List ColumnSidecar) × Engine) := do
  let rebuilt ← Reconstruction.columnsGuarded e.kzg columns e.parameters
  return (rebuilt, { e with counters := e.counters.reconstructed rebuilt.isOk })

def updateValidatorsGuarded (e : Engine) (balance : ℕ → Except String ℕ) (indices : List ℕ) :
    Guarded (Except EngineError ℕ × Engine) := do
  let requirement : Except CustodyError (Option ℕ) ←
    if indices.isEmpty then Except.ok (.ok none)
    else (·.map some) <$> Custody.validatorsRequirementGuarded balance indices e.parameters
  match requirement with
  | .error cause => return (.error (.custody cause), e)
  | .ok requirement =>
    let custody := { e.custody with requirement := requirement }
    return (.ok (custody.target e.parameters), { e with custody := custody })

def peerCustodyGuarded (e : Engine) (id : NodeId) (count : ℕ) :
    Guarded (Except EngineError PeerCustody × Engine) := do
  match ← e.peers.askGuarded id count e.parameters with
  | (.error cause, peers) => return (.error (.custody cause), { e with peers := peers })
  | (.ok (answer, remembered), peers) =>
    return (.ok answer, { e with peers := peers, counters := e.counters.peerAsked remembered })

def peerCustodyFromRecordGuarded (e : Engine) (id : NodeId) (record : NodeRecord) :
    Guarded (Except EngineError PeerCustody × Engine) :=
  match record.custodyCount e.parameters with
  | .error cause => .ok (.error (.record cause), e)
  | .ok count => e.peerCustodyGuarded id count

def samplingColumnsGuarded (e : Engine) (id : NodeId) (kind : CustodyCount) :
    Guarded (Except EngineError (List ℕ) × Engine) := do
  match ← e.peerCustodyGuarded id (e.custody.samplingSize kind e.parameters) with
  | (.error cause, e) => return (.error cause, e)
  | (.ok answer, e) => return (.ok answer.columns, e)

def performGuarded (e : Engine) : Operation → Guarded (Except EngineError Answer × Engine)
  | .buildSidecars block blobs => return answering .sidecars (← e.buildSidecarsGuarded block blobs)
  | .verifySidecars batch => return answering .verified (← e.verifySidecarsGuarded batch)
  | .rebuildBlobs columns indices =>
    return answering .blobs (← e.rebuildBlobsGuarded columns indices)
  | .rebuildColumns columns => return answering .sidecars (← e.rebuildColumnsGuarded columns)
  | .updateValidators balance indices =>
    return answering .target (← e.updateValidatorsGuarded balance indices)
  | .announce count => return (.ok .announced, e.announce count)
  | .peerCustody id count => return answering .custody (← e.peerCustodyGuarded id count)
  | .peerCustodyFromRecord id record =>
    return answering .custody (← e.peerCustodyFromRecordGuarded id record)
  | .samplingColumns id kind => return answering .sampled (← e.samplingColumnsGuarded id kind)

/-- The outcomes of several calls, and the engine after them. -/
def runGuarded (e : Engine) : List Operation →
    Guarded (List (Except EngineError Answer) × Engine)
  | [] => .ok ([], e)
  | operation :: rest => do
    let (outcome, next) ← e.performGuarded operation
    let (outcomes, last) ← next.runGuarded rest
    return (outcome :: outcomes, last)

variable {e : Engine}

section Calls

theorem encodeGuarded_eq (valid : e.parameters.Valid) (block : SignedBlock) (blobs : List Blob) :
    e.encodeGuarded block blobs = .ok (e.encode block blobs) := by
  unfold encodeGuarded encode
  simp only [Encoding.sidecarsGuarded_eq valid, ok_bind]
  cases Encoding.extendBlobs e.kzg blobs with
  | error cause => rfl
  | ok rows =>
    simp only []
    cases Encoding.sidecars (some block) rows e.parameters <;> rfl

theorem buildSidecarsGuarded_eq (valid : e.parameters.Valid) (block : Option SignedBlock)
    (blobs : List Blob) :
    e.buildSidecarsGuarded block blobs = .ok (e.buildSidecars block blobs) := by
  cases block with
  | none => rfl
  | some block =>
    cases blobs with
    | nil => rfl
    | cons first rest =>
      simp only [buildSidecarsGuarded, buildSidecars, encodeGuarded_eq valid, ok_bind]
      cases e.encode block (first :: rest) <;> rfl

theorem verifySidecarsGuarded_eq (valid : e.parameters.Valid) (batch : List ColumnSidecar) :
    e.verifySidecarsGuarded batch = .ok (e.verifySidecars batch) := by
  rw [verifySidecarsGuarded, Verification.verifyGuarded_eq valid, ok_bind, verifySidecars]
  cases Verification.verify e.kzg batch e.parameters <;> rfl

theorem rebuildBlobsGuarded_eq (valid : e.parameters.Valid) (columns : List VerifiedColumn)
    (indices : List ℕ) :
    e.rebuildBlobsGuarded columns indices = .ok (e.rebuildBlobs columns indices) := by
  rw [rebuildBlobsGuarded, Decoding.blobsGuarded_eq valid, ok_bind]
  rfl

theorem rebuildColumnsGuarded_eq (columns : List VerifiedColumn) :
    e.rebuildColumnsGuarded columns = .ok (e.rebuildColumns columns) := by
  rw [rebuildColumnsGuarded, Reconstruction.columnsGuarded_eq, ok_bind]
  rfl

theorem updateValidatorsGuarded_eq (valid : e.parameters.Valid) (balance : ℕ → Except String ℕ)
    (indices : List ℕ) :
    e.updateValidatorsGuarded balance indices = .ok (e.updateValidators balance indices) := by
  unfold updateValidatorsGuarded updateValidators
  simp only [Custody.validatorsRequirementGuarded_eq valid, ok_bind]
  split_ifs
  · rfl
  · cases Custody.validatorsRequirement balance indices e.parameters <;> rfl

theorem peerCustodyGuarded_eq {id : NodeId} {count : ℕ}
    (reached : Custody.Reached id count e.parameters) :
    e.peerCustodyGuarded id count = .ok (e.peerCustody id count) := by
  rw [peerCustodyGuarded, PeerCache.askGuarded_eq reached, ok_bind, peerCustody]
  obtain ⟨cause | ⟨answer, remembered⟩, peers⟩ := e.peers.ask id count e.parameters <;> rfl

theorem peerCustodyFromRecordGuarded_eq {id : NodeId} {record : NodeRecord}
    (reached : ∀ count, record.custodyCount e.parameters = .ok count →
      Custody.Reached id count e.parameters) :
    e.peerCustodyFromRecordGuarded id record = .ok (e.peerCustodyFromRecord id record) := by
  unfold peerCustodyFromRecordGuarded peerCustodyFromRecord
  cases hcount : record.custodyCount e.parameters with
  | error cause => rfl
  | ok count => exact peerCustodyGuarded_eq (reached count hcount)

theorem samplingColumnsGuarded_eq {id : NodeId} {kind : CustodyCount}
    (reached : Custody.Reached id (e.custody.samplingSize kind e.parameters) e.parameters) :
    e.samplingColumnsGuarded id kind = .ok (e.samplingColumns id kind) := by
  rw [samplingColumnsGuarded, peerCustodyGuarded_eq reached, ok_bind, samplingColumns]
  obtain ⟨cause | answer, next⟩ := e.peerCustody id (e.custody.samplingSize kind e.parameters) <;>
    rfl

end Calls

/-- The walk of each question about a peer that a call asks meets enough groups. -/
def Call.Reached (call : Call) : Prop :=
  ∀ id count, call.question = some (id, count) →
    Custody.Reached id count call.engine.parameters

theorem return_answering {α : Type} {answer : α → Answer}
    {x : Guarded (Except EngineError α × Engine)} {outcome : Except EngineError α × Engine}
    (h : x = .ok outcome) : (return answering answer (← x)) = .ok (answering answer outcome) := by
  rw [h]
  rfl

theorem performGuarded_eq (valid : e.parameters.Valid) {operation : Operation}
    (reached : Call.Reached ⟨e, operation⟩) :
    e.performGuarded operation = .ok (e.perform operation) := by
  cases operation with
  | buildSidecars block blobs => exact return_answering (buildSidecarsGuarded_eq valid block blobs)
  | verifySidecars batch => exact return_answering (verifySidecarsGuarded_eq valid batch)
  | rebuildBlobs columns indices =>
    exact return_answering (rebuildBlobsGuarded_eq valid columns indices)
  | rebuildColumns columns => exact return_answering (rebuildColumnsGuarded_eq columns)
  | updateValidators balance indices =>
    exact return_answering (updateValidatorsGuarded_eq valid balance indices)
  | announce count => rfl
  | peerCustody id count =>
    exact return_answering (peerCustodyGuarded_eq (reached id count rfl))
  | peerCustodyFromRecord id record =>
    apply return_answering
    apply peerCustodyFromRecordGuarded_eq
    intro count hcount
    exact reached id count (by rw [Call.question, hcount]; rfl)
  | samplingColumns id kind =>
    exact return_answering (samplingColumnsGuarded_eq (reached id _ rfl))

theorem Consistent.runGuarded_eq {p : Parameters} (consistent : e.Consistent p)
    {operations : List Operation} (reached : ∀ call ∈ e.calls operations, call.Reached) :
    e.runGuarded operations = .ok (e.answers operations, e.run operations) := by
  induction operations generalizing e with
  | nil => rfl
  | cons operation rest ih =>
    obtain ⟨hfirst, hrest⟩ := List.forall_mem_cons.mp reached
    have valid : e.parameters.Valid := consistent.parameters_eq ▸ consistent.valid
    have hnext := ih (consistent.effect (effect_after operation)) hrest
    rw [runGuarded, performGuarded_eq valid hfirst, ok_bind]
    simp only [perform_snd, hnext, ok_bind]
    rfl

/--
No run of an engine comes to a fault, as long as each walk that it starts meets enough groups. The
two operations on trees and groups that no call of an engine takes are without faults as well.
-/
theorem runGuarded_eq_of_create {kzg : KzgBackend} {p : Parameters} {subscribe : Bool}
    {created : Engine} (h : create kzg p subscribe = .ok created) (operations : List Operation)
    (reached : ∀ call ∈ created.calls operations, call.Reached) :
    created.runGuarded operations = .ok (created.answers operations, created.run operations) ∧
      p.commitmentsTreeDepth ≤ 63 ∧
      (∀ (c : Commitment) (proof : List Root) (index : ℕ) (bodyRoot : Root),
        c.checkInclusionGuarded proof index p.commitmentsTreeDepth blockBodyTreeDepth bodyRoot =
          .ok (c.checkInclusion proof index p.commitmentsTreeDepth blockBodyTreeDepth bodyRoot)) ∧
      ∀ column, Custody.groupOfColumnGuarded column p = .ok (Custody.groupOfColumn column p) := by
  have consistent := consistent_of_create h
  have hdepth := consistent.valid.commitmentsTreeDepth_lt
  refine ⟨consistent.runGuarded_eq reached, Nat.le_of_lt_succ hdepth, ?_, ?_⟩
  · intro c proof index bodyRoot
    exact c.checkInclusionGuarded_eq hdepth proof index blockBodyTreeDepth bodyRoot
  · intro column
    exact Custody.groupOfColumnGuarded_eq column p

/-- All groups are kept without a walk, and one group is met at the first id already. -/
theorem runGuarded_of_one_group : ∃ created : Engine, create .zeros {} true = .ok created ∧
    let peer : NodeId := ⟨.replicate 32 1⟩
    let operations : List Operation :=
      [.samplingColumns peer .target, .peerCustody peer 1, .buildSidecars (some {}) [.zeros],
        .verifySidecars [⟨128, [], [], [], none, []⟩], .rebuildColumns []]
    created.runGuarded operations = .ok (created.answers operations, created.run operations) ∧
      ({} : Parameters).commitmentsTreeDepth ≤ 63 ∧
      (∀ (c : Commitment) (proof : List Root) (index : ℕ) (bodyRoot : Root),
        c.checkInclusionGuarded proof index ({} : Parameters).commitmentsTreeDepth
            blockBodyTreeDepth bodyRoot =
          .ok (c.checkInclusion proof index ({} : Parameters).commitmentsTreeDepth
            blockBodyTreeDepth bodyRoot)) ∧
      ∀ column, Custody.groupOfColumnGuarded column {} = .ok (Custody.groupOfColumn column {}) := by
  refine ⟨_, rfl, @runGuarded_eq_of_create .zeros {} true _ rfl _ ?_⟩
  intro call hcall id count hquestion
  simp only [calls, List.mem_cons, List.not_mem_nil, or_false] at hcall
  rcases hcall with rfl | rfl | rfl | rfl | rfl
  · cases hquestion
    intro hwalk
    exact absurd hwalk (by decide)
  · cases hquestion
    intro _
    exact ⟨1, by simp [Custody.candidates]⟩
  · cases hquestion
  · cases hquestion
  · cases hquestion

end ColumnSampling.Engine
