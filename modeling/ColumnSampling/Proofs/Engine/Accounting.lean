import ColumnSampling.Proofs.Column.Honest
import ColumnSampling.Proofs.Engine.Run

/-!
# What the counters tell

Every call comes down to one event, and most events are not counted. What the counters show at the
end of a run is a matter of its events alone.
-/

namespace ColumnSampling

namespace Engine

/-- What there is to count about a call. -/
inductive Event where
  | uncounted
  | built (blobs : ℕ)
  | accepted (sidecars : ℕ)
  | refused (sidecars : ℕ) (notIncluded : Bool)
  | reconstructed (success : Bool)
  | answered (remembered : Bool)
deriving DecidableEq

namespace Event

@[simp] def builds : Event → ℕ
  | .built _ => 1
  | _ => 0

def blobsBuilt? : Event → Option ℕ
  | .built blobs => some blobs
  | _ => none

@[simp] def sidecarsAccepted : Event → ℕ
  | .accepted sidecars => sidecars
  | _ => 0

@[simp] def sidecarsRefused : Event → ℕ
  | .refused sidecars _ => sidecars
  | _ => 0

@[simp] def inclusionFailures : Event → ℕ
  | .refused _ true => 1
  | _ => 0

@[simp] def reconstructions : Event → ℕ
  | .reconstructed _ => 1
  | _ => 0

@[simp] def failedReconstructions : Event → ℕ
  | .reconstructed false => 1
  | _ => 0

@[simp] def recalls : Event → ℕ
  | .answered true => 1
  | _ => 0

@[simp] def computations : Event → ℕ
  | .answered false => 1
  | _ => 0

@[simp] def lookups : Event → ℕ
  | .answered _ => 1
  | _ => 0

end Event

/-- Whether a call comes down to a question that was answered before and is remembered. -/
def Call.remembered (call : Call) : Bool :=
  call.question.any fun (id, count) => (call.engine.peers.find? (PeerCache.key id count)).isSome

def refusedInclusion : EngineError → Bool
  | .cryptographic (.invalidInclusionProof _) => true
  | _ => false

def Call.event (call : Call) : Event :=
  match call.operation, (call.engine.perform call.operation).1 with
  | .buildSidecars (some _) (first :: rest), .ok _ => .built (first :: rest).length
  | .verifySidecars batch, .ok _ => .accepted batch.length
  | .verifySidecars batch, .error cause => .refused batch.length (refusedInclusion cause)
  | .rebuildColumns _, outcome => .reconstructed outcome.isOk
  | .peerCustody .., .ok _ => .answered call.remembered
  | .peerCustodyFromRecord .., .ok _ => .answered call.remembered
  | .samplingColumns .., .ok _ => .answered call.remembered
  | _, _ => .uncounted

end Engine

def Counters.record (p : Parameters) (c : Counters) : Engine.Event → Counters
  | .uncounted => c
  | .built blobs => c.built p.columns blobs
  | .accepted sidecars => c.accepted sidecars
  | .refused sidecars notIncluded =>
    (if notIncluded then c.inclusionFailed else c).refused sidecars
  | .reconstructed success => c.reconstructed success
  | .answered remembered => c.peerAsked remembered

namespace Engine

variable {e : Engine} {p : Parameters}

section Step

theorem length_of_encode {block : SignedBlock} {first : Blob} {rest : List Blob}
    {built : List ColumnSidecar} (h : e.encode block (first :: rest) = .ok built) :
    built.length = e.parameters.columns := by
  unfold encode at h
  cases hrows : Encoding.extendBlobs e.kzg (first :: rest) with
  | error cause => rw [hrows] at h; cases h
  | ok rows =>
    have hne : rows ≠ [] := by
      rintro rfl
      cases Outcome.mapM_eq_ok.mp hrows
    cases hbuilt : Encoding.sidecars (some block) rows e.parameters with
    | error cause => simp only [hrows, hbuilt] at h; cases h
    | ok sidecars =>
      simp only [hrows, hbuilt] at h
      cases h
      obtain ⟨-, shared, -, htranspose⟩ := (Encoding.sidecars_eq_ok hne).mp hbuilt
      rw [← (Encoding.transpose_eq_ok.mp htranspose).2, List.length_map, List.length_range]

theorem counters_buildSidecars (block : Option SignedBlock) (blobs : List Blob) :
    (e.buildSidecars block blobs).2.counters =
      e.counters.record e.parameters (Call.event ⟨e, .buildSidecars block blobs⟩) := by
  cases block with
  | none => rfl
  | some block =>
    cases blobs with
    | nil => rfl
    | cons first rest =>
      simp only [Call.event, perform, answering, buildSidecars]
      cases h : e.encode block (first :: rest) with
      | error cause => rfl
      | ok built => simp only [length_of_encode h]; rfl

theorem counters_verifySidecars (batch : List ColumnSidecar) :
    (e.verifySidecars batch).2.counters =
      e.counters.record e.parameters (Call.event ⟨e, .verifySidecars batch⟩) := by
  simp only [Call.event, perform, answering, verifySidecars]
  cases Verification.verify e.kzg batch e.parameters with
  | ok columns => rfl
  | error cause =>
    simp only [Except.map, Counters.record]
    congr 1
    unfold refusedInclusion
    cases cause with
    | cryptographic cause => cases cause <;> rfl
    | _ => rfl

theorem counters_peerCustody (id : NodeId) (count : ℕ) :
    (e.peerCustody id count).2.counters =
      match (e.peerCustody id count).1 with
      | .ok _ => e.counters.peerAsked (e.peers.find? (PeerCache.key id count)).isSome
      | .error _ => e.counters := by
  cases hfind : e.peers.find? (PeerCache.key id count) with
  | some answer => simp only [peerCustody, PeerCache.ask, hfind, Option.isSome_some]
  | none =>
    cases hcompute : PeerCustody.compute id count e.parameters <;>
      simp only [peerCustody, PeerCache.ask, hfind, hcompute, Option.isSome_none]

theorem counters_after (call : Call) :
    (call.engine.after call.operation).counters =
      call.engine.counters.record call.engine.parameters call.event := by
  obtain ⟨e, operation⟩ := call
  cases operation with
  | buildSidecars block blobs => exact counters_buildSidecars block blobs
  | verifySidecars batch => exact counters_verifySidecars batch
  | rebuildBlobs columns indices =>
    simp only [Call.event]
    rfl
  | rebuildColumns columns =>
    simp only [Call.event, perform, answering, rebuildColumns, after]
    cases Reconstruction.columns e.kzg columns e.parameters <;> rfl
  | updateValidators balance indices =>
    simp only [Call.event, after, updateValidators]
    split <;> rfl
  | announce count => rfl
  | peerCustody id count =>
    simp only [after, counters_peerCustody, Call.event, perform, answering]
    cases (e.peerCustody id count).1 <;> rfl
  | peerCustodyFromRecord id record =>
    cases hcount : record.custodyCount e.parameters with
    | error cause =>
      simp only [after, Call.event, perform, answering, peerCustodyFromRecord, hcount]
      rfl
    | ok count =>
      simp only [after, Call.event, perform, answering, peerCustodyFromRecord, hcount,
        counters_peerCustody, Call.remembered, Call.question]
      cases (e.peerCustody id count).1 <;> rfl
  | samplingColumns id kind =>
    simp only [after, Call.event, perform, answering, samplingColumns_eq_map,
      counters_peerCustody]
    cases (e.peerCustody id (e.custody.samplingSize kind e.parameters)).1 <;> rfl

theorem counters_run (consistent : e.Consistent p) (operations : List Operation) :
    (e.run operations).counters =
      ((e.calls operations).map Call.event).foldl (Counters.record p) e.counters := by
  induction operations generalizing e with
  | nil => rfl
  | cons operation rest ih =>
    have hfirst := counters_after ⟨e, operation⟩
    rw [consistent.parameters_eq] at hfirst
    rw [calls, List.map_cons, List.foldl_cons, ← hfirst]
    exact ih (consistent.effect (effect_after operation))

end Step

/-- What the counters show after the events, each count as a 64-bit word. -/
structure Accounts (p : Parameters) (events : List Event) (c : Counters) : Prop where
  sidecarsBuilt : c.sidecarsBuilt = .ofNat (p.columns * (events.map Event.builds).sum)
  blobsPerBlock : c.blobsPerBlock = .ofNat ((events.filterMap Event.blobsBuilt?).getLast?.getD 0)
  verificationsSuccess : c.verificationsSuccess = .ofNat (events.map Event.sidecarsAccepted).sum
  verificationsFailure : c.verificationsFailure = .ofNat (events.map Event.sidecarsRefused).sum
  inclusionProofFailures :
    c.inclusionProofFailures = .ofNat (events.map Event.inclusionFailures).sum
  reconstructionAttempts :
    c.reconstructionAttempts = .ofNat (events.map Event.reconstructions).sum
  reconstructionFailures :
    c.reconstructionFailures = .ofNat (events.map Event.failedReconstructions).sum
  peerCacheLookups : c.peerCacheHits + c.peerCacheMisses = .ofNat (events.map Event.lookups).sum
  peerCacheMisses : c.peerCacheMisses = .ofNat (events.map Event.computations).sum

section Accounts

/-- A counter that each event moves by its weight ends up at the sum of the weights. -/
theorem record_sum (count : Counters → UInt64) (weight : Event → ℕ) (hstart : count {} = 0)
    (hstep : ∀ c event, count (c.record p event) = count c + .ofNat (weight event))
    (events : List Event) :
    count (events.foldl (Counters.record p) {}) = .ofNat (events.map weight).sum := by
  induction events using List.reverseRecOn with
  | nil => exact hstart
  | append_singleton before event ih =>
    rw [List.foldl_concat, hstep, ih, List.map_append, List.sum_append, List.map_singleton,
      List.sum_singleton, UInt64.ofNat_add]

theorem lookups_eq (event : Event) : event.recalls + event.computations = event.lookups := by
  cases event with
  | answered remembered => cases remembered <;> rfl
  | _ => rfl

theorem record_eq (c : Counters) (event : Event) : c.record p event =
    { sidecarsBuilt := c.sidecarsBuilt + .ofNat (p.columns * event.builds)
      blobsPerBlock := (event.blobsBuilt?.map Int64.ofNat).getD c.blobsPerBlock
      verificationsSuccess := c.verificationsSuccess + .ofNat event.sidecarsAccepted
      verificationsFailure := c.verificationsFailure + .ofNat event.sidecarsRefused
      inclusionProofFailures := c.inclusionProofFailures + .ofNat event.inclusionFailures
      reconstructionAttempts := c.reconstructionAttempts + .ofNat event.reconstructions
      reconstructionFailures := c.reconstructionFailures + .ofNat event.failedReconstructions
      peerCacheHits := c.peerCacheHits + .ofNat event.recalls
      peerCacheMisses := c.peerCacheMisses + .ofNat event.computations } := by
  rcases event with _ | blobs | sidecars | ⟨sidecars, _ | _⟩ | (_ | _) | (_ | _) <;>
    simp [Counters.record, Counters.built, Counters.accepted, Counters.refused,
      Counters.inclusionFailed, Counters.reconstructed, Counters.peerAsked, Event.blobsBuilt?]

theorem record_blobsPerBlock (events : List Event) :
    (events.foldl (Counters.record p) {}).blobsPerBlock =
      .ofNat ((events.filterMap Event.blobsBuilt?).getLast?.getD 0) := by
  induction events using List.reverseRecOn with
  | nil => rfl
  | append_singleton before event ih =>
    rw [List.foldl_concat, record_eq, ih, List.filterMap_append]
    cases h : event.blobsBuilt? with
    | none => simp [h]
    | some blobs => simp [h]

theorem accounts_record (p : Parameters) (events : List Event) :
    Accounts p events (events.foldl (Counters.record p) {}) where
  sidecarsBuilt := by
    rw [← List.sum_map_mul_left]
    apply record_sum Counters.sidecarsBuilt _ rfl
    intro c event
    rw [record_eq]
  blobsPerBlock := record_blobsPerBlock events
  verificationsSuccess := by
    apply record_sum Counters.verificationsSuccess _ rfl
    intro c event
    rw [record_eq]
  verificationsFailure := by
    apply record_sum Counters.verificationsFailure _ rfl
    intro c event
    rw [record_eq]
  inclusionProofFailures := by
    apply record_sum Counters.inclusionProofFailures _ rfl
    intro c event
    rw [record_eq]
  reconstructionAttempts := by
    apply record_sum Counters.reconstructionAttempts _ rfl
    intro c event
    rw [record_eq]
  reconstructionFailures := by
    apply record_sum Counters.reconstructionFailures _ rfl
    intro c event
    rw [record_eq]
  peerCacheLookups := by
    apply record_sum (fun c => c.peerCacheHits + c.peerCacheMisses) _ rfl
    intro c event
    simp only [record_eq, ← lookups_eq, UInt64.ofNat_add]
    ac_rfl
  peerCacheMisses := by
    apply record_sum Counters.peerCacheMisses _ rfl
    intro c event
    rw [record_eq]

end Accounts

/--
At the end of every run of an engine that was made without counts, the counters account for the
calls of the run, and a call that is not counted leaves them as they are.
-/
theorem accounts_run {kzg : KzgBackend} {subscribe : Bool} {created : Engine}
    (h : create kzg p subscribe = .ok created) (operations : List Operation) :
    Accounts p ((created.calls operations).map Call.event) (created.run operations).counters ∧
      ∀ call ∈ created.calls operations, call.event = .uncounted →
        (call.engine.after call.operation).counters = call.engine.counters := by
  have fresh : created.counters = {} := by
    rw [create, check_of_create h] at h
    cases h
    rfl
  constructor
  · rw [counters_run (consistent_of_create h), fresh]
    exact accounts_record p _
  · intro call _ huncounted
    rw [counters_after, huncounted, Counters.record]

/-- Two calls that fail, a peer asked for twice, and a call that is not counted. -/
theorem accounts_run_of_failures : ∃ created : Engine, create .zeros {} false = .ok created ∧
    let sidecar : ColumnSidecar := ⟨128, [], [], [], none, []⟩
    let peer : NodeId := ⟨.replicate 32 1⟩
    let operations : List Operation :=
      [.verifySidecars [sidecar, sidecar], .rebuildColumns [], .peerCustody peer 0,
        .peerCustody peer 0, .announce 7]
    (created.calls operations).map Call.event =
        [.refused 2 false, .reconstructed false, .answered false, .answered true, .uncounted] ∧
      Accounts {} ((created.calls operations).map Call.event) (created.run operations).counters ∧
      ∀ call ∈ created.calls operations, call.event = .uncounted →
        (call.engine.after call.operation).counters = call.engine.counters :=
  ⟨_, rfl, by decide +kernel, @accounts_run {} .zeros false _ rfl _⟩

end Engine

end ColumnSampling
