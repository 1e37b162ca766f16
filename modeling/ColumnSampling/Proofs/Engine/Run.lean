import ColumnSampling.Engine
import ColumnSampling.Proofs.Custody.PeerCache
import ColumnSampling.Proofs.Custody.Policy

/-!
# Runs of the engine

An engine in use is the engine that was made, after any calls of its operations, whether these
succeeded or not. There are only four things that a call can do to it, and none of them touches the
parameters. What is shown for an engine after a call is shown for each of the four, and then holds
after every run.

A call is an operation together with the engine that it is made on. It has an outcome and leads to
another engine, so a run of operations is a list of calls, a list of outcomes and the engine at its
end.
-/

namespace ColumnSampling.Engine

/-- A call of an operation that gives another engine. -/
inductive Operation where
  | buildSidecars (block : Option SignedBlock) (blobs : List Blob)
  | verifySidecars (batch : List ColumnSidecar)
  | rebuildBlobs (columns : List VerifiedColumn) (indices : List ℕ)
  | rebuildColumns (columns : List VerifiedColumn)
  | updateValidators (balance : ℕ → Except String ℕ) (indices : List ℕ)
  | announce (count : ℕ)
  | peerCustody (id : NodeId) (count : ℕ)
  | peerCustodyFromRecord (id : NodeId) (record : NodeRecord)
  | samplingColumns (id : NodeId) (kind : CustodyCount)

def after (e : Engine) : Operation → Engine
  | .buildSidecars block blobs => (e.buildSidecars block blobs).2
  | .verifySidecars batch => (e.verifySidecars batch).2
  | .rebuildBlobs columns indices => (e.rebuildBlobs columns indices).2
  | .rebuildColumns columns => (e.rebuildColumns columns).2
  | .updateValidators balance indices => (e.updateValidators balance indices).2
  | .announce count => e.announce count
  | .peerCustody id count => (e.peerCustody id count).2
  | .peerCustodyFromRecord id record => (e.peerCustodyFromRecord id record).2
  | .samplingColumns id kind => (e.samplingColumns id kind).2

def run (e : Engine) (operations : List Operation) : Engine := operations.foldl after e

/-- All that a call can do to an engine. -/
inductive Effect (e : Engine) : Engine → Prop
  /-- At most the counters change. -/
  | counted (counters : Counters) : Effect e { e with counters := counters }
  | announced (count : ℕ) :
      Effect e { e with custody := { e.custody with announced := count } }
  | required (requirement : Option ℕ) (h : ∀ n ∈ requirement, n ≤ e.parameters.groups) :
      Effect e { e with custody := { e.custody with requirement := requirement } }
  | asked (id : NodeId) (count : ℕ) (counters : Counters) :
      Effect e { e with peers := (e.peers.ask id count e.parameters).2, counters := counters }

variable {e e' : Engine} {p : Parameters}

section Effect

theorem effect_self : Effect e e := .counted e.counters

theorem effect_buildSidecars (block : Option SignedBlock) (blobs : List Blob) :
    Effect e (e.buildSidecars block blobs).2 := by
  unfold buildSidecars
  split
  · exact effect_self
  · exact effect_self
  · split
    · exact effect_self
    · exact .counted _

theorem effect_verifySidecars (batch : List ColumnSidecar) :
    Effect e (e.verifySidecars batch).2 := by
  unfold verifySidecars
  split <;> exact .counted _

theorem effect_updateValidators (balance : ℕ → Except String ℕ) (indices : List ℕ) :
    Effect e (e.updateValidators balance indices).2 := by
  by_cases hindices : indices.isEmpty = true
  · simp only [updateValidators, if_pos hindices]
    exact .required none (by simp)
  · cases hrequirement : Custody.validatorsRequirement balance indices e.parameters with
    | error cause =>
      simp only [updateValidators, if_neg hindices, hrequirement, Except.map]
      exact effect_self
    | ok n =>
      simp only [updateValidators, if_neg hindices, hrequirement, Except.map]
      exact .required (some n) (by simpa using Custody.validatorsRequirement_le hrequirement)

theorem effect_peerCustody (id : NodeId) (count : ℕ) : Effect e (e.peerCustody id count).2 := by
  unfold peerCustody
  split
  · next h => simpa only [h] using Effect.asked (e := e) id count e.counters
  · next answer remembered peers h =>
    simpa only [h] using Effect.asked (e := e) id count (e.counters.peerAsked remembered)

theorem effect_peerCustodyFromRecord (id : NodeId) (record : NodeRecord) :
    Effect e (e.peerCustodyFromRecord id record).2 := by
  unfold peerCustodyFromRecord
  split
  · exact effect_self
  · exact effect_peerCustody id _

theorem effect_samplingColumns (id : NodeId) (kind : CustodyCount) :
    Effect e (e.samplingColumns id kind).2 := by
  have h := effect_peerCustody (e := e) id (e.custody.samplingSize kind e.parameters)
  unfold samplingColumns
  split <;> next hcustody => rwa [hcustody] at h

theorem effect_after (operation : Operation) : Effect e (e.after operation) := by
  cases operation with
  | buildSidecars block blobs => exact effect_buildSidecars block blobs
  | verifySidecars batch => exact effect_verifySidecars batch
  | rebuildBlobs columns indices => exact effect_self
  | rebuildColumns columns => exact .counted _
  | updateValidators balance indices => exact effect_updateValidators balance indices
  | announce count => exact .announced count
  | peerCustody id count => exact effect_peerCustody id count
  | peerCustodyFromRecord id record => exact effect_peerCustodyFromRecord id record
  | samplingColumns id kind => exact effect_samplingColumns id kind

end Effect

/-- What holds of every engine that was made for the parameters and then used. -/
structure Consistent (e : Engine) (p : Parameters) : Prop where
  parameters_eq : e.parameters = p
  valid : p.Valid
  bounded : e.custody.Bounded p
  sound : e.peers.Sound p

theorem check_of_create {kzg : KzgBackend} {subscribe : Bool}
    (h : create kzg p subscribe = .ok e) : p.check = .ok () := by
  unfold create at h
  split at h
  · cases h
  · assumption

theorem consistent_of_create {kzg : KzgBackend} {subscribe : Bool}
    (h : create kzg p subscribe = .ok e) : e.Consistent p := by
  have accepted := check_of_create h
  rw [create, accepted] at h
  cases h
  exact ⟨rfl, Parameters.valid_of_check accepted, fun _ h => (Option.not_mem_none _ h).elim,
    PeerCache.sound_empty _⟩

theorem Consistent.effect (consistent : e.Consistent p) (h : Effect e e') : e'.Consistent p := by
  obtain ⟨rfl, valid, bounded, sound⟩ := consistent
  cases h with
  | counted counters => exact ⟨rfl, valid, bounded, sound⟩
  | announced count => exact ⟨rfl, valid, bounded, sound⟩
  | required requirement h => exact ⟨rfl, valid, h, sound⟩
  | asked id count counters => exact ⟨rfl, valid, bounded, sound.ask⟩

theorem Consistent.run (consistent : e.Consistent p) (operations : List Operation) :
    (e.run operations).Consistent p := by
  induction operations generalizing e with
  | nil => exact consistent
  | cons operation rest ih => exact ih (consistent.effect (effect_after operation))

theorem Consistent.peerCustody_eq (consistent : e.Consistent p) (id : NodeId) {count : ℕ}
    (small : count < 2 ^ 64) :
    (e.peerCustody id count).1 = (PeerCustody.compute id count p).mapError .custody := by
  obtain ⟨rfl, -, -, sound⟩ := consistent
  rw [← sound.ask_eq small, peerCustody]
  split <;> next h => rw [h]; rfl

theorem Consistent.samplingColumns_eq (consistent : e.Consistent p) (id : NodeId)
    (kind : CustodyCount) : (e.samplingColumns id kind).1 =
      ((PeerCustody.compute id (e.custody.samplingSize kind p) p).mapError .custody).map
        (·.columns) := by
  have small := CustodyPolicy.samplingSize_lt consistent.valid consistent.bounded kind
  rw [← consistent.peerCustody_eq id small, samplingColumns, consistent.parameters_eq]
  split <;> next h => rw [h]; rfl

theorem Consistent.peerCustody_of_compute (consistent : e.Consistent p) {id : NodeId} {count : ℕ}
    {answer : PeerCustody} (h : PeerCustody.compute id count p = .ok answer) :
    (e.peerCustody id count).1 = .ok answer := by
  rw [consistent.peerCustody_eq id (PeerCache.lt_of_compute h), h]
  rfl

theorem Consistent.samplingColumns_of_compute (consistent : e.Consistent p) {id : NodeId}
    {kind : CustodyCount} {answer : PeerCustody}
    (h : PeerCustody.compute id (e.custody.samplingSize kind p) p = .ok answer) :
    (e.samplingColumns id kind).1 = .ok answer.columns := by
  rw [consistent.samplingColumns_eq, h]
  rfl

inductive Answer where
  | sidecars (built : List ColumnSidecar)
  | verified (columns : List VerifiedColumn)
  | blobs (rebuilt : List BlobSidecar)
  | target (count : ℕ)
  | announced
  | custody (peer : PeerCustody)
  | sampled (columns : List ℕ)

def answering {α : Type} (answer : α → Answer) (outcome : Except EngineError α × Engine) :
    Except EngineError Answer × Engine :=
  (outcome.1.map answer, outcome.2)

/-- The outcome of a call, and the engine after it. -/
def perform (e : Engine) : Operation → Except EngineError Answer × Engine
  | .buildSidecars block blobs => answering .sidecars (e.buildSidecars block blobs)
  | .verifySidecars batch => answering .verified (e.verifySidecars batch)
  | .rebuildBlobs columns indices => answering .blobs (e.rebuildBlobs columns indices)
  | .rebuildColumns columns => answering .sidecars (e.rebuildColumns columns)
  | .updateValidators balance indices => answering .target (e.updateValidators balance indices)
  | .announce count => (.ok .announced, e.announce count)
  | .peerCustody id count => answering .custody (e.peerCustody id count)
  | .peerCustodyFromRecord id record => answering .custody (e.peerCustodyFromRecord id record)
  | .samplingColumns id kind => answering .sampled (e.samplingColumns id kind)

def answers (e : Engine) : List Operation → List (Except EngineError Answer)
  | [] => []
  | operation :: rest => (e.perform operation).1 :: (e.after operation).answers rest

structure Call where
  engine : Engine
  operation : Operation

def calls (e : Engine) : List Operation → List Call
  | [] => []
  | operation :: rest => ⟨e, operation⟩ :: (e.after operation).calls rest

/-- The question about a peer that a call comes down to, if it does. -/
def Call.question : Call → Option (NodeId × ℕ)
  | ⟨_, .peerCustody id count⟩ => some (id, count)
  | ⟨e, .peerCustodyFromRecord id record⟩ =>
    (record.custodyCount e.parameters).toOption.map fun count => (id, count)
  | ⟨e, .samplingColumns id kind⟩ => some (id, e.custody.samplingSize kind e.parameters)
  | _ => none

theorem samplingColumns_eq_map (e : Engine) (id : NodeId) (kind : CustodyCount) :
    e.samplingColumns id kind =
      let asked := e.peerCustody id (e.custody.samplingSize kind e.parameters)
      (asked.1.map (·.columns), asked.2) := by
  unfold samplingColumns
  split <;> next h => rw [h]; rfl

theorem perform_snd (e : Engine) (operation : Operation) :
    (e.perform operation).2 = e.after operation := by
  cases operation <;> rfl

end ColumnSampling.Engine
