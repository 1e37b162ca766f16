import ColumnSampling.Column.Codec
import ColumnSampling.Column.Reconstruction
import ColumnSampling.Custody.PeerCache
import ColumnSampling.Custody.Policy
import ColumnSampling.Metrics.Counters

/-!
# The engine

A node's view of data availability: it builds, verifies and rebuilds columns, and keeps the custody
counts of the node, the answers about its peers and its counters. Every operation gives its outcome
together with the engine after it.
-/

namespace ColumnSampling

/-- The state of a node, over a commitment scheme and checked parameters. -/
structure Engine where
  kzg : KzgBackend
  parameters : Parameters
  custody : CustodyPolicy
  peers : PeerCache
  counters : Counters

namespace Engine

/-- An engine with nothing done yet. Parameters that break a rule are refused. -/
def create (kzg : KzgBackend) (p : Parameters) (subscribeAllSubnets : Bool) :
    Except EngineError Engine :=
  match p.check with
  | .error cause => .error (.parameters cause)
  | .ok () =>
    .ok { kzg := kzg
          parameters := p
          custody := { subscribeAllSubnets := subscribeAllSubnets }
          peers := .empty p.peerCacheSize.toNat
          counters := {} }

/-- Cells, proofs and columns of a block that has blobs. -/
def encode (e : Engine) (block : SignedBlock) (blobs : List Blob) :
    Except EngineError (List ColumnSidecar) :=
  match Encoding.extendBlobs e.kzg blobs with
  | .error cause => .error (.kzg cause)
  | .ok rows =>
    match Encoding.sidecars (some block) rows e.parameters with
    | .error cause => .error (.validation cause)
    | .ok sidecars => .ok sidecars

/-- Builds the columns of a block; none without a block or without blobs. -/
def buildSidecars (e : Engine) (block : Option SignedBlock) (blobs : List Blob) :
    Except EngineError (List ColumnSidecar) × Engine :=
  match block, blobs with
  | none, _ => (.ok [], e)
  | _, [] => (.ok [], e)
  | some block, blobs =>
    match e.encode block blobs with
    | .error cause => (.error cause, e)
    | .ok sidecars =>
      (.ok sidecars, { e with counters := e.counters.built sidecars.length blobs.length })

/-- Verifies a batch from the network. -/
def verifySidecars (e : Engine) (batch : List ColumnSidecar) :
    Except EngineError (List VerifiedColumn) × Engine :=
  match Verification.verify e.kzg batch e.parameters with
  | .ok columns => (.ok columns, { e with counters := e.counters.accepted batch.length })
  | .error cause =>
    let counters :=
      match cause with
      | .cryptographic (.invalidInclusionProof _) => e.counters.inclusionFailed
      | _ => e.counters
    (.error cause, { e with counters := counters.refused batch.length })

/-- Rebuilds blobs from columns that cover the first half. -/
def rebuildBlobs (e : Engine) (columns : List VerifiedColumn) (indices : List Nat) :
    Except EngineError (List BlobSidecar) × Engine :=
  (Decoding.blobs e.kzg columns indices e.parameters, e)

/-- Rebuilds all columns from at least half of them. -/
def rebuildColumns (e : Engine) (columns : List VerifiedColumn) :
    Except EngineError (List ColumnSidecar) × Engine :=
  let rebuilt := Reconstruction.columns e.kzg columns e.parameters
  (rebuilt, { e with counters := e.counters.reconstructed rebuilt.isOk })

/-- Whether the node keeps enough columns to rebuild all of them. -/
def canSelfReconstruct (e : Engine) : Bool :=
  Custody.canSelfReconstruct (e.custody.actual e.parameters) e.parameters

/--
Takes over what the validators of the node require, and gives the count that the node now aims at.
Without validators nothing is required.
-/
def updateValidators (e : Engine) (balance : Nat → Except String Nat) (indices : List Nat) :
    Except EngineError Nat × Engine :=
  let requirement : Except CustodyError (Option Nat) :=
    if indices.isEmpty then .ok none
    else (Custody.validatorsRequirement balance indices e.parameters).map some
  match requirement with
  | .error cause => (.error (.custody cause), e)
  | .ok requirement =>
    let custody := { e.custody with requirement := requirement }
    (.ok (custody.target e.parameters), { e with custody := custody })

def announce (e : Engine) (count : Nat) : Engine :=
  { e with custody := { e.custody with announced := count } }

/-- What a peer keeps at a count. -/
def peerCustody (e : Engine) (id : NodeId) (count : Nat) :
    Except EngineError PeerCustody × Engine :=
  match e.peers.ask id count e.parameters with
  | (.error cause, peers) => (.error (.custody cause), { e with peers := peers })
  | (.ok (answer, remembered), peers) =>
    (.ok answer, { e with peers := peers, counters := e.counters.peerAsked remembered })

def peerCustodyFromRecord (e : Engine) (id : NodeId) (record : NodeRecord) :
    Except EngineError PeerCustody × Engine :=
  match record.custodyCount e.parameters with
  | .error cause => (.error (.record cause), e)
  | .ok count => e.peerCustody id count

/-- The columns that the node samples in a slot. -/
def samplingColumns (e : Engine) (id : NodeId) (kind : CustodyCount) :
    Except EngineError (List Nat) × Engine :=
  match e.peerCustody id (e.custody.samplingSize kind e.parameters) with
  | (.error cause, e) => (.error cause, e)
  | (.ok answer, e) => (.ok answer.columns, e)

end Engine

end ColumnSampling
