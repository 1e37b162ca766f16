import ColumnSampling.Block
import ColumnSampling.Sidecar
import ColumnSampling.Wire.Bytes

/-!
# Blocks and sidecars in JSON
-/

namespace ColumnSampling.JsonForm

def header : JsonForm Header :=
  record ["slot", "proposer_index", "parent_root", "state_root", "body_root"]
    (fun h => [word.write h.slot, word.write h.proposerIndex, root.write h.parentRoot,
      root.write h.stateRoot, root.write h.bodyRoot])
    fun field => do
      return { slot := ← (field "slot").required word
               proposerIndex := ← (field "proposer_index").required word
               parentRoot := ← (field "parent_root").required root
               stateRoot := ← (field "state_root").required root
               bodyRoot := ← (field "body_root").required root }

def signedHeader : JsonForm SignedHeader :=
  record ["message", "signature"] (fun h => [header.write h.message, signature.write h.signature])
    fun field => do
      return { message := ← (field "message").required header
               signature := ← (field "signature").required signature }

def bodyRootNames : List String :=
  ["eth1_data", "graffiti", "proposer_slashings", "attester_slashings", "attestations", "deposits",
    "voluntary_exits", "sync_aggregate", "execution_payload", "bls_to_execution_changes",
    "execution_requests"]

def bodyRoots : JsonForm BodyRoots :=
  record bodyRootNames
    (fun r => [r.eth1Data, r.graffiti, r.proposerSlashings, r.attesterSlashings, r.attestations,
      r.deposits, r.voluntaryExits, r.syncAggregate, r.executionPayload, r.blsToExecutionChanges,
      r.executionRequests].map root.write)
    fun field => do
      return { eth1Data := ← (field "eth1_data").required root
               graffiti := ← (field "graffiti").required root
               proposerSlashings := ← (field "proposer_slashings").required root
               attesterSlashings := ← (field "attester_slashings").required root
               attestations := ← (field "attestations").required root
               deposits := ← (field "deposits").required root
               voluntaryExits := ← (field "voluntary_exits").required root
               syncAggregate := ← (field "sync_aggregate").required root
               executionPayload := ← (field "execution_payload").required root
               blsToExecutionChanges := ← (field "bls_to_execution_changes").required root
               executionRequests := ← (field "execution_requests").required root }

def body : JsonForm Body :=
  record ["randao_reveal", "roots", "blob_kzg_commitments"]
    (fun b => [signature.write b.randaoReveal, bodyRoots.write b.roots,
      (list commitment).write b.commitments])
    fun field => do
      return { randaoReveal := ← (field "randao_reveal").required signature
               roots := ← (field "roots").required bodyRoots
               commitments := ← (field "blob_kzg_commitments").required (list commitment) }

def block : JsonForm Block :=
  record ["slot", "proposer_index", "parent_root", "state_root", "body"]
    (fun b => [word.write b.slot, word.write b.proposerIndex, root.write b.parentRoot,
      root.write b.stateRoot, body.write b.body])
    fun field => do
      return { slot := ← (field "slot").required word
               proposerIndex := ← (field "proposer_index").required word
               parentRoot := ← (field "parent_root").required root
               stateRoot := ← (field "state_root").required root
               body := ← (field "body").required body }

def signedBlock : JsonForm SignedBlock :=
  record ["message", "signature"] (fun b => [block.write b.message, signature.write b.signature])
    fun field => do
      return { message := ← (field "message").required block
               signature := ← (field "signature").required signature }

/-- The header of a column sidecar may be missing. -/
def columnSidecar : JsonForm ColumnSidecar :=
  record
    ["index", "column", "kzg_commitments", "kzg_proofs", "signed_block_header",
      "kzg_commitments_inclusion_proof"]
    (fun s => [word.write s.index, (list cell).write s.cells, (list commitment).write s.commitments,
      (list proof).write s.proofs, (option signedHeader).write s.header,
      (list root).write s.inclusionProof])
    fun field => do
      return { index := ← (field "index").required word
               cells := ← (field "column").required (list cell)
               commitments := ← (field "kzg_commitments").required (list commitment)
               proofs := ← (field "kzg_proofs").required (list proof)
               header := ← (field "signed_block_header").optional signedHeader
               inclusionProof := ← (field "kzg_commitments_inclusion_proof").required (list root) }

def blobSidecar : JsonForm BlobSidecar :=
  record
    ["index", "blob", "kzg_commitment", "kzg_proof", "signed_block_header",
      "kzg_commitment_inclusion_proof"]
    (fun s => [word.write s.index, blob.write s.blob, commitment.write s.commitment,
      proof.write s.proof, signedHeader.write s.header, (list root).write s.inclusionProof])
    fun field => do
      return { index := ← (field "index").required word
               blob := ← (field "blob").required blob
               commitment := ← (field "kzg_commitment").required commitment
               proof := ← (field "kzg_proof").required proof
               header := ← (field "signed_block_header").required signedHeader
               inclusionProof := ← (field "kzg_commitment_inclusion_proof").required (list root) }

end ColumnSampling.JsonForm
