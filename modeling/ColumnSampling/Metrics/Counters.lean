/-!
# Counters

The engine counts what it does. Counters are 64-bit words and wrap around; the gauge of blobs in the
last block is read as a signed word.
-/

namespace ColumnSampling

structure Counters where
  sidecarsBuilt : UInt64 := 0
  blobsPerBlock : Int64 := 0
  verificationsSuccess : UInt64 := 0
  verificationsFailure : UInt64 := 0
  inclusionProofFailures : UInt64 := 0
  reconstructionAttempts : UInt64 := 0
  reconstructionFailures : UInt64 := 0
  peerCacheHits : UInt64 := 0
  peerCacheMisses : UInt64 := 0
deriving DecidableEq, Inhabited

namespace Counters

def built (c : Counters) (sidecars blobs : Nat) : Counters :=
  { c with
    sidecarsBuilt := c.sidecarsBuilt + sidecars.toUInt64
    blobsPerBlock := blobs.toUInt64.toInt64 }

def accepted (c : Counters) (sidecars : Nat) : Counters :=
  { c with verificationsSuccess := c.verificationsSuccess + sidecars.toUInt64 }

def refused (c : Counters) (sidecars : Nat) : Counters :=
  { c with verificationsFailure := c.verificationsFailure + sidecars.toUInt64 }

/-- A list of commitments did not open the root of its body. -/
def inclusionFailed (c : Counters) : Counters :=
  { c with inclusionProofFailures := c.inclusionProofFailures + 1 }

def reconstructed (c : Counters) (success : Bool) : Counters :=
  { c with
    reconstructionAttempts := c.reconstructionAttempts + 1
    reconstructionFailures :=
      if success then c.reconstructionFailures else c.reconstructionFailures + 1 }

def peerAsked (c : Counters) (remembered : Bool) : Counters :=
  if remembered then { c with peerCacheHits := c.peerCacheHits + 1 }
  else { c with peerCacheMisses := c.peerCacheMisses + 1 }

def named (c : Counters) : List (String × Int) :=
  let total (n : UInt64) : Int := n.toNat
  [("sidecars_built", total c.sidecarsBuilt),
    ("blobs_per_block", c.blobsPerBlock.toInt),
    ("verifications_success", total c.verificationsSuccess),
    ("verifications_failure", total c.verificationsFailure),
    ("inclusion_proof_failures", total c.inclusionProofFailures),
    ("reconstruction_attempts", total c.reconstructionAttempts),
    ("reconstruction_failures", total c.reconstructionFailures),
    ("peer_info_cache_hits", total c.peerCacheHits),
    ("peer_info_cache_misses", total c.peerCacheMisses)]

end Counters

end ColumnSampling
