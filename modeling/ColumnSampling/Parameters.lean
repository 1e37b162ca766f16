/-!
# Network parameters

Two kinds of numbers fix how blobs are cut and spread. The sizes of the commitment scheme and of the
block body are constants. What can differ between networks is a record, `Parameters`, whose default
values are those of the main network; `Parameters.check` names the first rule that a record breaks.
-/

namespace ColumnSampling

/-- Bytes in a field element of the scalar field. -/
def bytesPerFieldElement : Nat := 32

def fieldElementsPerBlob : Nat := 4096

def fieldElementsPerCell : Nat := 64

def bytesPerBlob : Nat := bytesPerFieldElement * fieldElementsPerBlob

def bytesPerCell : Nat := bytesPerFieldElement * fieldElementsPerCell

/-- Cells in a blob extended to twice its length. -/
def cellsPerExtendedBlob : Nat := 2 * fieldElementsPerBlob / fieldElementsPerCell

def bytesPerCommitment : Nat := 48

def bytesPerProof : Nat := 48

def bytesPerSignature : Nat := 96

def bytesPerRoot : Nat := 32

def blockBodyFields : Nat := 13

/-- Where the list of commitments stands among the fields of a block body. -/
def commitmentsFieldIndex : Nat := 11

/-- Depth of the tree over the fields of a block body. -/
def blockBodyTreeDepth : Nat := 4

/-- The parameters of a network. Every value is an unsigned 64-bit number. -/
structure Parameters where
  /-- Columns of the extended blob matrix. -/
  numberOfColumns : UInt64 := 128
  /-- Groups that the columns are divided into. -/
  numberOfCustodyGroups : UInt64 := 128
  /-- Gossip subnets that columns are spread over. -/
  subnetCount : UInt64 := 128
  /-- Least number of groups that a node samples in a slot. -/
  samplesPerSlot : UInt64 := 8
  /-- Groups kept by a node without validators. -/
  custodyRequirement : UInt64 := 4
  /-- Least number of groups kept by a node with validators. -/
  validatorCustodyRequirement : UInt64 := 8
  /-- Effective balance, in gwei, that adds one group. -/
  balancePerAdditionalGroup : UInt64 := 32000000000
  /-- Most commitments in a block. -/
  maxCommitmentsPerBlock : UInt64 := 4096
  /-- Length of the branch from the list of commitments to the root of the body. -/
  inclusionProofDepth : UInt64 := 4
  /-- Bytes in a merkle root. -/
  rootLength : UInt64 := 32
  /-- How many answers about peers are remembered. -/
  peerCacheSize : UInt64 := 200
deriving DecidableEq, Repr, Inhabited

/-- The rule that a record of parameters breaks. -/
inductive ParameterError where
  | zero (field : String)
  | columnsNotMultipleOfGroups (columns groups : UInt64)
  | columnsUnlikeCells (columns : UInt64) (cells : Nat)
  | exceedsGroups (field : String) (value groups : UInt64)
  | commitmentsNotPowerOfTwo (value : UInt64)
  | inclusionProofDepth (expected : Nat) (actual : UInt64)
  | rootLength (expected : Nat) (actual : UInt64)
deriving DecidableEq, Repr

def ParameterError.message : ParameterError → String
  | .zero field => field ++ " must be non-zero"
  | .columnsNotMultipleOfGroups columns groups =>
    s!"number_of_columns ({columns}) must be a multiple of number_of_custody_groups ({groups})"
  | .columnsUnlikeCells columns cells =>
    s!"number_of_columns ({columns}) must equal the cells per extended blob ({cells})"
  | .exceedsGroups field value groups =>
    s!"{field} ({value}) exceeds number_of_custody_groups ({groups})"
  | .commitmentsNotPowerOfTwo value =>
    s!"max_blob_commitments_per_block ({value}) must be a power of two"
  | .inclusionProofDepth expected actual =>
    s!"kzg_commitments_inclusion_proof_depth must be {expected}, got {actual}"
  | .rootLength expected actual => s!"bytes_per_root must be {expected}, got {actual}"

/-- The least `k` with `n ≤ 2 ^ k`. -/
def ceilLog2 (n : Nat) : Nat := if n ≤ 1 then 0 else Nat.log2 (n - 1) + 1

namespace Parameters

def columns (p : Parameters) : Nat := p.numberOfColumns.toNat

def groups (p : Parameters) : Nat := p.numberOfCustodyGroups.toNat

/-- Columns in each group; none when there are no groups. -/
def columnsPerGroup (p : Parameters) : Nat := p.columns / p.groups

/-- Distinct columns from which the whole matrix can be recovered: half of them, rounded up. -/
def columnsForRecovery (p : Parameters) : Nat := (p.columns + 1) / 2

/-- Depth of the tree over the list of commitments: the least that holds the longest list. -/
def commitmentsTreeDepth (p : Parameters) : Nat := ceilLog2 p.maxCommitmentsPerBlock.toNat

/-- The parameters that must not be zero, by their written names. -/
def nonZero (p : Parameters) : List (String × UInt64) :=
  [("number_of_columns", p.numberOfColumns),
    ("number_of_custody_groups", p.numberOfCustodyGroups),
    ("data_column_sidecar_subnet_count", p.subnetCount),
    ("balance_per_additional_custody_group", p.balancePerAdditionalGroup),
    ("max_blob_commitments_per_block", p.maxCommitmentsPerBlock),
    ("peer_info_cache_size", p.peerCacheSize)]

def atMostGroups (p : Parameters) : List (String × UInt64) :=
  [("custody_requirement", p.custodyRequirement),
    ("validator_custody_requirement", p.validatorCustodyRequirement)]

/-- The first rule that the parameters break, in a fixed order. -/
def fault? (p : Parameters) : Option ParameterError :=
  match p.nonZero.find? (·.2 = 0) with
  | some (field, _) => some (.zero field)
  | none =>
    if p.numberOfColumns % p.numberOfCustodyGroups ≠ 0 then
      some (.columnsNotMultipleOfGroups p.numberOfColumns p.numberOfCustodyGroups)
    else if p.columns ≠ cellsPerExtendedBlob then
      some (.columnsUnlikeCells p.numberOfColumns cellsPerExtendedBlob)
    else match p.atMostGroups.find? (p.numberOfCustodyGroups < ·.2) with
      | some (field, value) => some (.exceedsGroups field value p.numberOfCustodyGroups)
      | none =>
        if p.maxCommitmentsPerBlock.toNat ≠ Nat.pow 2 p.commitmentsTreeDepth then
          some (.commitmentsNotPowerOfTwo p.maxCommitmentsPerBlock)
        else if p.inclusionProofDepth.toNat ≠ blockBodyTreeDepth then
          some (.inclusionProofDepth blockBodyTreeDepth p.inclusionProofDepth)
        else if p.rootLength.toNat ≠ bytesPerRoot then
          some (.rootLength bytesPerRoot p.rootLength)
        else none

def check (p : Parameters) : Except ParameterError Unit :=
  match p.fault? with
  | some e => .error e
  | none => .ok ()

end Parameters

end ColumnSampling
