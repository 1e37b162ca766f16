import ColumnSampling.Custody.Groups
import ColumnSampling.Parameters

/-!
# How many groups a node keeps

A node aims at a target: all groups if it subscribes to all subnets, else what its validators
require, else the least count of the network. What it tells its peers may lag behind, and it keeps
only what it both aims at and has told.
-/

namespace ColumnSampling

inductive CustodyCount where
  | target
  | actual
deriving DecidableEq, Repr

/-- The custody counts of a node. -/
structure CustodyPolicy where
  subscribeAllSubnets : Bool
  /-- What the validators of the node require, if it has any. -/
  requirement : Option Nat := none
  /-- The last count set for telling peers. -/
  announced : Nat := 0
deriving DecidableEq, Repr

namespace CustodyPolicy

/-- The count that the node aims at. -/
def target (c : CustodyPolicy) (p : Parameters) : Nat :=
  if c.subscribeAllSubnets then p.groups else c.requirement.getD p.custodyRequirement.toNat

/-- The count that the node tells its peers. -/
def advertised (c : CustodyPolicy) (p : Parameters) : Nat :=
  if c.subscribeAllSubnets then p.groups else max c.announced p.custodyRequirement.toNat

/-- The count that the node keeps. -/
def actual (c : CustodyPolicy) (p : Parameters) : Nat := min (c.target p) (c.advertised p)

def count (c : CustodyPolicy) (kind : CustodyCount) (p : Parameters) : Nat :=
  match kind with
  | .target => c.target p
  | .actual => c.actual p

/-- How many groups the node samples in a slot. -/
def samplingSize (c : CustodyPolicy) (kind : CustodyCount) (p : Parameters) : Nat :=
  max p.samplesPerSlot.toNat (c.count kind p)

end CustodyPolicy

def maxWord : Nat := UInt64.size - 1

namespace Custody

/--
The sum of the effective balances of the validators, held at the greatest 64-bit number. The first
balance that is not known makes the whole unknown.
-/
def totalBalance (balance : Nat → Except String Nat) :
    (indices : List Nat) → (sum : Nat) → Except CustodyError Nat
  | [], sum => .ok sum
  | index :: rest, sum =>
    match balance index with
    | .error cause => .error (.validatorBalance index cause)
    | .ok amount => totalBalance balance rest (min (sum + amount) maxWord)

/--
How many groups the validators require: one for every full share of their balance, but neither fewer
than the least count for validators nor more than there are.
-/
def validatorsRequirement (balance : Nat → Except String Nat) (indices : List Nat)
    (p : Parameters) : Except CustodyError Nat := do
  let sum ← totalBalance balance indices 0
  return min (max (sum / p.balancePerAdditionalGroup.toNat) p.validatorCustodyRequirement.toNat)
    p.groups

end Custody

end ColumnSampling
