import ColumnSampling.Custody.Groups

/-!
# What peers keep

The groups, columns and subnets of a peer follow from its id and the count that it announces, so an
answer about a peer never goes stale. A bounded number of answers is kept; a new one pushes out the
one that was not asked for the longest.
-/

namespace ColumnSampling

/-- The custody of a peer; every list is in ascending order. -/
structure PeerCustody where
  groups : List Nat
  columns : List Nat
  subnets : List Nat
deriving DecidableEq, Repr

/-- The custody of a peer that announces `count` groups. -/
def PeerCustody.compute (id : NodeId) (count : Nat) (p : Parameters) :
    Except CustodyError PeerCustody := do
  let groups ← Custody.groups id count p
  let columns ← Custody.columns groups p
  let subnets ← Custody.subnets columns p
  return { groups := groups, columns := columns, subnets := subnets }

/-- Answers by key, the one asked for last in front. -/
structure PeerCache where
  capacity : Nat
  entries : List (FixedBytes 40 × PeerCustody)
deriving DecidableEq

namespace PeerCache

/-- A cache without answers. It holds one at least. -/
def empty (capacity : Nat) : PeerCache := ⟨max 1 capacity, []⟩

def length (c : PeerCache) : Nat := c.entries.length

/-- The key of a question: the id, then the count as eight bytes, most significant first. -/
def key (id : NodeId) (count : Nat) : FixedBytes 40 :=
  .ofList (id.toList ++ Endian.big 8 count) (by simp)

def find? (c : PeerCache) (key : FixedBytes 40) : Option PeerCustody := c.entries.lookup key

def touch (c : PeerCache) (key : FixedBytes 40) (answer : PeerCustody) : PeerCache :=
  { c with entries := ((key, answer) :: c.entries.filter (·.1 ≠ key)).take c.capacity }

/--
Answers a question, and tells whether the answer was remembered. A failure is not remembered.
-/
def ask (c : PeerCache) (id : NodeId) (count : Nat) (p : Parameters) :
    Except CustodyError (PeerCustody × Bool) × PeerCache :=
  let key := key id count
  match c.find? key with
  | some answer => (.ok (answer, true), c.touch key answer)
  | none =>
    match PeerCustody.compute id count p with
    | .error e => (.error e, c)
    | .ok answer => (.ok (answer, false), c.touch key answer)

end PeerCache

end ColumnSampling
