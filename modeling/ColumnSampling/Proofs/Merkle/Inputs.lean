import ColumnSampling.Merkle
import ColumnSampling.Sha256
import Mathlib.Tactic

/-!
# What a merkle tree hashes

SHA-256 has collisions, so no root determines what it was computed from. What the proofs about roots
need is less: that the inputs hashed on the way have distinct digests. Every such statement names
these inputs as a finite list, and no assumption is made about any other byte string. The inputs are
listed by recursions of the same shape as the computations they belong to: one list for a climb over
the layers of a tree, with the pairs of zero subtrees, and one for folding a branch.
-/

namespace ColumnSampling

/-- Two nodes of equal width, written one after the other, can be told apart. -/
theorem FixedBytes.append_inj {m n : ℕ} {x x' : FixedBytes m} {y y' : FixedBytes n}
    (h : x.bytes ++ y.bytes = x'.bytes ++ y'.bytes) : x = x' ∧ y = y' := by
  have hsize : x.bytes.size = x'.bytes.size := by rw [x.size_eq, x'.size_eq]
  have hx := ByteArray.append_inj_left h hsize
  rw [hx, ByteArray.append_right_inj] at h
  exact ⟨FixedBytes.ext hx, FixedBytes.ext h⟩

namespace Sha256

variable {inputs : List ByteArray}

/-- Two of the inputs differ and have the same digest. -/
def Collision (inputs : List ByteArray) : Prop :=
  ∃ x ∈ inputs, ∃ y ∈ inputs, x ≠ y ∧ digest x = digest y

theorem digest_inj (free : ¬ Collision inputs) {x y : ByteArray} (hx : x ∈ inputs)
    (hy : y ∈ inputs) (h : digest x = digest y) : x = y := by
  by_contra hne
  exact free ⟨x, hx, y, hy, hne, h⟩

theorem map_digest_inj (free : ¬ Collision inputs) {xs ys : List ByteArray}
    (hxs : xs ⊆ inputs) (hys : ys ⊆ inputs) (h : xs.map digest = ys.map digest) : xs = ys := by
  induction xs generalizing ys with
  | nil => exact (List.map_eq_nil_iff.mp h.symm).symm
  | cons x xs ih =>
    cases ys with
    | nil => simp at h
    | cons y ys =>
      obtain ⟨hx, hxs⟩ := List.cons_subset.mp hxs
      obtain ⟨hy, hys⟩ := List.cons_subset.mp hys
      rw [List.map_cons, List.map_cons, List.cons.injEq] at h
      rw [digest_inj free hx hy h.1, ih hxs hys h.2]

end Sha256

theorem hashPair_inj {inputs : List ByteArray} (free : ¬ Sha256.Collision inputs)
    {l r l' r' : Root} (h : l.bytes ++ r.bytes ∈ inputs) (h' : l'.bytes ++ r'.bytes ∈ inputs)
    (same : hashPair l r = hashPair l' r') : l = l' ∧ r = r' :=
  FixedBytes.append_inj (Sha256.digest_inj free h h' same)

end ColumnSampling

namespace ColumnSampling.Merkle

/-- What is hashed to build the layer above. -/
def pairInputs (zero : Root) : (layer : List Root) → List ByteArray
  | [] => []
  | [last] => [last.bytes ++ zero.bytes]
  | left :: right :: rest => (left.bytes ++ right.bytes) :: pairInputs zero rest

/-- What is hashed on the way up from `layer`, for the zero subtrees beside it too. -/
def climbInputs : (depth : Nat) → (zero : Root) → (layer : List Root) → List ByteArray
  | 0, _, _ => []
  | depth + 1, zero, layer =>
    (zero.bytes ++ zero.bytes) :: pairInputs zero layer ++
      climbInputs depth (hashPair zero zero) (pairUp zero layer)

/-- A node and its sibling, in the order that the lowest bit of `index` tells. -/
def stepInput (leaf node : Root) (index : Nat) : ByteArray :=
  if index % 2 = 1 then node.bytes ++ leaf.bytes else leaf.bytes ++ node.bytes

/-- What is hashed to fold a branch onto a leaf. -/
def foldInputs (leaf : Root) : (branch : List Root) → (index : Nat) → List ByteArray
  | [], _ => []
  | node :: rest, index =>
    stepInput leaf node index :: foldInputs (Sha256.digest (stepInput leaf node index)) rest
      (index / 2)

/-- What is hashed to check a branch; nothing if it has a wrong length. -/
def checkInputs (leaf : Root) (branch : List Root) (depth index : Nat) : List ByteArray :=
  if branch.length = depth then foldInputs leaf branch index else []

theorem pairUp_eq_map (zero : Root) (layer : List Root) :
    pairUp zero layer = (pairInputs zero layer).map Sha256.digest := by
  fun_induction pairInputs zero layer with
  | case1 => rfl
  | case2 last => rfl
  | case3 left right rest ih =>
    rw [pairUp, ih]
    rfl

theorem foldBranch_cons (leaf node : Root) (rest : List Root) (index : Nat) :
    foldBranch leaf (node :: rest) index =
      foldBranch (Sha256.digest (stepInput leaf node index)) rest (index / 2) := by
  rw [foldBranch, stepInput]
  split_ifs <;> rfl

theorem stepInput_inj {leaf leaf' node node' : Root} {index : Nat}
    (h : stepInput leaf node index = stepInput leaf' node' index) :
    leaf = leaf' ∧ node = node' := by
  unfold stepInput at h
  split_ifs at h
  · exact (FixedBytes.append_inj h).symm
  · exact FixedBytes.append_inj h

@[simp] theorem length_pairUp (zero : Root) (layer : List Root) :
    (pairUp zero layer).length = (layer.length + 1) / 2 := by
  fun_induction pairUp zero layer with
  | case1 => rfl
  | case2 last => simp
  | case3 left right rest ih =>
    simp only [List.length_cons, ih]
    omega

theorem pairUp_append (zero : Root) {xs ys : List Root}
    (even : xs.length % 2 = 0) :
    pairUp zero (xs ++ ys) = pairUp zero xs ++ pairUp zero ys := by
  fun_induction pairUp zero xs with
  | case1 => rfl
  | case2 last => cases even
  | case3 left right rest ih =>
    rw [List.length_cons, List.length_cons] at even
    rw [List.cons_append, List.cons_append, pairUp, ih (by omega), List.cons_append]

end ColumnSampling.Merkle
