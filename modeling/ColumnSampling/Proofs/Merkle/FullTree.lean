import ColumnSampling.Proofs.Guarded.Merkle
import ColumnSampling.Proofs.Merkle.Branch
import Mathlib.Data.List.GetD

/-!
# Full trees

A sparse tree stands for one that has all its leaves: of the given leaves as many as there is room
for, and zeros behind them. A full tree is taken apart from the root down, a sparse one is built
from the leaves up. The two meet in one step: raised by one layer, a full tree has the leaves that
pairing up the given ones leads to, with the next zero root behind them.
-/

namespace ColumnSampling.Merkle

/-- A binary tree with every leaf at the same depth. -/
inductive FullTree : ℕ → Type where
  | leaf (value : Root) : FullTree 0
  | node {depth : ℕ} (left right : FullTree depth) : FullTree (depth + 1)

/-- The leaves that there is room for at `depth`, with zeros behind them. -/
def filledUp (leaves : List Root) (depth : ℕ) : List Root :=
  leaves.take (2 ^ depth) ++ List.replicate (2 ^ depth - leaves.length) (.zero 32)

theorem length_filledUp (leaves : List Root) (depth : ℕ) :
    (filledUp leaves depth).length = 2 ^ depth := by
  rw [filledUp, List.length_append, List.length_take, List.length_replicate]
  omega

theorem filledUp_getElem? (leaves : List Root) {depth index : ℕ} (inside : index < 2 ^ depth) :
    (filledUp leaves depth)[index]? = some (leaves.getD index (.zero 32)) := by
  unfold filledUp
  rcases Nat.lt_or_ge index leaves.length with given | behind
  · have htake : index < (leaves.take (2 ^ depth)).length := by
      rw [List.length_take]
      omega
    rw [List.getElem?_append_left htake, List.getElem?_take_of_lt inside,
      List.getElem?_eq_getElem given, List.getD_eq_getElem _ _ given]
  · rw [List.take_of_length_le (by omega), List.getElem?_append_right behind,
      List.getElem?_replicate_of_lt (by omega), List.getD_eq_default _ _ behind]

theorem sibling_lt {depth index : ℕ} (inside : index < 2 ^ (depth + 1)) :
    sibling index < 2 ^ (depth + 1) := by
  rw [pow_succ'] at inside ⊢
  unfold sibling
  split_ifs <;> omega

theorem sibling_add (width index : ℕ) :
    sibling (2 * width + index) = 2 * width + sibling index := by
  unfold sibling
  split_ifs <;> omega

namespace FullTree

def leaves : {depth : ℕ} → FullTree depth → List Root
  | _, .leaf value => [value]
  | _, .node left right => left.leaves ++ right.leaves

def root : {depth : ℕ} → FullTree depth → Root
  | _, .leaf value => value
  | _, .node left right => hashPair left.root right.root

/-- The roots of the subtrees passed by on the way down to the leaf at `index`, the lowest first. -/
def siblings : {depth : ℕ} → FullTree depth → (index : ℕ) → List Root
  | 0, .leaf _, _ => []
  | depth + 1, .node left right, index =>
    if index < 2 ^ depth then left.siblings index ++ [right.root]
    else right.siblings (index - 2 ^ depth) ++ [left.root]

def raise : {depth : ℕ} → FullTree (depth + 1) → FullTree depth
  | 0, .node (.leaf left) (.leaf right) => .leaf (hashPair left right)
  | _ + 1, .node left right => .node left.raise right.raise

variable {depth : ℕ}

section Leaves

@[simp] theorem length_leaves (tree : FullTree depth) : tree.leaves.length = 2 ^ depth := by
  induction tree with
  | leaf value => rfl
  | node left right ihl ihr =>
    rw [leaves, List.length_append, ihl, ihr, pow_succ']
    omega

theorem leaves_injective : Function.Injective (@leaves depth) := by
  intro tree other h
  induction tree with
  | leaf value =>
    cases other with
    | leaf value' =>
      rw [List.singleton_inj.mp h]
  | node left right ihl ihr =>
    cases other with
    | node left' right' =>
      obtain ⟨hleft, hright⟩ := List.append_inj h (by simp)
      rw [ihl hleft, ihr hright]

theorem exists_leaves_eq {nodes : List Root} (h : nodes.length = 2 ^ depth) :
    ∃ tree : FullTree depth, tree.leaves = nodes := by
  induction depth generalizing nodes with
  | zero =>
    obtain ⟨value, rfl⟩ := List.length_eq_one_iff.mp h
    exact ⟨.leaf value, rfl⟩
  | succ depth ih =>
    rw [pow_succ'] at h
    have htake : (nodes.take (2 ^ depth)).length = 2 ^ depth := by
      rw [List.length_take]
      omega
    have hdrop : (nodes.drop (2 ^ depth)).length = 2 ^ depth := by
      rw [List.length_drop]
      omega
    obtain ⟨left, hleft⟩ := ih htake
    obtain ⟨right, hright⟩ := ih hdrop
    exact ⟨.node left right, by rw [leaves, hleft, hright, List.take_append_drop]⟩

end Leaves

section Raise

@[simp] theorem root_raise (tree : FullTree (depth + 1)) : tree.raise.root = tree.root := by
  induction depth with
  | zero =>
    match tree with
    | .node (.leaf _) (.leaf _) => rfl
  | succ depth ih =>
    cases tree with
    | node left right => rw [raise, root, root, ih, ih]

theorem leaves_raise (zero : Root) (tree : FullTree (depth + 1)) :
    tree.raise.leaves = pairUp zero tree.leaves := by
  induction depth with
  | zero =>
    match tree with
    | .node (.leaf _) (.leaf _) => rfl
  | succ depth ih =>
    cases tree with
    | node left right =>
      have even : left.leaves.length % 2 = 0 := by
        rw [length_leaves, pow_succ']
        exact Nat.mul_mod_right 2 _
      rw [raise, leaves, leaves, ih, ih, pairUp_append zero even]

/-- The lowest sibling is a leaf, and the others are those one layer up. -/
theorem siblings_eq_cons (zero : Root) (tree : FullTree (depth + 1)) {index : ℕ}
    (inside : index < 2 ^ (depth + 1)) :
    tree.siblings index =
      tree.leaves.getD (sibling index) zero :: tree.raise.siblings (index / 2) := by
  induction depth generalizing index with
  | zero =>
    match tree with
    | .node (.leaf _) (.leaf _) => interval_cases index <;> rfl
  | succ depth ih =>
    cases tree with
    | node left right =>
      have hwidth : 2 ^ (depth + 1) = 2 * 2 ^ depth := pow_succ' _ _
      rw [siblings, raise, siblings, leaves]
      rcases Nat.lt_or_ge index (2 ^ (depth + 1)) with inLeft | inRight
      · have hhalf : index / 2 < 2 ^ depth := by omega
        have hsibling : sibling index < left.leaves.length := by
          rw [length_leaves]
          exact sibling_lt inLeft
        rw [if_pos inLeft, if_pos hhalf, ih left inLeft, root_raise,
          List.getD_append _ _ _ _ hsibling, List.cons_append]
      · obtain ⟨rest, rfl⟩ := Nat.exists_eq_add_of_le inRight
        have hrest : rest < 2 ^ (depth + 1) := by
          rw [pow_succ'] at inside
          omega
        have hhalf : (2 ^ (depth + 1) + rest) / 2 = 2 ^ depth + rest / 2 := by omega
        have hsibling : sibling (2 ^ (depth + 1) + rest) = left.leaves.length + sibling rest := by
          rw [length_leaves, hwidth]
          exact sibling_add _ _
        rw [if_neg (Nat.not_lt.mpr inRight), hhalf, if_neg (by omega), Nat.add_sub_cancel_left,
          Nat.add_sub_cancel_left, ih right hrest, root_raise, hsibling,
          List.getD_append_right _ _ _ _ (Nat.le_add_right _ _), Nat.add_sub_cancel_left,
          List.cons_append]

end Raise

section Sparse

variable {zero : Root} {layer : List Root} {tree : FullTree depth}

/-- The leaves are the nodes of the layer, as far as there are any, and `zero` behind them. -/
def Fills (tree : FullTree depth) (zero : Root) (layer : List Root) : Prop :=
  ∀ j < 2 ^ depth, tree.leaves.getD j zero = layer.getD j zero

theorem fills_of_leaves (h : tree.leaves = filledUp layer depth) :
    tree.Fills (.zero 32) layer := by
  intro j hj
  rw [h, List.getD_eq_getElem?_getD, filledUp_getElem? layer hj, Option.getD_some]

/-- One layer up, a full tree is still the sparse layer with zero roots behind it. -/
theorem Fills.raise {tree : FullTree (depth + 1)} (h : tree.Fills zero layer) :
    tree.raise.Fills (hashPair zero zero) (pairUp zero layer) := by
  intro j hj
  have hwidth : 2 ^ (depth + 1) = 2 * 2 ^ depth := pow_succ' _ _
  rw [leaves_raise zero, getD_pairUp, getD_pairUp, h (2 * j) (by omega), h (2 * j + 1) (by omega)]

theorem Fills.climb_eq (h : tree.Fills zero layer) {position : ℕ} (inside : position < 2 ^ depth) :
    climb depth zero layer position = (tree.root, tree.siblings position) := by
  induction depth generalizing zero layer position with
  | zero =>
    cases tree with
    | leaf value =>
      have hvalue : value = layer.getD 0 zero := h 0 (by decide)
      rw [climb, hvalue, root, siblings]
      cases layer <;> rfl
  | succ depth ih =>
    have hhalf : position / 2 < 2 ^ depth := by
      rw [pow_succ'] at inside
      omega
    rw [climb, ih h.raise hhalf, root_raise, siblings_eq_cons zero tree inside,
      h _ (sibling_lt inside)]

end Sparse

theorem root_eq_zeroRoot {tree : FullTree depth}
    (h : tree.leaves = List.replicate (2 ^ depth) (.zero 32)) : tree.root = zeroRoot depth := by
  induction tree with
  | leaf value => exact List.singleton_inj.mp h
  | @node depth left right ihl ihr =>
    rw [leaves, pow_succ', Nat.two_mul, ← List.replicate_append_replicate] at h
    obtain ⟨hleft, hright⟩ := List.append_inj h (by simp)
    rw [root, ihl hleft, ihr hright, zeroRoot_succ]

end FullTree

/--
A sparse tree is the full tree over its leaves, of which there are as many as there is room for, and
zeros behind them. The roots set aside for its zero subtrees are those of full trees over zeros. It
has the root of the full tree, also where the zero roots are read from that list; its branches are
the siblings in the full tree, one for each layer; and a branch leads from the leaf of the full tree
back to the root, whether or not that leaf was given.
-/
theorem rootAndBranch_eq_fullTree (leaves : List Root) (depth : ℕ) :
    ∃ tree : FullTree depth,
      (∀ other : FullTree depth, other.leaves = filledUp leaves depth ↔ other = tree) ∧
      (∀ height ≤ depth, ∀ zeros : FullTree height,
        zeros.leaves = List.replicate (2 ^ height) (.zero 32) →
          (zeroRoots depth)[height]? = some zeros.root) ∧
      root leaves depth = tree.root ∧
      ∀ index < 2 ^ depth,
        rootAndBranch leaves depth index = (tree.root, tree.siblings index) ∧
        rootAndBranchGuarded leaves depth index = .ok (tree.root, tree.siblings index) ∧
        (branch leaves depth index).length = depth ∧
        tree.leaves[index]? = some (leaves.getD index (.zero 32)) ∧
        foldBranch (leaves.getD index (.zero 32)) (branch leaves depth index) index =
          tree.root := by
  obtain ⟨tree, htree⟩ := FullTree.exists_leaves_eq (length_filledUp leaves depth)
  have hclimb {index : ℕ} (inside : index < 2 ^ depth) :
      rootAndBranch leaves depth index = (tree.root, tree.siblings index) :=
    (FullTree.fills_of_leaves htree).climb_eq inside
  have hroot : root leaves depth = tree.root := by
    rw [root, hclimb (by positivity)]
  refine ⟨tree, fun other => ?_, fun height hheight zeros hzeros => ?_, hroot,
    fun index inside => ⟨hclimb inside, ?_, length_branch _ _ _, ?_, ?_⟩⟩
  · rw [← htree]
    exact FullTree.leaves_injective.eq_iff
  · rw [FullTree.root_eq_zeroRoot hzeros, zeroRoots_eq_map]
    simp [Nat.lt_succ_of_le hheight]
  · rw [rootAndBranchGuarded_eq, hclimb inside]
  · rw [htree, filledUp_getElem? leaves inside]
  · rw [foldBranch_branch leaves inside, hroot]

/-- Three leaves in a tree of eight: at index 6, behind them, the branch has two zero roots and the
root of the half that holds the leaves. -/
theorem rootAndBranch_of_three_leaves :
    let one : Root := .replicate 32 1
    let two : Root := .replicate 32 2
    let three : Root := .replicate 32 3
    let zero : Root := .zero 32
    ∃ tree : FullTree 3,
      tree.leaves = [one, two, three, zero, zero, zero, zero, zero] ∧ 6 < 2 ^ 3 ∧
      tree.siblings 6 =
        [zero, hashPair zero zero, hashPair (hashPair one two) (hashPair three zero)] ∧
      rootAndBranch [one, two, three] 3 6 = (tree.root, tree.siblings 6) ∧
      foldBranch zero (tree.siblings 6) 6 = tree.root := by
  intro one two three zero
  obtain ⟨tree, unique, -, -, h⟩ := rootAndBranch_eq_fullTree [one, two, three] 3
  obtain ⟨hboth, -, -, -, hfold⟩ := h 6 (by decide)
  have hbranch : branch [one, two, three] 3 6 = tree.siblings 6 := by rw [branch, hboth]
  refine ⟨tree, (unique tree).mpr rfl, by decide, hbranch.symm.trans rfl, hboth, ?_⟩
  rw [← hbranch]
  exact hfold

end ColumnSampling.Merkle
