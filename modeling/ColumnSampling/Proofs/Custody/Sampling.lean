import ColumnSampling.Custody.Groups
import ColumnSampling.Proofs.NodeId
import Mathlib.Data.Finset.Sort
import Mathlib.Data.List.Sort
import Mathlib.Order.Bounds.Basic

/-!
# The walk over the node ids

The network's rule is stated with numbers alone: the candidates of a node are the digests of its id,
of its id plus one and so on, modulo the number of groups, and the node keeps the distinct ones
among the first few candidates, as few as give the count asked for. The walk keeps its counter in
bytes and inserts into a sorted list, and gives the same groups. After `2 ^ 256` steps the counter
is back where it started, so a longer walk meets nothing new.
-/

namespace ColumnSampling

namespace Ascending

/-- An ascending list is settled by its members, so it is the sorted list of a finite set. -/
theorem eq_sort {ascending : List ℕ} {s : Finset ℕ} (sorted : ascending.Pairwise (· < ·))
    (same : ∀ n, n ∈ ascending ↔ n ∈ s) : ascending = s.sort :=
  List.Pairwise.eq_of_mem_iff sorted s.sortedLT_sort.pairwise fun n => by
    rw [Finset.mem_sort, same]

theorem insert_sort (n : ℕ) (s : Finset ℕ) : insert n s.sort = (Insert.insert n s).sort :=
  eq_sort (pairwise_insert s.sortedLT_sort.pairwise) fun m => by
    rw [mem_insert, Finset.mem_sort, Finset.mem_insert]

end Ascending

namespace Custody

/-- The group that the number `k` above the node id leads to. -/
def candidate (id : NodeId) (total k : ℕ) : ℕ :=
  Endian.ofLittle ((Sha256.digest
    ⟨(Endian.little 32 ((id.toNat + k) % 2 ^ 256)).toArray⟩).toList.take 8) % total

/-- The distinct groups among the first `n` candidates. -/
def candidates (id : NodeId) (total n : ℕ) : Finset ℕ := (Finset.range n).image (candidate id total)

/-- What the rule does with one candidate: an unseen one is appended and the list sorted again. -/
def appendUnseen (kept : List ℕ) (group : ℕ) : List ℕ :=
  if group ∈ kept then kept else (kept ++ [group]).mergeSort

/-- What the rule keeps after `n` candidates. -/
def kept (id : NodeId) (total n : ℕ) : List ℕ :=
  ((List.range n).map (candidate id total)).foldl appendUnseen []

/-- The outcomes that the rule allows for a request. -/
inductive Sampled (id : NodeId) (p : Parameters) (count : ℕ) :
    Except CustodyError (List ℕ) → Prop
  | tooLarge (h : p.groups < count) : Sampled id p count (.error (.tooLarge count p.groups))
  | all (h : count = p.groups) : Sampled id p count (.ok (List.range p.groups))
  | met (h : count < p.groups) {n : ℕ}
      (least : IsLeast {n | count ≤ (candidates id p.groups n).card} n) :
      Sampled id p count (.ok (candidates id p.groups n).sort)
  | endless (h : count < p.groups) (never : ∀ n, (candidates id p.groups n).card < count) :
      Sampled id p count (.error (.exhausted count))

variable {id : NodeId} {p : Parameters} {total count k n steps : ℕ}

section Candidates

theorem candidates_succ :
    candidates id total (n + 1) = insert (candidate id total n) (candidates id total n) := by
  rw [candidates, Finset.range_add_one, Finset.image_insert, candidates]

theorem card_candidates_succ_le :
    (candidates id total (n + 1)).card ≤ (candidates id total n).card + 1 := by
  rw [candidates_succ]
  exact Finset.card_insert_le _ _

theorem candidate_lt (h : 0 < total) : candidate id total k < total := Nat.mod_lt _ h

/-- The least number of candidates with `count` distinct groups has no more than these. -/
theorem card_of_isLeast (least : IsLeast {n | count ≤ (candidates id total n).card} n) :
    (candidates id total n).card = count := by
  obtain ⟨enough, minimal⟩ := least
  refine le_antisymm ?_ enough
  cases n with
  | zero => simp [candidates]
  | succ n =>
    have hfew : (candidates id total n).card < count := by
      by_contra h
      exact absurd (minimal (not_lt.mp h)) (by omega)
    exact card_candidates_succ_le.trans hfew

theorem candidate_mod (k : ℕ) : candidate id total (k % 2 ^ 256) = candidate id total k := by
  rw [candidate, candidate, Nat.add_mod_mod]

theorem candidates_subset (n : ℕ) : candidates id total n ⊆ candidates id total (2 ^ 256) := by
  intro group hgroup
  obtain ⟨k, -, rfl⟩ := Finset.mem_image.mp hgroup
  rw [← candidate_mod]
  exact Finset.mem_image_of_mem _ (Finset.mem_range.mpr (Nat.mod_lt _ (by positivity)))

theorem card_candidates_le (n : ℕ) :
    (candidates id total n).card ≤ (candidates id total (2 ^ 256)).card :=
  Finset.card_le_card (candidates_subset n)

theorem exists_isLeast (enough : count ≤ (candidates id total n).card) :
    ∃ n ≤ 2 ^ 256, IsLeast {n | count ≤ (candidates id total n).card} n := by
  classical
  have cycle : count ≤ (candidates id total (2 ^ 256)).card := enough.trans (card_candidates_le n)
  have some : ∃ n, count ≤ (candidates id total n).card := ⟨_, cycle⟩
  exact ⟨Nat.find some, Nat.find_min' some cycle, Nat.find_spec some,
    fun _ h => Nat.find_min' some h⟩

/-- One group is met at the first id already, whatever its digest. -/
theorem isLeast_one : IsLeast {n | 1 ≤ (candidates id total n).card} 1 := by
  refine ⟨by simp [candidates], fun n hn => Nat.one_le_iff_ne_zero.mpr ?_⟩
  rintro rfl
  simp [candidates] at hn

end Candidates

section Rule

theorem appendUnseen_sort (s : Finset ℕ) (group : ℕ) :
    appendUnseen s.sort group = (insert group s).sort := by
  unfold appendUnseen
  split_ifs with h
  · rw [Finset.insert_eq_of_mem ((Finset.mem_sort _).mp h)]
  · have distinct : (s.sort ++ [group]).mergeSort.Nodup := by
      rw [(List.mergeSort_perm _ _).nodup_iff, ← List.concat_eq_append, List.nodup_concat]
      exact ⟨h, s.sort_nodup _⟩
    have sorted : (s.sort ++ [group]).mergeSort.Pairwise (· ≤ ·) := List.pairwise_mergeSort' _ _
    refine Ascending.eq_sort ?_ fun n => ?_
    · exact sorted.and distinct |>.imp fun h => lt_of_le_of_ne h.1 h.2
    · rw [List.mem_mergeSort, List.mem_append, List.mem_singleton, Finset.mem_sort,
        Finset.mem_insert, or_comm]

theorem kept_eq_sort (n : ℕ) : kept id total n = (candidates id total n).sort := by
  induction n with
  | zero => simp [kept, candidates]
  | succ n ih =>
    rw [kept, List.range_succ, List.map_append, List.foldl_append, ← kept, ih, candidates_succ]
    exact appendUnseen_sort _ _

end Rule

section Walk

/-- The walk for `count` groups when it has taken `k` steps and may take `steps` more. -/
def resumed (id : NodeId) (total count k steps : ℕ) : Option (List ℕ) :=
  walk total steps (NodeId.next^[k] id) (count - (candidates id total k).card)
    (candidates id total k).sort

theorem groupAt_iterate_next : groupAt (NodeId.next^[k] id) total = candidate id total k := by
  rw [groupAt, candidate, NodeId.littleEndian_eq, NodeId.toNat_iterate_next]

theorem resumed_of_le (enough : count ≤ (candidates id total k).card) :
    resumed id total count k steps = some (candidates id total k).sort := by
  rw [resumed, Nat.sub_eq_zero_of_le enough]
  cases steps <;> rfl

/-- One step: whether or not the group was met before, the walk goes on with all groups so far. -/
theorem resumed_succ (few : (candidates id total k).card < count) :
    resumed id total count k (steps + 1) = resumed id total count (k + 1) steps := by
  obtain ⟨missing, hmissing⟩ : ∃ missing, count - (candidates id total k).card = missing + 1 :=
    Nat.exists_eq_add_one.mpr (by omega)
  rw [resumed, resumed, hmissing, walk, groupAt_iterate_next, Function.iterate_succ_apply',
    candidates_succ]
  simp only [Finset.mem_sort]
  -- A group that was met before costs a step and leaves the number of missing groups.
  split_ifs with hmet
  · rw [Finset.insert_eq_of_mem hmet, hmissing]
  · have hrest :
        count - (insert (candidate id total k) (candidates id total k)).card = missing := by
      rw [Finset.card_insert_of_notMem hmet]
      omega
    rw [hrest, Ascending.insert_sort]

theorem resumed_of_isLeast (least : IsLeast {n | count ≤ (candidates id total n).card} n)
    (hk : k ≤ n) (hn : n ≤ k + steps) :
    resumed id total count k steps = some (candidates id total n).sort := by
  induction steps generalizing k with
  | zero =>
    obtain rfl : k = n := by omega
    exact resumed_of_le least.1
  | succ steps ih =>
    rcases hk.eq_or_lt with rfl | hlt
    · exact resumed_of_le least.1
    · have few : (candidates id total k).card < count := by
        by_contra h
        exact absurd (least.2 (not_lt.mp h)) (by omega)
      rw [resumed_succ few]
      exact ih hlt (by omega)

theorem resumed_of_never (never : ∀ n, (candidates id total n).card < count) :
    resumed id total count k steps = none := by
  induction steps generalizing k with
  | zero =>
    obtain ⟨missing, hmissing⟩ : ∃ missing, count - (candidates id total k).card = missing + 1 :=
      Nat.exists_eq_add_one.mpr (by have := never k; omega)
    rw [resumed, hmissing]
    rfl
  | succ steps ih => rw [resumed_succ (never k), ih]

theorem walk_eq_resumed : walk total steps id count [] = resumed id total count 0 steps := by
  simp [resumed, candidates]

end Walk

theorem groups_of_isLeast (h : count < p.groups)
    (least : IsLeast {n | count ≤ (candidates id p.groups n).card} n) (hn : n ≤ 2 ^ 256) :
    groups id count p = .ok (candidates id p.groups n).sort := by
  have hwalk : walk p.groups idCount id count [] = some (candidates id p.groups n).sort := by
    rw [walk_eq_resumed]
    exact resumed_of_isLeast least (Nat.zero_le n) (hn.trans_eq (Nat.zero_add _).symm)
  have hlength : (candidates id p.groups n).sort.length = count := by
    rw [Finset.length_sort, card_of_isLeast least]
  unfold groups
  rw [if_neg (by omega), if_neg (by omega), hwalk]
  exact if_pos hlength

theorem groups_of_never (h : count < p.groups)
    (never : ∀ n, (candidates id p.groups n).card < count) :
    groups id count p = .error (.exhausted count) := by
  unfold groups
  rw [if_neg (by omega), if_neg (by omega), walk_eq_resumed, resumed_of_never never]

theorem sampled_groups (id : NodeId) (count : ℕ) (p : Parameters) :
    Sampled id p count (groups id count p) := by
  rcases lt_trichotomy p.groups count with h | h | h
  · rw [groups, if_pos h]
    exact .tooLarge h
  · rw [groups, if_neg (by omega), if_pos h.symm]
    exact .all h.symm
  · -- Any number that suffices gives a least one, which the walk can reach.
    by_cases enough : ∃ n, count ≤ (candidates id p.groups n).card
    · obtain ⟨_, enough⟩ := enough
      obtain ⟨n, hn, least⟩ := exists_isLeast enough
      rw [groups_of_isLeast h least hn]
      exact .met h least
    · have never : ∀ n, (candidates id p.groups n).card < count := by simpa using enough
      rw [groups_of_never h never]
      exact .endless h never

theorem sampled_of_groups {r : Except CustodyError (List ℕ)} (h : groups id count p = r) :
    Sampled id p count r :=
  h ▸ sampled_groups id count p

theorem Sampled.unique {r r' : Except CustodyError (List ℕ)} (h : Sampled id p count r)
    (h' : Sampled id p count r') : r = r' := by
  cases h with
  | tooLarge h => cases h' with
    | tooLarge => rfl
    | all h' | met h' _ | endless h' _ => omega
  | all h => cases h' with
    | all => rfl
    | tooLarge h' | met h' _ | endless h' _ => omega
  | met h least => cases h' with
    | tooLarge h' | all h' => omega
    | met _ least' => rw [least.unique least']
    | endless _ never => exact absurd least.1 (not_le.mpr (never _))
  | endless h never => cases h' with
    | tooLarge h' | all h' => omega
    | met _ least => exact absurd least.1 (not_le.mpr (never _))
    | endless => rfl

theorem Sampled.of_ok {found : List ℕ} (h : Sampled id p count (.ok found)) :
    found.length = count ∧ found.Pairwise (· < ·) ∧ ∀ group ∈ found, group < p.groups := by
  cases h with
  | all h =>
    exact ⟨by rw [List.length_range, h], List.pairwise_lt_range, fun _ => List.mem_range.mp⟩
  | @met h n least =>
    refine ⟨by rw [Finset.length_sort, card_of_isLeast least],
      (Finset.sortedLT_sort _).pairwise, fun group hgroup => ?_⟩
    obtain ⟨k, -, rfl⟩ := Finset.mem_image.mp ((Finset.mem_sort _).mp hgroup)
    exact candidate_lt (Nat.zero_lt_of_lt h)

theorem Sampled.of_error {cause : CustodyError} (h : Sampled id p count (.error cause))
    (within : count ≤ p.groups) : cause = .exhausted count ∧ count < p.groups ∧
      ∀ n, (candidates id p.groups n).card < count := by
  cases h with
  | tooLarge h => exact absurd within (not_le.mpr h)
  | endless h never => exact ⟨rfl, h, never⟩

/--
The groups of a node are those of the network's rule, for every id and every count. There are as
many as asked for, in ascending order and each below the number of groups; with no groups nothing is
reduced modulo their number; and the bound on the walk excludes nothing.
-/
theorem groups_eq_iff_sampled (id : NodeId) (count : ℕ) (p : Parameters) :
    (∀ r, groups id count p = r ↔ Sampled id p count r) ∧
    (∀ n, kept id p.groups n = (candidates id p.groups n).sort) ∧
    (∀ found, groups id count p = .ok found →
      found.length = count ∧ found.Pairwise (· < ·) ∧ ∀ group ∈ found, group < p.groups) ∧
    (∀ expected actual, groups id count p ≠ .error (.internal expected actual)) ∧
    (p.groups = 0 → groups id count p = if count = 0 then .ok [] else .error (.tooLarge count 0)) ∧
    ((∀ n ≤ 2 ^ 256, (candidates id p.groups n).card < count) →
      ∀ n, (candidates id p.groups n).card < count) := by
  have sampled := sampled_groups id count p
  refine ⟨fun r => ⟨fun h => h ▸ sampled, sampled.unique⟩, kept_eq_sort, ?_, ?_, ?_, ?_⟩
  · intro found h
    exact Sampled.of_ok (h ▸ sampled)
  · intro expected actual h
    rw [h] at sampled
    cases sampled
  · intro h
    split_ifs with hcount
    · have all : Sampled id p count (.ok (List.range p.groups)) := .all (hcount.trans h.symm)
      exact sampled.unique (by rwa [h] at all)
    · have large : Sampled id p count (.error (.tooLarge count p.groups)) :=
        .tooLarge (h.trans_lt (Nat.pos_of_ne_zero hcount))
      exact sampled.unique (by rwa [h] at large)
  · intro never n
    exact (card_candidates_le n).trans_lt (never _ le_rfl)

end Custody

end ColumnSampling
