import ColumnSampling.Column.Codec
import ColumnSampling.Column.Reconstruction
import ColumnSampling.Proofs.Column.Verification
import Mathlib.Data.Finset.Sort
import Mathlib.Data.List.Sort

/-!
# One sidecar for each column

Decoding keeps the last sidecar of each column and reconstruction the first. Both then go through
the columns that are present in ascending order. What is collected depends on the members of the
list of columns alone, and a sidecar that a later one of its column supersedes is never looked at by
decoding.
-/

namespace ColumnSampling

namespace Ascending

theorem ofList_eq {numbers ascending : List ℕ} (sorted : ascending.Pairwise (· < ·))
    (same : ∀ n, n ∈ ascending ↔ n ∈ numbers) : ofList numbers = ascending :=
  List.Pairwise.eq_of_mem_iff (pairwise_ofList numbers) sorted fun n => by
    rw [mem_ofList, same]

theorem ofList_eq_sort (numbers : List ℕ) : ofList numbers = numbers.toFinset.sort :=
  ofList_eq numbers.toFinset.sortedLT_sort.pairwise fun n => by
    rw [Finset.mem_sort, List.mem_toFinset]

end Ascending

variable {sidecars : List VerifiedColumn} {c : ℕ} {v : VerifiedColumn}

/-- What depends on the index alone can be read off the columns that sidecars were found for. -/
theorem map_filterMap_find {α : Type} {columns : List ℕ} {find : ℕ → Option VerifiedColumn}
    {f : VerifiedColumn → α} {g : ℕ → α}
    (found : ∀ c ∈ columns, ∃ v, find c = some v ∧ v ∈ sidecars ∧ v.index = c)
    (h : ∀ v ∈ sidecars, f v = g v.index) : (columns.filterMap find).map f = columns.map g := by
  rw [List.map_filterMap, ← List.filterMap_eq_map']
  refine List.filterMap_congr fun c hc => ?_
  obtain ⟨v, hv, hmem, hindex⟩ := found c hc
  rw [hv, Option.map_some, h v hmem, hindex]

namespace Decoding

theorem lastOf_eq_some (h : lastOf sidecars c = some v) : v ∈ sidecars ∧ v.index = c := by
  have hmem := List.mem_of_find?_eq_some h
  have hindex := List.find?_some h
  exact ⟨List.mem_reverse.mp hmem, of_decide_eq_true hindex⟩

theorem isSome_lastOf : (lastOf sidecars c).isSome ↔ ∃ v ∈ sidecars, v.index = c := by
  simp [lastOf]

theorem lastOf_superseded {before after : List VerifiedColumn} (v : VerifiedColumn)
    (later : ∃ w ∈ after, w.index = v.index) :
    lastOf (before ++ v :: after) = lastOf (before ++ after) := by
  funext c
  unfold lastOf
  simp only [List.reverse_append, List.reverse_cons, List.find?_append, List.append_assoc]
  by_cases hv : v.index = c
  · obtain ⟨w, hw, hindex⟩ := later
    have hsome : (after.reverse.find? (·.index = c)).isSome := by
      rw [List.find?_isSome]
      exact ⟨w, List.mem_reverse.mpr hw, by simp [hindex, hv]⟩
    obtain ⟨u, hu⟩ := Option.isSome_iff_exists.mp hsome
    simp [hu]
  · simp [hv]

theorem distinct_congr {others : List VerifiedColumn} (same : lastOf sidecars = lastOf others) :
    distinct sidecars = distinct others := by
  rw [distinct, distinct, same]
  congr 1
  refine Ascending.ofList_eq (Ascending.pairwise_ofList _) fun n => ?_
  rw [Ascending.mem_ofList, List.mem_map, List.mem_map, ← isSome_lastOf, ← isSome_lastOf, same]

theorem distinct_superseded (before : List VerifiedColumn) {after : List VerifiedColumn}
    (v : VerifiedColumn) (later : ∃ w ∈ after, w.index = v.index) :
    distinct (before ++ v :: after) = distinct (before ++ after) :=
  distinct_congr (lastOf_superseded v later)

theorem mem_distinct : v ∈ distinct sidecars ↔ v ∈ sidecars ∧ lastOf sidecars v.index = some v := by
  simp only [distinct, List.mem_filterMap, Ascending.mem_ofList, List.mem_map]
  constructor
  · rintro ⟨c, -, h⟩
    obtain ⟨hmem, rfl⟩ := lastOf_eq_some h
    exact ⟨hmem, h⟩
  · rintro ⟨hmem, h⟩
    exact ⟨v.index, ⟨v, hmem, rfl⟩, h⟩

theorem lastOf_distinct : lastOf (distinct sidecars) = lastOf sidecars := by
  funext c
  cases h : lastOf sidecars c with
  | none =>
    rw [← Option.not_isSome_iff_eq_none, isSome_lastOf] at h ⊢
    rintro ⟨v, hv, hindex⟩
    exact h ⟨v, (mem_distinct.mp hv).1, hindex⟩
  | some v =>
    obtain ⟨hmem, rfl⟩ := lastOf_eq_some h
    have hsome : (lastOf (distinct sidecars) v.index).isSome :=
      isSome_lastOf.mpr ⟨v, mem_distinct.mpr ⟨hmem, h⟩, rfl⟩
    obtain ⟨w, hw⟩ := Option.isSome_iff_exists.mp hsome
    obtain ⟨hwmem, hindex⟩ := lastOf_eq_some hw
    have hlast := (mem_distinct.mp hwmem).2
    rw [hindex, h] at hlast
    rw [hw, hlast]

theorem distinct_distinct : distinct (distinct sidecars) = distinct sidecars :=
  distinct_congr lastOf_distinct

end Decoding

namespace Reconstruction

theorem firstOf_eq_some (h : firstOf sidecars c = some v) : v ∈ sidecars ∧ v.index = c := by
  have hmem := List.mem_of_find?_eq_some h
  have hindex := List.find?_some h
  exact ⟨hmem, of_decide_eq_true hindex⟩

theorem isSome_firstOf : (firstOf sidecars c).isSome ↔ ∃ v ∈ sidecars, v.index = c := by
  simp [firstOf]

end Reconstruction

end ColumnSampling
