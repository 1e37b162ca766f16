/-!
# Ascending lists

A finite set of numbers is kept as the list of its members in ascending order, each once.
-/

namespace ColumnSampling.Ascending

/-- Adds a number, unless it is there. -/
def insert (n : Nat) : (numbers : List Nat) → List Nat
  | [] => [n]
  | m :: rest =>
    if n < m then n :: m :: rest
    else if n = m then m :: rest
    else m :: insert n rest

def insertAll (added : List Nat) (numbers : List Nat) : List Nat :=
  added.foldl (fun numbers n => insert n numbers) numbers

/-- The members of a list in ascending order, each once. -/
def ofList (numbers : List Nat) : List Nat := insertAll numbers []

theorem mem_insert {m n : Nat} {numbers : List Nat} :
    m ∈ insert n numbers ↔ m = n ∨ m ∈ numbers := by
  induction numbers with
  | nil => simp [insert]
  | cons k rest ih => grind [insert]

theorem mem_insertAll {m : Nat} {added numbers : List Nat} :
    m ∈ insertAll added numbers ↔ m ∈ added ∨ m ∈ numbers := by
  induction added generalizing numbers with
  | nil => simp [insertAll]
  | cons k rest ih =>
    simp only [insertAll, List.foldl_cons, List.mem_cons] at ih ⊢
    rw [ih, mem_insert]
    grind

@[simp] theorem mem_ofList {m : Nat} {numbers : List Nat} : m ∈ ofList numbers ↔ m ∈ numbers := by
  simp [ofList, mem_insertAll]

theorem pairwise_insert {n : Nat} {numbers : List Nat} (h : numbers.Pairwise (· < ·)) :
    (insert n numbers).Pairwise (· < ·) := by
  induction numbers with
  | nil => simp [insert]
  | cons k rest ih =>
    simp only [insert]
    split
    · rename_i below
      exact List.pairwise_cons.2
        ⟨fun m hm => by rcases List.mem_cons.1 hm with rfl | hm
                        · exact below
                        · exact Nat.lt_trans below ((List.pairwise_cons.1 h).1 m hm), h⟩
    · split
      · exact h
      · obtain ⟨above, sorted⟩ := List.pairwise_cons.1 h
        refine List.pairwise_cons.2 ⟨fun m hm => ?_, ih sorted⟩
        rcases mem_insert.1 hm with rfl | hm
        · omega
        · exact above m hm

theorem pairwise_insertAll {added numbers : List Nat} (h : numbers.Pairwise (· < ·)) :
    (insertAll added numbers).Pairwise (· < ·) := by
  induction added generalizing numbers with
  | nil => exact h
  | cons k rest ih => exact ih (pairwise_insert h)

theorem pairwise_ofList (numbers : List Nat) : (ofList numbers).Pairwise (· < ·) :=
  pairwise_insertAll .nil

end ColumnSampling.Ascending
