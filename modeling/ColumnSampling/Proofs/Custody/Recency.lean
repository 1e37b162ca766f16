import ColumnSampling.Proofs.Custody.PeerCache

/-!
# Which answers are remembered

The questions that were answered so far, without repetitions and the latest first, are a list that
only the history determines. A cache remembers the answers to the first few of that list, as many as
it has room for. A question that is asked again moves to the front of both, and one that could not
be answered moves nothing.
-/

namespace ColumnSampling.PeerCache

/-- A question about a peer, with a count of the width that peers announce. -/
structure Question where
  id : NodeId
  count : UInt64
deriving DecidableEq

namespace Question

def key (q : Question) : FixedBytes 40 := PeerCache.key q.id q.count.toNat

def compute (q : Question) (p : Parameters) : Except CustodyError PeerCustody :=
  PeerCustody.compute q.id q.count.toNat p

theorem key_injective : Function.Injective key := by
  rintro ⟨id, count⟩ ⟨id', count'⟩ h
  obtain ⟨rfl, hcount⟩ := key_inj count.toNat_lt count'.toNat_lt h
  rw [UInt64.toNat_inj.mp hcount]

end Question

/-- The questions that have an answer, each once and the one asked last in front. -/
def recent (p : Parameters) (questions : List Question) : List Question :=
  (questions.filter fun q => (q.compute p).isOk).dedup.reverse

def asked (c : PeerCache) (p : Parameters) (questions : List Question) : PeerCache :=
  questions.foldl (fun c q => (c.ask q.id q.count.toNat p).2) c

def keys (c : PeerCache) : List (FixedBytes 40) := c.entries.map Prod.fst

section Lists

variable {α : Type} [DecidableEq α] {l : List α} {x : α}

theorem dedup_append_singleton (l : List α) (x : α) :
    (l ++ [x]).dedup = l.dedup.filter (· ≠ x) ++ [x] := by
  induction l with
  | nil => simp
  | cons y l ih =>
    by_cases hy : y ∈ l
    · rw [List.cons_append, List.dedup_cons_of_mem (List.mem_append_left _ hy),
        List.dedup_cons_of_mem hy, ih]
    · rw [List.dedup_cons_of_notMem hy, List.cons_append]
      by_cases hyx : y = x
      · rw [List.dedup_cons_of_mem (by simp [hyx]), List.filter_cons_of_neg (by simp [hyx]), ih]
      · rw [List.dedup_cons_of_notMem (by simp [hy, hyx]), List.filter_cons_of_pos (by simp [hyx]),
          ih, List.cons_append]

theorem filter_ne_of_notMem (h : x ∉ l) : l.filter (· ≠ x) = l := by
  rw [List.filter_eq_self]
  intro y hy
  have hne : y ≠ x := ne_of_mem_of_not_mem hy h
  simpa using hne

/-- Without repetitions, the first `n` members other than `x` are among the first `n + 1`. -/
theorem take_filter_take (distinct : l.Nodup) (n : ℕ) :
    ((l.take (n + 1)).filter (· ≠ x)).take n = (l.filter (· ≠ x)).take n := by
  induction l generalizing n with
  | nil => simp
  | cons y l ih =>
    obtain ⟨hy, distinct⟩ := List.nodup_cons.mp distinct
    rw [List.take_succ_cons]
    by_cases hyx : y = x
    · subst hyx
      have htake : y ∉ l.take n := fun h => hy (List.mem_of_mem_take h)
      rw [List.filter_cons_of_neg (by simp), List.filter_cons_of_neg (by simp),
        filter_ne_of_notMem htake, filter_ne_of_notMem hy, List.take_take, min_self]
    · rw [List.filter_cons_of_pos (by simp [hyx]), List.filter_cons_of_pos (by simp [hyx])]
      cases n with
      | zero => rfl
      | succ n => rw [List.take_succ_cons, List.take_succ_cons, ih distinct]

theorem take_move (distinct : l.Nodup) (n : ℕ) :
    (x :: (l.take n).filter (· ≠ x)).take n = (x :: l.filter (· ≠ x)).take n := by
  cases n with
  | zero => rfl
  | succ n => rw [List.take_succ_cons, List.take_succ_cons, take_filter_take distinct]

end Lists

variable {c : PeerCache} {p : Parameters} {capacity : ℕ} {questions : List Question} {q : Question}

theorem nodup_recent : (recent p questions).Nodup :=
  List.nodup_reverse.mpr (List.nodup_dedup _)

theorem length_recent : (recent p questions).length =
    (questions.filter fun q => (q.compute p).isOk).toFinset.card := by
  rw [recent, List.length_reverse, List.card_toFinset]

theorem recent_of_error {cause : CustodyError} (h : q.compute p = .error cause) :
    recent p (questions ++ [q]) = recent p questions := by
  simp [recent, h, Except.isOk, Except.toBool]

theorem recent_of_ok {answer : PeerCustody} (h : q.compute p = .ok answer) :
    recent p (questions ++ [q]) = q :: (recent p questions).filter (· ≠ q) := by
  have hlast : [q].filter (fun q => (q.compute p).isOk) = [q] := by
    simp [h, Except.isOk, Except.toBool]
  rw [recent, List.filter_append, hlast, dedup_append_singleton, List.reverse_append,
    ← List.filter_reverse]
  rfl

theorem keys_touch (c : PeerCache) (bytes : FixedBytes 40) (answer : PeerCustody) :
    (c.touch bytes answer).keys = (bytes :: c.keys.filter (· ≠ bytes)).take c.capacity := by
  rw [keys, keys, touch, List.map_take, List.map_cons, List.filter_map]
  rfl

theorem isSome_find {bytes : FixedBytes 40} : (c.find? bytes).isSome ↔ bytes ∈ c.keys := by
  simp [find?, keys, List.lookup_isSome_iff]

/-- What is remembered after some questions. -/
structure Remembers (c : PeerCache) (capacity : ℕ) (p : Parameters) (questions : List Question) :
    Prop where
  capacity_eq : c.capacity = capacity
  sound : c.Sound p
  keys_eq : c.keys = ((recent p questions).take capacity).map Question.key

theorem remembers_empty (capacity : ℕ) (p : Parameters) :
    (empty capacity).Remembers (max 1 capacity) p [] :=
  ⟨rfl, sound_empty capacity, by simp [keys, empty, recent]⟩

namespace Remembers

variable (h : c.Remembers capacity p questions)

include h

theorem isSome_find_key :
    (c.find? q.key).isSome = decide (q ∈ (recent p questions).take capacity) := by
  rw [Bool.eq_iff_iff, isSome_find, h.keys_eq, decide_eq_true_eq,
    List.mem_map_of_injective Question.key_injective]

theorem touch {answer : PeerCustody} (hanswer : q.compute p = .ok answer) :
    (c.touch q.key answer).Remembers capacity p (questions ++ [q]) where
  capacity_eq := h.capacity_eq
  sound := h.sound.touch hanswer
  keys_eq := by
    have hfilter : (((recent p questions).take capacity).map Question.key).filter (· ≠ q.key) =
        (((recent p questions).take capacity).filter (· ≠ q)).map Question.key := by
      rw [List.filter_map]
      congr 1
      apply List.filter_congr
      intro q' _
      simp [Question.key_injective.eq_iff]
    rw [keys_touch, h.keys_eq, h.capacity_eq, hfilter, ← List.map_cons, ← List.map_take,
      take_move nodup_recent, recent_of_ok hanswer]

theorem ask (q : Question) :
    (c.ask q.id q.count.toNat p).2.Remembers capacity p (questions ++ [q]) := by
  cases hanswer : q.compute p with
  | error cause =>
    rw [h.sound.ask_of_error q.count.toNat_lt hanswer]
    exact ⟨h.capacity_eq, h.sound, by rw [recent_of_error hanswer, h.keys_eq]⟩
  | ok answer =>
    rw [h.sound.ask_of_ok q.count.toNat_lt hanswer]
    exact h.touch hanswer

theorem asked (later : List Question) :
    (c.asked p later).Remembers capacity p (questions ++ later) := by
  induction later generalizing c questions with
  | nil => rwa [List.append_nil]
  | cons q later ih =>
    rw [List.append_cons]
    exact ih (h.ask q)

theorem length_eq : c.length = min capacity
    (questions.filter fun q => (q.compute p).isOk).toFinset.card := by
  have hlength := congrArg List.length h.keys_eq
  rw [keys, List.length_map, List.length_map, List.length_take, length_recent] at hlength
  exact hlength

end Remembers

/--
After any questions, a cache answers the next one as if it remembered nothing, and says that it
remembered the answer exactly if the question is among the latest distinct ones that were answered,
as many as there is room for. Their keys are what the cache holds, in this order, and no two
questions have one key; a question without an answer leaves the cache as it was.
-/
theorem ask_of_run (capacity : ℕ) (p : Parameters) (questions : List Question) (q : Question) :
    let c := (empty capacity).asked p questions
    let latest := (recent p questions).take (max 1 capacity)
    (c.ask q.id q.count.toNat p).1 =
        (q.compute p).map (fun answer => (answer, decide (q ∈ latest))) ∧
      (∀ cause, q.compute p = .error cause → (c.ask q.id q.count.toNat p).2 = c) ∧
      c.length =
        min (max 1 capacity) (questions.filter fun q => (q.compute p).isOk).toFinset.card ∧
      c.keys = latest.map Question.key ∧ Function.Injective Question.key := by
  intro c latest
  have h : c.Remembers (max 1 capacity) p questions := (remembers_empty capacity p).asked questions
  refine ⟨?_, ?_, h.length_eq, h.keys_eq, Question.key_injective⟩
  · cases hanswer : q.compute p with
    | error cause =>
      rw [h.sound.ask_of_error q.count.toNat_lt hanswer]
      rfl
    | ok answer =>
      rw [h.sound.ask_of_ok q.count.toNat_lt hanswer, ← Question.key, h.isSome_find_key]
      rfl
  · intro cause hcause
    rw [h.sound.ask_of_error q.count.toNat_lt hcause]

/-- The first of three peers was asked again, and one question has no answer. -/
example :
    let peer (byte : UInt8) (count : UInt64) : Question := ⟨⟨.replicate 32 byte⟩, count⟩
    recent {} [peer 1 0, peer 2 0, peer 1 0, peer 3 129, peer 3 0] =
      [peer 3 0, peer 1 0, peer 2 0] := by
  decide +kernel

end ColumnSampling.PeerCache
