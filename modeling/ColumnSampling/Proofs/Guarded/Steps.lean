import ColumnSampling.Proofs.Outcome

/-!
# Steps that could be faults

A list has no element behind its end, a machine word has no room for every number, and nothing is
divided by zero. A guarded computation takes each of these steps with its check, and stops at the
first one that cannot be taken. That is not one of the failures that an operation may report: these
are values, and a guarded computation may well give one.
-/

namespace ColumnSampling

/-- What would bring a computation down. -/
inductive Fault where
  | outOfRange (index length : ℕ)
  | underflow (minuend subtrahend : ℕ)
  | overflow (value : ℕ)
  | shift (amount : ℕ)
  | zeroDivisor
  /-- The lists of a sidecar do not fit together where they must. -/
  | unaligned
  /-- A loop does not end. -/
  | endless
deriving DecidableEq, Repr

abbrev Guarded (α : Type) := Except Fault α

namespace Guarded

variable {ε α β : Type}

section Steps

def pick (items : List α) (index : ℕ) : Guarded α :=
  match items[index]? with
  | some item => .ok item
  | none => .error (.outOfRange index items.length)

def split (items : List α) (n : ℕ) : Guarded (List α × List α) :=
  if n ≤ items.length then .ok (items.take n, items.drop n)
  else .error (.outOfRange n items.length)

def minus (m n : ℕ) : Guarded ℕ := if n ≤ m then .ok (m - n) else .error (.underflow m n)

def word (n : ℕ) : Guarded ℕ := if n < 2 ^ 64 then .ok n else .error (.overflow n)

/-- The word with just the bit `amount` set. -/
def shift (amount : ℕ) : Guarded ℕ :=
  if amount < 64 then .ok (2 ^ amount) else .error (.shift amount)

def quotient (m n : ℕ) : Guarded ℕ := if n = 0 then .error .zeroDivisor else .ok (m / n)

def remainder (m n : ℕ) : Guarded ℕ := if n = 0 then .error .zeroDivisor else .ok (m % n)

theorem pick_of_getElem? {items : List α} {index : ℕ} {item : α} (h : items[index]? = some item) :
    pick items index = .ok item := by
  rw [pick, h]

theorem pick_of_lt {items : List α} {index : ℕ} (h : index < items.length) :
    pick items index = .ok items[index] :=
  pick_of_getElem? (List.getElem?_eq_getElem h)

theorem split_of_le {items : List α} {n : ℕ} (h : n ≤ items.length) :
    split items n = .ok (items.take n, items.drop n) := if_pos h

theorem minus_of_le {m n : ℕ} (h : n ≤ m) : minus m n = .ok (m - n) := if_pos h

theorem word_of_lt {n : ℕ} (h : n < 2 ^ 64) : word n = .ok n := if_pos h

theorem shift_of_lt {amount : ℕ} (h : amount < 64) : shift amount = .ok (2 ^ amount) := if_pos h

theorem quotient_of_pos {m n : ℕ} (h : 0 < n) : quotient m n = .ok (m / n) := if_neg h.ne'

theorem remainder_of_pos {m n : ℕ} (h : 0 < n) : remainder m n = .ok (m % n) := if_neg h.ne'

end Steps

section Chains

def andThen (x : Guarded (Except ε α)) (next : α → Guarded (Except ε β)) :
    Guarded (Except ε β) := do
  match ← x with
  | .error cause => return .error cause
  | .ok a => next a

def each (f : α → Guarded (Except ε Unit)) : List α → Guarded (Except ε Unit)
  | [] => .ok (.ok ())
  | item :: rest => andThen (f item) fun _ => each f rest

def build (f : α → Guarded (Except ε β)) : List α → Guarded (Except ε (List β))
  | [] => .ok (.ok [])
  | item :: rest =>
    andThen (f item) fun built =>
      andThen (build f rest) fun others => return .ok (built :: others)

@[simp] theorem ok_bind (a : α) (f : α → Guarded β) : ((.ok a : Guarded α) >>= f) = f a := rfl

theorem andThen_eq {x : Guarded (Except ε α)} {next : α → Guarded (Except ε β)}
    {outcome : Except ε α} {f : α → Except ε β} (hx : x = .ok outcome)
    (hnext : ∀ a, outcome = .ok a → next a = .ok (f a)) :
    andThen x next = .ok (outcome >>= f) := by
  rw [andThen, hx, ok_bind]
  cases outcome with
  | error cause => rfl
  | ok a => exact hnext a rfl

theorem each_eq {f : α → Guarded (Except ε Unit)} {g : α → Except ε Unit} {items : List α}
    (h : ∀ item ∈ items, f item = .ok (g item)) : each f items = .ok (items.forM g) := by
  induction items with
  | nil => rfl
  | cons item rest ih =>
    obtain ⟨hitem, hrest⟩ := List.forall_mem_cons.mp h
    exact andThen_eq hitem fun _ _ => ih hrest

theorem build_eq {f : α → Guarded (Except ε β)} {g : α → Except ε β} {items : List α}
    (h : ∀ item ∈ items, f item = .ok (g item)) : build f items = .ok (items.mapM g) := by
  induction items with
  | nil => rfl
  | cons item rest ih =>
    obtain ⟨hitem, hrest⟩ := List.forall_mem_cons.mp h
    rw [build, List.mapM_cons]
    exact andThen_eq hitem fun _ _ => andThen_eq (ih hrest) fun _ _ => rfl

theorem mapM_eq_map {f : α → Guarded β} {g : α → β} {items : List α}
    (h : ∀ item ∈ items, f item = .ok (g item)) : items.mapM f = .ok (items.map g) := by
  rw [Outcome.mapM_eq_ok, List.forall₂_map_right_iff, List.forall₂_same]
  exact h

theorem foldlM_eq_foldl {f : β → α → Guarded β} {g : β → α → β} {items : List α}
    (h : ∀ item ∈ items, ∀ b, f b item = .ok (g b item)) (b : β) :
    items.foldlM f b = .ok (items.foldl g b) := by
  induction items generalizing b with
  | nil => rfl
  | cons item rest ih =>
    obtain ⟨hitem, hrest⟩ := List.forall_mem_cons.mp h
    rw [List.foldlM_cons, hitem, ok_bind, List.foldl_cons]
    exact ih hrest _

end Chains

end Guarded

end ColumnSampling
