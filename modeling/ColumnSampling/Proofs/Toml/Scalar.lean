import ColumnSampling.Proofs.Json.Scalar
import ColumnSampling.Toml.Scalar
import Mathlib.Data.List.TakeWhile

/-!
# Every token of a document is read back

A token of digits is no point in time, for these have a mark between their digits, and no number
with a fraction or an exponent. So the digits of a number are read as the integer that they stand
for, if it is in the range of integers.
-/

namespace ColumnSampling.Toml

variable {digits : List Char}

section Digits

theorem ne_of_mem_digits {c d : Char} (hdigits : ∀ c ∈ digits, c.isDigit = true) (hc : c ∈ digits)
    (hd : d.isDigit = false) : c ≠ d :=
  Json.ne_of_isDigit (hdigits c hc) hd

theorem ungroup_of_digits (hdigits : ∀ c ∈ digits, c.isDigit = true) (filled : digits ≠ []) :
    ungroup Char.isDigit digits = some digits := by
  induction digits with
  | nil => exact absurd rfl filled
  | cons c rest ih =>
    obtain ⟨hc, hrest⟩ := List.forall_mem_cons.mp hdigits
    cases rest with
    | nil => rw [ungroup, if_pos hc]
    | cons d rest =>
      have hd : d ≠ '_' := Json.ne_of_isDigit (hrest d List.mem_cons_self) rfl
      rw [ungroup, if_pos hc, ih hrest (List.cons_ne_nil d rest), Option.map_some]
      · intro h
        cases h
      · intro tail htail
        exact hd (List.cons.inj htail).1

theorem splitSign_of_digits (hdigits : ∀ c ∈ digits, c.isDigit = true) :
    splitSign digits = (false, digits) := by
  unfold splitSign
  split
  · exact absurd rfl (ne_of_mem_digits hdigits List.mem_cons_self (by decide))
  · exact absurd rfl (ne_of_mem_digits hdigits List.mem_cons_self (by decide))
  · rfl

/-- Digits have no date at the front, which has a mark after its year. -/
theorem afterDate_of_digits (hdigits : ∀ c ∈ digits, c.isDigit = true) :
    afterDate? digits = none := by
  unfold afterDate?
  split
  · exact absurd rfl (ne_of_mem_digits hdigits (c := '-') (by simp) rfl)
  · rfl

theorem afterTime_of_digits (hdigits : ∀ c ∈ digits, c.isDigit = true) :
    afterTime? digits = none := by
  have hminute : afterMinute? digits = none := by
    unfold afterMinute?
    split
    · exact absurd rfl (ne_of_mem_digits hdigits (c := ':') (by simp) rfl)
    · rfl
  rw [afterTime?, hminute]

theorem isMoment_of_digits (hdigits : ∀ c ∈ digits, c.isDigit = true) :
    isMoment digits = false := by
  rw [isMoment, afterDate_of_digits hdigits, afterTime_of_digits hdigits]
  rfl

theorem span_of_digits {p : Char → Bool} (hdigits : ∀ c ∈ digits, c.isDigit = true)
    (hp : ∀ c, c.isDigit = true → p c = true) : digits.span p = (digits, []) := by
  have hall : ∀ c ∈ digits, p c = true := fun c hc => hp c (hdigits c hc)
  rw [List.span_eq_takeWhile_dropWhile, List.takeWhile_eq_self_iff.mpr hall,
    List.dropWhile_eq_nil_iff.mpr hall]

end Digits

section Numbers

variable {n : ℕ}

theorem wholeDigits_toDigits (n : ℕ) :
    wholeDigits? (Nat.toDigits 10 n) = some (Nat.toDigits 10 n) := by
  have hungroup := ungroup_of_digits (fun c hc => Json.isDigit_of_mem_toDigits (n := n) hc)
    Nat.toDigits_ne_nil
  unfold wholeDigits?
  split
  · next h =>
    have hzero := Option.some.inj (hungroup.symm.trans h)
    rw [Json.eq_zero_of_toDigits hzero, Nat.toDigits_zero] at hzero
    simp at hzero
  · exact hungroup

theorem isFloat_toDigits (n : ℕ) : isFloat (Nat.toDigits 10 n) = false := by
  have hdigits : ∀ c ∈ Nat.toDigits 10 n, c.isDigit = true := fun c hc =>
    Json.isDigit_of_mem_toDigits hc
  have hmark : (Nat.toDigits 10 n).span (fun c => !(decide (c = 'e') || decide (c = 'E'))) =
      (Nat.toDigits 10 n, []) := by
    apply span_of_digits hdigits
    intro c hc
    simp [Json.ne_of_isDigit hc (d := 'e') rfl, Json.ne_of_isDigit hc (d := 'E') rfl]
  have hpoint : (Nat.toDigits 10 n).span (fun c => decide (c ≠ '.')) = (Nat.toDigits 10 n, []) := by
    apply span_of_digits hdigits
    intro c hc
    simp [Json.ne_of_isDigit hc (d := '.') rfl]
  simp only [isFloat, splitSign_of_digits hdigits, hmark, hpoint, wholeDigits_toDigits]
  rfl

theorem integer_toDigits (h : inRange n = true) : integer? (Nat.toDigits 10 n) = some n := by
  have hdigits : ∀ c ∈ Nat.toDigits 10 n, c.isDigit = true := fun c hc =>
    Json.isDigit_of_mem_toDigits hc
  have hbase : ∀ x tail, x.isDigit = false → Nat.toDigits 10 n ≠ '0' :: x :: tail := by
    intro x tail hx heq
    rw [heq] at hdigits
    exact ne_of_mem_digits hdigits (c := x) (by simp) hx rfl
  unfold integer?
  split
  · next heq => exact absurd heq (hbase 'x' _ rfl)
  · next heq => exact absurd heq (hbase 'o' _ rfl)
  · next heq => exact absurd heq (hbase 'b' _ rfl)
  · simp [splitSign_of_digits hdigits, wholeDigits_toDigits, h]

theorem ofToken_toDigits (h : inRange n = true) :
    ofToken (Nat.toDigits 10 n) = some (.integer n) := by
  have hdigits : ∀ c ∈ Nat.toDigits 10 n, c.isDigit = true := fun c hc =>
    Json.isDigit_of_mem_toDigits hc
  have hword : ∀ x tail, x.isDigit = false → Nat.toDigits 10 n ≠ x :: tail := by
    intro x tail hx heq
    rw [heq] at hdigits
    exact ne_of_mem_digits hdigits (c := x) (by simp) hx rfl
  rw [ofToken, if_neg (hword 't' _ rfl), if_neg (hword 'f' _ rfl), isMoment_of_digits hdigits,
    isFloat_toDigits, integer_toDigits h]
  rfl

end Numbers

theorem isTokenChar_of_isDigit {c : Char} (hc : c.isDigit = true) : isTokenChar c = true := by
  simp [isTokenChar, Char.isAlphanum, hc]

theorem readScalar_append {token : List Char} (htoken : ∀ c ∈ token, isTokenChar c = true)
    (rest : List Char) :
    readScalar (token ++ '\n' :: rest) =
      (ofToken token).map fun value => (value, '\n' :: rest) := by
  have hspan : (token ++ '\n' :: rest).span isTokenChar = (token, '\n' :: rest) := by
    rw [List.span_eq_takeWhile_dropWhile, List.takeWhile_append_of_pos htoken,
      List.dropWhile_append_of_pos htoken]
    simp [isTokenChar]
  rw [readScalar, hspan]
  rfl

end ColumnSampling.Toml
