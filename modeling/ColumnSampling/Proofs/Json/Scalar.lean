import ColumnSampling.Json.Printer
import ColumnSampling.Json.Scalar
import Mathlib.Tactic

/-!
# Every number and every string is read back

A number is written with its decimal digits, the first of which is zero for the number zero only. It
is read back wherever what follows does not go on with it: no digit, no point and no exponent.

A string is written character by character. A quote, a backslash and the control characters are
escaped, each as a code unit of its own, and a code unit below the surrogates is never joined with
another. So each written character is read as one unit, and the units give the characters again.
-/

namespace ColumnSampling.Json

def endsNumber : List Char → Bool
  | [] => true
  | c :: _ => !(c.isDigit || c = '.' || c = 'e' || c = 'E')

variable {rest : List Char}

theorem isDigit_of_mem_toDigits {n : ℕ} {c : Char} (hc : c ∈ Nat.toDigits 10 n) :
    c.isDigit = true :=
  Nat.isDigit_of_mem_toDigits (by decide) (by decide) hc

theorem exists_first_digit (n : ℕ) :
    ∃ c tail, Nat.toDigits 10 n = c :: tail ∧ c.isDigit = true := by
  obtain ⟨c, tail, hcons⟩ := List.exists_cons_of_ne_nil (Nat.toDigits_ne_nil (b := 10) (n := n))
  have hmem : c ∈ Nat.toDigits 10 n := by simp [hcons]
  exact ⟨c, tail, hcons, isDigit_of_mem_toDigits hmem⟩

theorem ne_of_isDigit {c d : Char} (hc : c.isDigit = true) (hd : d.isDigit = false) : c ≠ d := by
  rintro rfl
  rw [hc] at hd
  cases hd

theorem spanDigits_append {digits : List Char} (hdigits : ∀ c ∈ digits, c.isDigit = true)
    (hrest : endsNumber rest = true) : spanDigits (digits ++ rest) = (digits, rest) := by
  have hstop : rest.takeWhile Char.isDigit = [] ∧ rest.dropWhile Char.isDigit = rest := by
    cases rest with
    | nil => simp
    | cons c rest =>
      simp only [endsNumber, Bool.not_eq_true', Bool.or_eq_false_iff] at hrest
      simp [hrest.1.1.1]
  rw [spanDigits, List.span_eq_takeWhile_dropWhile, List.takeWhile_append_of_pos hdigits,
    List.dropWhile_append_of_pos hdigits, hstop.1, hstop.2, List.append_nil]

theorem eq_zero_of_toDigits {n : ℕ} {digits : List Char}
    (h : Nat.toDigits 10 n = '0' :: digits) : n = 0 := by
  induction n using Nat.strongRecOn generalizing digits with
  | ind n ih =>
    rw [Nat.toDigits_eq_if (by decide)] at h
    by_cases small : n < 10
    · rw [if_pos small] at h
      simpa using (List.cons.inj h).1
    · rw [if_neg small] at h
      obtain hnil | ⟨tail, htail, -⟩ := List.append_eq_cons_iff.mp h
      · exact absurd hnil.1 Nat.toDigits_ne_nil
      · have hzero := ih (n / 10) (by omega) htail
        omega

theorem isWholePart_toDigits (n : ℕ) : isWholePart (Nat.toDigits 10 n) = true := by
  unfold isWholePart
  split
  · next h => exact absurd h Nat.toDigits_ne_nil
  · next h =>
    rw [eq_zero_of_toDigits h, Nat.toDigits_zero] at h
    simp at h
  · rfl

theorem readFraction_of_ends (h : endsNumber rest = true) :
    readFraction rest = some ([], rest) := by
  unfold readFraction
  split
  · simp [endsNumber] at h
  · rfl

theorem readExponent_of_ends (h : endsNumber rest = true) :
    readExponent rest = some ([], rest) := by
  cases rest with
  | nil => rfl
  | cons c rest =>
    simp only [endsNumber, Bool.not_eq_true', Bool.or_eq_false_iff] at h
    simp [readExponent, h.1.2, h.2]

theorem readNumber_toDigits (n : ℕ) (h : endsNumber rest = true) :
    readNumber (Nat.toDigits 10 n ++ rest) = some (.integer n, rest) := by
  have hspan := spanDigits_append (fun c hc => isDigit_of_mem_toDigits (n := n) hc) h
  -- A digit comes first, so there is no sign.
  have hsign : ∀ tail, Nat.toDigits 10 n ++ rest ≠ '-' :: tail := by
    intro tail heq
    obtain ⟨c, digits, hcons, hdigit⟩ := exists_first_digit n
    rw [hcons, List.cons_append] at heq
    exact ne_of_isDigit hdigit rfl (List.cons.inj heq).1
  unfold readNumber
  split
  · next heq =>
    split at heq
    · next htail => exact absurd htail (hsign _)
    · simp at heq
      obtain ⟨rfl, rfl⟩ := heq
      simp [hspan, isWholePart_toDigits, readFraction_of_ends h, readExponent_of_ends h]

def isEscaped (c : Char) : Bool := c = '"' || c = '\\' || c.toNat < 32

def unitOf (c : Char) : StringUnit := if isEscaped c then .code c.toNat else .char c

theorem hexValue_digit {n : ℕ} (small : n < 16) : hexValue? (Hex.digit n) = some n := by
  interval_cases n <;> rfl

/-- A written character is read as one unit, whatever follows it. -/
theorem stringUnits_writeChar (c : Char) (rest : List Char) (done : List StringUnit) :
    stringUnits (writeChar c rest) done = stringUnits rest (unitOf c :: done) := by
  unfold writeChar
  split_ifs with hquote hback hline hreturn htab hbell hfeed hcontrol
  · subst hquote
    rfl
  · subst hback
    rfl
  · subst hline
    rfl
  · subst hreturn
    rfl
  · subst htab
    rfl
  · subst hbell
    rfl
  · subst hfeed
    rfl
  · -- Two digits are enough for a control character.
    have hunit : unitOf c = .code c.toNat := if_pos (by simp [isEscaped, hcontrol])
    have hhigh := hexValue_digit (n := c.toNat / 16) (by omega)
    have hlow := hexValue_digit (n := c.toNat % 16) (by omega)
    have hfour : hexFour? '0' '0' (Hex.digit (c.toNat / 16)) (Hex.digit (c.toNat % 16)) =
        some c.toNat := by
      have hzero : hexValue? '0' = some 0 := rfl
      simp only [hexFour?, hzero, hhigh, hlow]
      exact congrArg some (by omega)
    rw [stringUnits, hfour, hunit]
  · have hunit : unitOf c = .char c := if_neg (by simp [isEscaped, hquote, hback, hcontrol])
    rw [hunit, stringUnits.eq_def]
    split <;> simp_all

theorem stringUnits_foldr (cs rest : List Char) (done : List StringUnit) :
    stringUnits (cs.foldr writeChar ('"' :: rest)) done =
      some (done.reverse ++ cs.map unitOf, rest) := by
  induction cs generalizing done with
  | nil => simp [stringUnits]
  | cons c cs ih =>
    rw [List.foldr_cons, stringUnits_writeChar, ih]
    simp

theorem codePoints_code {n : ℕ} (single : isHighSurrogate n = false) (rest : List StringUnit)
    (done : List ℕ) : codePoints (.code n :: rest) done = codePoints rest (n :: done) := by
  rcases rest with _ | ⟨c | low, rest⟩
  · rfl
  · rfl
  · rw [codePoints, single]
    rfl

theorem codePoints_unitOf (cs : List Char) (done : List ℕ) :
    codePoints (cs.map unitOf) done = done.reverse ++ cs.map Char.toNat := by
  induction cs generalizing done with
  | nil => simp [codePoints]
  | cons c cs ih =>
    have hstep : codePoints ((c :: cs).map unitOf) done =
        codePoints (cs.map unitOf) (c.toNat :: done) := by
      by_cases hescaped : isEscaped c = true
      · have single : isHighSurrogate c.toNat = false := by
          simp only [isEscaped, Bool.or_eq_true, decide_eq_true_eq] at hescaped
          rcases hescaped with (rfl | rfl) | hcontrol
          · rfl
          · rfl
          · simp [isHighSurrogate]
            omega
        rw [List.map_cons, unitOf, if_pos hescaped, codePoints_code single]
      · rw [List.map_cons, unitOf, if_neg hescaped, codePoints]
    rw [hstep, ih]
    simp

theorem not_surrogate (c : Char) :
    (isHighSurrogate c.toNat || isLowSurrogate c.toNat) = false := by
  have hvalid : c.toNat < 0xd800 ∨ 0xdfff < c.toNat ∧ c.toNat < 0x110000 := c.valid
  simp [isHighSurrogate, isLowSurrogate]
  omega

theorem isBareControl_unitOf (c : Char) : isBareControl (unitOf c) = false := by
  by_cases hescaped : isEscaped c = true
  · rw [unitOf, if_pos hescaped]
    rfl
  · rw [unitOf, if_neg hescaped]
    simp [isEscaped] at hescaped
    simp [isBareControl, hescaped]

theorem textOfUnits_unitOf (cs : List Char) :
    textOfUnits (cs.map unitOf) = .plain (String.ofList cs) := by
  have hpoints : codePoints (cs.map unitOf) [] = cs.map Char.toNat := codePoints_unitOf cs []
  have hcontrol : (cs.map unitOf).any isBareControl = false := by
    simp [isBareControl_unitOf]
  have hsurrogate :
      (cs.map Char.toNat).any (fun n => isHighSurrogate n || isLowSurrogate n) = false := by
    rw [List.any_map, List.any_eq_false]
    intro c _
    simp [not_surrogate]
  have hchars : (cs.map Char.toNat).map Char.ofNat = cs := by
    simp [Function.comp_def]
  simp only [textOfUnits, hpoints, hcontrol, hsurrogate, hchars, Bool.or_self]
  rfl

/-- What is written for a text is read as that text, up to the closing quote. -/
theorem readString_foldr (text : String) (rest : List Char) :
    readString (text.toList.foldr writeChar ('"' :: rest)) = some (.plain text, rest) := by
  unfold readString
  simp [stringUnits_foldr, textOfUnits_unitOf]

end ColumnSampling.Json
