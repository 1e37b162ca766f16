import ColumnSampling.Proofs.Json.Scalar
import ColumnSampling.Toml.Text
import ColumnSampling.Toml.Value

/-!
# Every string of a document is read back

A string is written between double quotes, and none of its characters is written with a quote in
front. So the reader does not end before the string does, nor does it take the start of a string for
three quotes, and it reads each written character as that character.
-/

namespace ColumnSampling.Toml

theorem charOfDigits_digits {c : Char} (small : c.toNat < 256) :
    charOfDigits? ['0', '0', Hex.digit (c.toNat / 16), Hex.digit (c.toNat % 16)] = some c := by
  have hhigh := Json.hexValue_digit (n := c.toNat / 16) (by omega)
  have hlow := Json.hexValue_digit (n := c.toNat % 16) (by omega)
  have hzero : Json.hexValue? '0' = some 0 := rfl
  have hvalue : 16 * (c.toNat / 16) + c.toNat % 16 = c.toNat := Nat.div_add_mod c.toNat 16
  have hvalid : c.toNat.isValidChar := c.valid
  simp only [charOfDigits?, List.foldl_cons, List.foldl_nil, hzero, hhigh, hlow,
    Option.bind_eq_bind, Option.bind_some, Option.pure_def, Nat.mul_zero, Nat.zero_add, hvalue,
    if_pos hvalid, Char.ofNat_toNat]

theorem readBasic_writeChar (c : Char) (rest done : List Char) :
    readBasic (writeChar c rest) done = readBasic rest (c :: done) := by
  unfold writeChar
  split_ifs with hquote hback hline hreturn htab hcontrol
  · subst hquote
    rfl
  · subst hback
    rfl
  · subst hline
    rfl
  · subst hreturn
    rfl
  · subst htab
    rfl
  · have hread := charOfDigits_digits (c := c) (by omega)
    rw [readBasic.eq_def]
    simp only [hread]
  · have hplain : isPlain c = true := by
      simp only [not_or, not_lt] at hcontrol
      simp [isPlain, hcontrol]
    rw [readBasic.eq_def]
    split <;> simp_all

theorem readBasic_foldr (cs rest done : List Char) :
    readBasic (cs.foldr writeChar ('"' :: rest)) done =
      some (textOf (cs.reverse ++ done), rest) := by
  induction cs generalizing done with
  | nil => rfl
  | cons c cs ih =>
    rw [List.foldr_cons, readBasic_writeChar, ih, List.reverse_cons, List.append_assoc,
      List.singleton_append]

theorem writeChar_append (c : Char) (cs rest : List Char) :
    writeChar c cs ++ rest = writeChar c (cs ++ rest) := by
  unfold writeChar
  split_ifs <;> rfl

theorem quoted_append (s : String) (rest : List Char) :
    (quoted s).toList ++ rest = '"' :: s.toList.foldr writeChar ('"' :: rest) := by
  have hfoldr : ∀ cs : List Char,
      cs.foldr writeChar ['"'] ++ rest = cs.foldr writeChar ('"' :: rest) := by
    intro cs
    induction cs with
    | nil => rfl
    | cons c cs ih => rw [List.foldr_cons, List.foldr_cons, writeChar_append, ih]
  rw [quoted, String.toList_ofList, List.cons_append, hfoldr]

theorem writeChar_ne_quote (c : Char) (rest tail : List Char) : writeChar c rest ≠ '"' :: tail := by
  unfold writeChar
  split_ifs with hquote <;> simp_all

/-- What is written for a text is read as that text, up to the closing quote. -/
theorem readText_quoted (s : String) {rest : List Char} (hrest : ∀ tail, rest ≠ '"' :: tail) :
    readText ((quoted s).toList ++ rest) = some (s, rest) := by
  have hthree : ∀ tail, s.toList.foldr writeChar ('"' :: rest) ≠ '"' :: '"' :: tail := by
    intro tail h
    cases hs : s.toList with
    | nil =>
      rw [hs] at h
      exact hrest tail (List.cons.inj h).2
    | cons c cs =>
      rw [hs, List.foldr_cons] at h
      exact writeChar_ne_quote c _ _ h
  have hread : readBasic (s.toList.foldr writeChar ('"' :: rest)) [] = some (s, rest) := by
    rw [readBasic_foldr, List.append_nil, textOf, List.reverse_reverse, String.ofList_toList]
  rw [quoted_append]
  unfold readText
  split
  · next h => exact absurd (List.cons.inj h).2 (hthree _)
  · next h =>
    obtain rfl := (List.cons.inj h).2
    exact hread
  · next h => exact absurd (List.cons.inj h).1 (by decide)
  · next h => exact absurd (List.cons.inj h).1 (by decide)
  · next hcases _ _ => exact absurd rfl (hcases _)

end ColumnSampling.Toml
