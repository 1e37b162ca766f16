import ColumnSampling.Json.Scalar
import ColumnSampling.Proofs.Bytes.Hex

/-!
# What a text of digits is read as

Digits are characters, but a text is read by its bytes. A digit takes one byte, and the first byte
of a character outside ASCII is no digit, so up to the first character that is none the reader sees
characters. It reads two digits for each byte, or names that character; an odd number of bytes it
names before it looks at any.
-/

namespace ColumnSampling.Hex

open Json (hexValue?)

def utf8 (cs : List Char) : List UInt8 := cs.flatMap String.utf8EncodeChar

def firstByte (c : Char) : UInt8 := (String.utf8EncodeChar c).headD 0

/-- Whether a character is a digit of either case. -/
def IsDigit (c : Char) : Prop := (hexValue? c).isSome

instance : DecidablePred IsDigit := fun c =>
  inferInstanceAs (Decidable ((hexValue? c).isSome = true))

instance (cs : List Char) : Decidable (∀ c ∈ cs, IsDigit c) :=
  decidable_of_iff (cs.all (fun c => (hexValue? c).isSome) = true) List.all_eq_true

/-- Two digits of either case for each of some bytes, the high half first. -/
inductive Spells : List Char → List UInt8 → Prop
  | nil : Spells [] []
  | cons {a b : Char} {high low : ℕ} {cs : List Char} {bytes : List UInt8}
      (hhigh : hexValue? a = some high) (hlow : hexValue? b = some low) (rest : Spells cs bytes) :
      Spells (a :: b :: cs) ((16 * high + low).toUInt8 :: bytes)

/-- What is read from the characters of a text. -/
inductive Decoded (cs : List Char) : Except HexError (List UInt8) → Prop
  | bytes {bytes : List UInt8} (h : Spells cs bytes) : Decoded cs (.ok bytes)
  | odd (h : (cs.map Char.utf8Size).sum % 2 = 1) : Decoded cs (.error .oddLength)
  | invalid {before after : List Char} {c : Char} (even : (cs.map Char.utf8Size).sum % 2 = 0)
      (hcs : cs = before ++ c :: after) (digits : ∀ d ∈ before, IsDigit d) (h : ¬ IsDigit c) :
      Decoded cs (.error (.invalidCharacter (firstByte c) before.length))

variable {c : Char} {cs : List Char} {bytes : List UInt8} {n : ℕ}

section Digits

theorem forall_ascii {P : Char → Prop} (h : ∀ n < 128, P (Char.ofNat n)) (ascii : c.toNat < 128) :
    P c := by
  have hc := h c.toNat ascii
  rwa [Char.ofNat_toNat] at hc

theorem hexValue_of_ge (large : 128 ≤ c.toNat) : hexValue? c = none := by
  have hle : ∀ d : Char, d.toNat < 128 → ¬ c ≤ d := by
    intro d hd h
    exact absurd (UInt32.le_iff_toNat_le.mp h) (not_le.mpr (hd.trans_le large))
  rw [hexValue?, if_neg fun h => hle '9' (by decide) h.2, if_neg fun h => hle 'f' (by decide) h.2,
    if_neg fun h => hle 'F' (by decide) h.2]

theorem value_of_ge {b : UInt8} (large : 128 ≤ b.toNat) : value? b = none := by
  have hle : ∀ d : UInt8, d.toNat < 128 → ¬ b ≤ d := by
    intro d hd h
    exact absurd (UInt8.le_iff_toNat_le.mp h) (not_le.mpr (hd.trans_le large))
  rw [value?, if_neg fun h => hle 57 (by decide) h.2, if_neg fun h => hle 102 (by decide) h.2,
    if_neg fun h => hle 70 (by decide) h.2]

theorem lt_of_hexValue (h : hexValue? c = some n) : c.toNat < 128 := by
  by_contra large
  rw [hexValue_of_ge (not_lt.mp large)] at h
  cases h

theorem digit_of_hexValue (h : hexValue? c = some n) : n < 16 ∧ digit n = c.toLower := by
  have ascii : ∀ m < 128, ∀ n ∈ hexValue? (Char.ofNat m),
      n < 16 ∧ digit n = (Char.ofNat m).toLower := by
    decide
  exact forall_ascii (P := fun c => ∀ n ∈ hexValue? c, n < 16 ∧ digit n = c.toLower) ascii
    (lt_of_hexValue h) n h

end Digits

section Bytes

theorem utf8_toList (text : String) : text.toUTF8.data.toList = utf8 text.toList := by
  have hlist : ∀ cs : List Char, (String.ofList cs).toUTF8.data.toList = utf8 cs := by
    intro cs
    simp [String.toUTF8, List.utf8Encode, utf8]
  have h := hlist text.toList
  rwa [String.ofList_toList] at h

theorem length_utf8 (cs : List Char) : (utf8 cs).length = (cs.map Char.utf8Size).sum := by
  rw [utf8, List.length_flatMap]
  congr 1
  exact List.map_congr_left fun c _ => String.length_utf8EncodeChar c

/-- A character of ASCII is its own byte; of any other, the first byte is beyond ASCII. -/
theorem utf8EncodeChar_cases (c : Char) :
    (c.toNat < 128 ∧ String.utf8EncodeChar c = [c.toNat.toUInt8]) ∨
      (128 ≤ c.toNat ∧ 128 ≤ (firstByte c).toNat) := by
  rcases Nat.lt_or_ge c.toNat 128 with small | large
  · have hone : c.utf8Size = 1 := Char.utf8Size_eq_one_iff.mpr (Nat.le_of_lt_succ small)
    exact .inl ⟨small, String.utf8EncodeChar_eq_singleton hone⟩
  · have hlarge : ¬ c.val.toNat ≤ 127 := by
      have h : 128 ≤ c.val.toNat := large
      omega
    refine .inr ⟨large, ?_⟩
    unfold firstByte String.utf8EncodeChar
    dsimp only
    split_ifs <;> simp <;> omega

/-- The first byte of a character is read as the character is. -/
theorem value_firstByte (c : Char) : value? (firstByte c) = (hexValue? c).map Nat.toUInt8 := by
  have ascii : ∀ m < 128,
      value? (Char.ofNat m).toNat.toUInt8 = (hexValue? (Char.ofNat m)).map Nat.toUInt8 := by
    decide
  rcases utf8EncodeChar_cases c with ⟨small, hbytes⟩ | ⟨large, hfirst⟩
  · rw [firstByte, hbytes]
    exact forall_ascii (P := fun c => value? c.toNat.toUInt8 = (hexValue? c).map Nat.toUInt8)
      ascii small
  · rw [value_of_ge hfirst, hexValue_of_ge large]
    rfl

theorem value_of_not_isDigit (h : ¬ IsDigit c) : value? (firstByte c) = none := by
  rw [value_firstByte, Option.not_isSome_iff_eq_none.mp h]
  rfl

theorem exists_value_of_isDigit (h : IsDigit c) : ∃ b, value? (firstByte c) = some b := by
  obtain ⟨n, hn⟩ := Option.isSome_iff_exists.mp h
  exact ⟨n.toUInt8, by rw [value_firstByte, hn]; rfl⟩

theorem exists_utf8_cons (c : Char) (cs : List Char) :
    ∃ rest, utf8 (c :: cs) = firstByte c :: rest := by
  have hne : String.utf8EncodeChar c ≠ [] := by
    intro h
    have hsize := String.length_utf8EncodeChar c
    rw [h] at hsize
    exact absurd hsize.symm c.utf8Size_pos.ne'
  obtain ⟨b, rest, hb⟩ := List.exists_cons_of_ne_nil hne
  exact ⟨rest ++ utf8 cs, by simp [utf8, firstByte, hb]⟩

theorem utf8_cons_of_digit (h : IsDigit c) (cs : List Char) :
    utf8 (c :: cs) = firstByte c :: utf8 cs := by
  obtain ⟨n, hn⟩ := Option.isSome_iff_exists.mp h
  rcases utf8EncodeChar_cases c with ⟨-, hbytes⟩ | ⟨large, -⟩
  · simp [utf8, firstByte, hbytes]
  · exact absurd (lt_of_hexValue hn) (not_lt.mpr large)

theorem length_utf8_of_digits (digits : ∀ c ∈ cs, IsDigit c) : (utf8 cs).length = cs.length := by
  induction cs with
  | nil => rfl
  | cons c cs ih =>
    obtain ⟨hc, hcs⟩ := List.forall_mem_cons.mp digits
    rw [utf8_cons_of_digit hc, List.length_cons, List.length_cons, ih hcs]

end Bytes

section Spelling

theorem Spells.digits (h : Spells cs bytes) :
    cs.length = 2 * bytes.length ∧ ∀ c ∈ cs, IsDigit c := by
  induction h with
  | nil => simp
  | cons hhigh hlow rest ih =>
    obtain ⟨hlength, hdigits⟩ := ih
    constructor
    · simp only [List.length_cons, hlength]
      ring
    · simp only [List.forall_mem_cons]
      exact ⟨Option.isSome_of_eq_some hhigh, Option.isSome_of_eq_some hlow, hdigits⟩

theorem exists_spells (digits : ∀ c ∈ cs, IsDigit c) (hlength : cs.length = 2 * n) :
    ∃ bytes, Spells cs bytes ∧ bytes.length = n := by
  induction n generalizing cs with
  | zero =>
    obtain rfl := List.length_eq_zero_iff.mp hlength
    exact ⟨[], .nil, rfl⟩
  | succ n ih =>
    match cs, hlength with
    | a :: b :: cs, hlength =>
      simp only [List.forall_mem_cons] at digits
      obtain ⟨high, hhigh⟩ := Option.isSome_iff_exists.mp digits.1
      obtain ⟨low, hlow⟩ := Option.isSome_iff_exists.mp digits.2.1
      obtain ⟨bytes, h, hbytes⟩ := ih digits.2.2 (by simpa [Nat.mul_succ] using hlength)
      exact ⟨_, .cons hhigh hlow h, congrArg Nat.succ hbytes⟩

/-- Written again, the bytes have the same digits in lower case. -/
theorem encodeList_of_spells (h : Spells cs bytes) : encodeList bytes = cs.map Char.toLower := by
  induction h with
  | nil => rfl
  | @cons a b high low cs bytes hhigh hlow rest ih =>
    obtain ⟨hhigh16, ha⟩ := digit_of_hexValue hhigh
    obtain ⟨hlow16, hb⟩ := digit_of_hexValue hlow
    have hbyte : (16 * high + low).toUInt8.toNat = 16 * high + low :=
      UInt8.toNat_ofNat_of_lt' (by rw [UInt8.size]; omega)
    have hquotient : (16 * high + low) / 16 = high := by omega
    have hremainder : (16 * high + low) % 16 = low := by omega
    rw [encodeList, List.foldr_cons, consByte, hbyte, hquotient, hremainder, ha, hb, ← encodeList,
      ih, List.map_cons, List.map_cons]

end Spelling

section Reading

theorem decodePairs_of_spells (h : Spells cs bytes) (position : ℕ) (done : List UInt8) :
    decodePairs position (utf8 cs) done = .ok (done.reverse ++ bytes) := by
  induction h generalizing position done with
  | nil => simp [utf8, decodePairs]
  | @cons a b high low cs bytes hhigh hlow rest ih =>
    have hbyte : high.toUInt8 * 16 + low.toUInt8 = (16 * high + low).toUInt8 := by
      apply UInt8.toNat_inj.mp
      simp [Nat.toUInt8, Nat.mul_comm]
    rw [utf8_cons_of_digit (Option.isSome_of_eq_some hhigh),
      utf8_cons_of_digit (Option.isSome_of_eq_some hlow), decodePairs, value_firstByte,
      value_firstByte, hhigh, hlow]
    dsimp only [Option.map_some]
    rw [hbyte, ih, List.reverse_cons, List.append_assoc, List.singleton_append]

/-- The reader takes two characters at a time, and the first that is no digit may be either. -/
theorem decodePairs_of_invalid (h : ¬ IsDigit c) : ∀ (before after : List Char),
    (∀ d ∈ before, IsDigit d) → (utf8 (before ++ c :: after)).length % 2 = 0 →
    ∀ (position : ℕ) (done : List UInt8), decodePairs position (utf8 (before ++ c :: after)) done =
      .error (.invalidCharacter (firstByte c) (position + before.length))
  | [], after, _, even, position, done => by
    obtain ⟨rest, hrest⟩ := exists_utf8_cons c after
    rw [List.nil_append, hrest] at even ⊢
    cases rest with
    | nil => cases even
    | cons b rest =>
      rw [decodePairs, value_of_not_isDigit h]
      rfl
  | [d], after, digits, _, position, done => by
    have hd := digits d List.mem_cons_self
    obtain ⟨high, hhigh⟩ := exists_value_of_isDigit hd
    obtain ⟨rest, hrest⟩ := exists_utf8_cons c after
    rw [List.singleton_append, utf8_cons_of_digit hd, hrest, decodePairs, value_of_not_isDigit h,
      hhigh]
    rfl
  | d :: e :: before, after, digits, even, position, done => by
    simp only [List.forall_mem_cons] at digits
    obtain ⟨hd, he, hbefore⟩ := digits
    obtain ⟨high, hhigh⟩ := exists_value_of_isDigit hd
    obtain ⟨low, hlow⟩ := exists_value_of_isDigit he
    rw [List.cons_append, List.cons_append, utf8_cons_of_digit hd, utf8_cons_of_digit he] at even ⊢
    have even' : (utf8 (before ++ c :: after)).length % 2 = 0 := by
      simp only [List.length_cons] at even
      omega
    rw [decodePairs, hhigh, hlow]
    dsimp only
    rw [decodePairs_of_invalid h before after hbefore even', List.length_cons, List.length_cons]
    congr 2
    ring

theorem decodeList_of_decoded {outcome : Except HexError (List UInt8)} (h : Decoded cs outcome) :
    decodeList (utf8 cs) = outcome := by
  cases h with
  | bytes h =>
    obtain ⟨hlength, digits⟩ := h.digits
    have even : ¬ (utf8 cs).length % 2 = 1 := by
      rw [length_utf8_of_digits digits, hlength]
      omega
    rw [decodeList, if_neg even, decodePairs_of_spells h]
    rfl
  | odd h => rw [decodeList, length_utf8, if_pos h]
  | invalid even hcs digits h =>
    rw [← length_utf8] at even
    rw [decodeList, if_neg (by omega)]
    subst hcs
    rw [decodePairs_of_invalid h _ _ digits even, Nat.zero_add]

theorem exists_first_invalid (h : ¬ ∀ c ∈ cs, IsDigit c) :
    ∃ before c after, cs = before ++ c :: after ∧ (∀ d ∈ before, IsDigit d) ∧ ¬ IsDigit c := by
  induction cs with
  | nil => simp at h
  | cons c cs ih =>
    by_cases hc : IsDigit c
    · have hcs : ¬ ∀ d ∈ cs, IsDigit d := fun hcs => h (List.forall_mem_cons.mpr ⟨hc, hcs⟩)
      obtain ⟨before, d, after, rfl, hbefore, hd⟩ := ih hcs
      exact ⟨c :: before, d, after, rfl, List.forall_mem_cons.mpr ⟨hc, hbefore⟩, hd⟩
    · exact ⟨[], c, cs, rfl, by simp, hc⟩

theorem exists_decoded (cs : List Char) : ∃ outcome, Decoded cs outcome := by
  rcases Nat.mod_two_eq_zero_or_one (cs.map Char.utf8Size).sum with even | odd
  · by_cases digits : ∀ c ∈ cs, IsDigit c
    · have hlength : cs.length = 2 * (cs.length / 2) := by
        rw [← length_utf8, length_utf8_of_digits digits] at even
        omega
      obtain ⟨bytes, h, -⟩ := exists_spells digits hlength
      exact ⟨_, .bytes h⟩
    · obtain ⟨before, c, after, hcs, hbefore, hc⟩ := exists_first_invalid digits
      exact ⟨_, .invalid even hcs hbefore hc⟩
  · exact ⟨_, .odd odd⟩

end Reading

end ColumnSampling.Hex
