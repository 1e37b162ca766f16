import ColumnSampling.Proofs.Bytes.HexText
import ColumnSampling.Proofs.Wire.Bytes

/-!
# Which texts are node ids

A mark is taken off the text once and only in lower case. What is left is a node id if it is 64
digits of either case. Digits for another number of bytes are reported with that number, and
anything else with what is wrong with it as hexadecimal text. A node id that was read is written
with the same digits in lower case.
-/

namespace ColumnSampling.NodeId

open Hex

def unmarked : List Char → List Char
  | '0' :: 'x' :: cs => cs
  | cs => cs

/-- What is read from a text. -/
inductive Parsed (text : String) : Except NodeIdError NodeId → Prop
  | id {id : NodeId} (digits : Spells (unmarked text.toList) id.toList) : Parsed text (.ok id)
  | length {bytes : List UInt8} (digits : Spells (unmarked text.toList) bytes)
      (hlength : bytes.length ≠ 32) : Parsed text (.error (.length bytes.length))
  | hex {cause : HexError} (h : Decoded (unmarked text.toList) (.error cause)) :
      Parsed text (.error (.hex cause))

variable {text : String} {cs : List Char} {id : NodeId} {n : ℕ}

section Mark

/-- A byte of ASCII at the front comes from that character and no other. -/
theorem exists_of_utf8_eq_cons {d : Char} {bytes : List UInt8} (ascii : d.toNat < 128)
    (h : utf8 cs = d.toNat.toUInt8 :: bytes) : ∃ rest, cs = d :: rest ∧ utf8 rest = bytes := by
  have hbyte : ∀ e : Char, e.toNat < 128 → e.toNat.toUInt8.toNat = e.toNat := by
    intro e he
    exact UInt8.toNat_ofNat_of_lt' (he.trans (by decide))
  rcases cs with _ | ⟨c, cs⟩
  · cases h
  · rcases utf8EncodeChar_cases c with ⟨small, hc⟩ | ⟨-, large⟩
    · rw [utf8, List.flatMap_cons, hc, List.singleton_append] at h
      obtain ⟨hfirst, hrest⟩ := List.cons_eq_cons.mp h
      have htoNat := congrArg UInt8.toNat hfirst
      rw [hbyte c small, hbyte d ascii] at htoNat
      exact ⟨cs, by rw [Char.toNat_inj.mp htoNat], hrest⟩
    · obtain ⟨rest, hrest⟩ := exists_utf8_cons c cs
      have hfirst := (List.cons_eq_cons.mp (hrest.symm.trans h)).1
      rw [hfirst, hbyte d ascii] at large
      exact absurd ascii (not_lt.mpr large)

theorem dropMark_of_ne {bytes : List UInt8} (h : ∀ rest, bytes ≠ 48 :: 120 :: rest) :
    dropMark bytes = bytes := by
  unfold dropMark
  split
  · exact absurd rfl (h _)
  · rfl

theorem unmarked_of_ne (h : ∀ rest, cs ≠ '0' :: 'x' :: rest) : unmarked cs = cs := by
  unfold unmarked
  split
  · exact absurd rfl (h _)
  · rfl

theorem dropMark_utf8 (cs : List Char) : dropMark (utf8 cs) = utf8 (unmarked cs) := by
  by_cases hmark : ∃ rest, cs = '0' :: 'x' :: rest
  · obtain ⟨rest, rfl⟩ := hmark
    rfl
  · have hbytes : ∀ bytes, utf8 cs ≠ 48 :: 120 :: bytes := by
      intro bytes h
      obtain ⟨tail, rfl, htail⟩ := exists_of_utf8_eq_cons (d := '0') (by decide) h
      obtain ⟨rest, rfl, -⟩ := exists_of_utf8_eq_cons (d := 'x') (by decide) htail
      exact hmark ⟨rest, rfl⟩
    rw [dropMark_of_ne hbytes, unmarked_of_ne (not_exists.mp hmark)]

end Mark

section Reading

theorem ofText_eq (text : String) : ofText text =
    match decodeList (utf8 (unmarked text.toList)) with
    | .error cause => .error (.hex cause)
    | .ok bytes =>
      if h : bytes.length = 32 then .ok ⟨.ofList bytes h⟩ else .error (.length bytes.length) := by
  rw [ofText, utf8_toList]
  cases hbytes : decodeList (utf8 (unmarked text.toList)) <;>
    simp only [ofTextBytes, dropMark_utf8, hbytes]

theorem ofText_of_parsed {outcome : Except NodeIdError NodeId} (h : Parsed text outcome) :
    ofText text = outcome := by
  cases h with
  | id digits =>
    rename_i id
    rw [ofText_eq, decodeList_of_decoded (.bytes digits)]
    dsimp only
    rw [dif_pos id.length_toList]
    exact congrArg (fun raw => Except.ok (NodeId.mk raw)) (FixedBytes.ofList_toList id.raw _)
  | length digits hlength =>
    rw [ofText_eq, decodeList_of_decoded (.bytes digits)]
    exact dif_neg hlength
  | hex h => rw [ofText_eq, decodeList_of_decoded h]

theorem exists_parsed (text : String) : ∃ outcome, Parsed text outcome := by
  obtain ⟨outcome, h⟩ := exists_decoded (unmarked text.toList)
  rcases outcome with cause | bytes
  · exact ⟨_, .hex h⟩
  · have digits : Spells (unmarked text.toList) bytes := by
      cases h with
      | bytes digits => exact digits
    by_cases hlength : bytes.length = 32
    · refine ⟨.ok ⟨.ofList bytes hlength⟩, .id ?_⟩
      rwa [toList, FixedBytes.toList_ofList]
    · exact ⟨_, .length digits hlength⟩

theorem ofText_eq_iff_parsed {outcome : Except NodeIdError NodeId} :
    ofText text = outcome ↔ Parsed text outcome := by
  constructor
  · rintro rfl
    obtain ⟨outcome, h⟩ := exists_parsed text
    rwa [ofText_of_parsed h]
  · exact ofText_of_parsed

end Reading

/--
A text is read as a node id, as a wrong number of bytes, or as no hexadecimal text at all, and it is
one of them by its digits alone. Writing and reading undo each other up to the case of the digits.
-/
theorem ofText_eq_iff_digits :
    (∀ text outcome, ofText text = outcome ↔ Parsed text outcome) ∧
    (∀ text, (∃ id, ofText text = .ok id) ↔
      (unmarked text.toList).length = 64 ∧ ∀ c ∈ unmarked text.toList, IsDigit c) ∧
    (∀ text n, ofText text = .error (.length n) ↔
      (unmarked text.toList).length = 2 * n ∧ (∀ c ∈ unmarked text.toList, IsDigit c) ∧ n ≠ 32) ∧
    (∀ text id, ofText text = .ok id →
      id.toText = "0x" ++ String.ofList ((unmarked text.toList).map Char.toLower)) ∧
    ∀ id, ofText id.toText = .ok id := by
  refine ⟨fun _ _ => ofText_eq_iff_parsed, ?_, ?_, ?_, ofText_toText⟩
  · intro text
    constructor
    · rintro ⟨id, h⟩
      cases ofText_eq_iff_parsed.mp h with
      | id digits => simpa using digits.digits
    · rintro ⟨hlength, digits⟩
      obtain ⟨bytes, h, hbytes⟩ := exists_spells digits (n := 32) hlength
      refine ⟨⟨.ofList bytes hbytes⟩, ofText_of_parsed (.id ?_)⟩
      rwa [toList, FixedBytes.toList_ofList]
  · intro text n
    constructor
    · intro h
      cases ofText_eq_iff_parsed.mp h with
      | length digits hlength => exact ⟨digits.digits.1, digits.digits.2, hlength⟩
    · rintro ⟨hlength, digits, hn⟩
      obtain ⟨bytes, h, rfl⟩ := exists_spells digits hlength
      exact ofText_of_parsed (.length h hn)
  · intro text id h
    cases ofText_eq_iff_parsed.mp h with
    | id digits =>
      rw [← encodeList_of_spells digits]
      rfl

/-- The mark is taken off once, and an odd number of bytes is reported before a character. -/
theorem ofText_of_near_misses :
    ofText "0xABCD" = .error (.length 2) ∧
    ofText "0X12" = .error (.hex (.invalidCharacter 88 1)) ∧
    ofText "0x0x12" = .error (.hex (.invalidCharacter 120 1)) ∧
    ofText "0xé0" = .error (.hex .oddLength) ∧
    ∃ id, ofText (String.ofList (List.replicate 64 'F')) = .ok id ∧
      id.toText = "0x" ++ String.ofList (List.replicate 64 'f') := by
  obtain ⟨hparsed, hid, hlength, hlower, -⟩ := ofText_eq_iff_digits
  have hchars : unmarked (String.ofList (List.replicate 64 'F')).toList =
      List.replicate 64 'F' := by
    rw [String.toList_ofList]
    rfl
  refine ⟨(hlength _ 2).mpr ⟨by decide, by decide, by decide⟩, (hparsed _ _).mpr (.hex ?_),
    (hparsed _ _).mpr (.hex ?_), (hparsed _ _).mpr (.hex (.odd (by decide))), ?_⟩
  · have hchars : unmarked "0X12".toList = ['0'] ++ 'X' :: ['1', '2'] := by decide
    exact .invalid (by decide) hchars (by decide) (by decide)
  · have hchars : unmarked "0x0x12".toList = ['0'] ++ 'x' :: ['1', '2'] := by decide
    exact .invalid (by decide) hchars (by decide) (by decide)
  · obtain ⟨id, h⟩ := (hid (String.ofList (List.replicate 64 'F'))).mpr
      (by rw [hchars]; decide)
    refine ⟨id, h, ?_⟩
    rw [hlower _ id h, hchars]
    rfl

end ColumnSampling.NodeId
