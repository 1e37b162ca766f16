import ColumnSampling.Proofs.Bytes.Endian
import ColumnSampling.Record

/-!
# A number has one written form

The form of a number is 0x80 for zero, the number itself as a byte below 128, and else a header with
the shortest bytes of the number, most significant first. Reading accepts the forms of the 64-bit
numbers and nothing else, and each of these numbers has one form.
-/

namespace ColumnSampling.Rlp

/-- The written forms of numbers. -/
inductive Encodes : ℕ → List UInt8 → Prop
  | zero : Encodes 0 [0x80]
  /-- A number below 128 stands for itself. -/
  | single {n : ℕ} (pos : 0 < n) (small : n < 128) : Encodes n [n.toUInt8]
  /-- Any other has a header that counts its bytes, of which the first is not zero. -/
  | string {n width : ℕ} (large : 128 ≤ n) (short : width ≤ 8) (fits : n < 256 ^ width)
      (shortest : (Endian.big width n).head? ≠ some 0) :
      Encodes n ((128 + width).toUInt8 :: Endian.big width n)

variable {n width width' : ℕ} {bytes bytes' payload : List UInt8}

section Reading

theorem wordOf_eq_ok :
    wordOf bytes = .ok n ↔ bytes.length ≤ 8 ∧ bytes.head? ≠ some 0 ∧ Endian.ofBig bytes = n := by
  unfold wordOf
  split_ifs with long leading
  · simp [long]
  · simp [leading]
  · simp [leading]
    omega

theorem longLength_of_ok {count : ℕ} (h : longLength count bytes = .ok n) : 56 ≤ n := by
  unfold longLength at h
  split_ifs at h
  cases hword : wordOf (bytes.take count) with
  | error cause =>
    rw [hword] at h
    cases h
  | ok m =>
    rw [hword] at h
    dsimp only at h
    split_ifs at h with small
    cases h
    exact not_lt.mp small

theorem decodeWord_eq_ok :
    decodeWord bytes = .ok n ↔
      ∃ payload, header bytes = .ok ⟨false, payload.length, payload⟩ ∧ wordOf payload = .ok n := by
  unfold decodeWord
  cases hheader : header bytes with
  | error cause => simp
  | ok h =>
    obtain ⟨isList, length, rest⟩ := h
    dsimp only
    constructor
    · intro hread
      split_ifs at hread with few list all
      · cases hword : wordOf (rest.take length) with
        | error cause =>
          rw [hword] at hread
          cases hread
        | ok m =>
          rw [hword] at hread
          cases hread
          rw [← all, List.take_length] at hword
          refine ⟨rest, ?_, hword⟩
          rw [all, eq_false_of_ne_true list]
      · cases hword : wordOf (rest.take length) with
        | error cause =>
          rw [hword] at hread
          cases hread
        | ok m =>
          rw [hword] at hread
          cases hread
    · rintro ⟨payload, hfields, hword⟩
      cases hfields
      simp [hword]

theorem toNat_headerByte (short : width ≤ 8) : (128 + width).toUInt8.toNat = 128 + width :=
  UInt8.toNat_ofNat_of_lt' (by rw [UInt8.size]; omega)

/-- How the payload of a number stands in its form: alone below 128, and else behind a header. -/
inductive Framed : (payload : List UInt8) → (bytes : List UInt8) → Prop
  | alone {b : UInt8} (small : b.toNat < 128) : Framed [b] [b]
  | behind {payload : List UInt8} (large : ∀ b : UInt8, payload = [b] → 128 ≤ b.toNat) :
      Framed payload ((128 + payload.length).toUInt8 :: payload)

/-- What the first byte of a header tells. Only payloads that are short and no list matter here. -/
theorem header_cases {b : UInt8} {rest : List UInt8} {h : Header}
    (hread : header (b :: rest) = .ok h) :
    (b.toNat < 128 ∧ h = ⟨false, 1, b :: rest⟩) ∨
      (b = 0x81 ∧ (∀ c : UInt8, rest = [c] → 128 ≤ c.toNat) ∧ h = ⟨false, 1, rest⟩) ∨
      (128 ≤ b.toNat ∧ b ≠ 0x81 ∧ h = ⟨false, b.toNat - 128, rest⟩) ∨
      56 ≤ h.payloadLength ∨ h.isList = true := by
  have le_of_not_lt {c : UInt8} (hc : ¬ c < 0x80) : 128 ≤ c.toNat :=
    not_lt.mp fun hlt => hc (UInt8.lt_iff_toNat_lt.mpr hlt)
  simp only [header] at hread
  split_ifs at hread with alone medium one long
  · cases hread
    exact .inl ⟨UInt8.lt_iff_toNat_lt.mp alone, rfl⟩
  · cases rest with
    | nil => cases hread
    | cons c rest =>
      dsimp only at hread
      split_ifs at hread with below
      cases hread
      refine .inr (.inl ⟨one, ?_, rfl⟩)
      rintro d hd
      cases hd
      exact le_of_not_lt below
  · cases hread
    exact .inr (.inr (.inl ⟨le_of_not_lt alone, one, rfl⟩))
  · cases hlong : longLength (b.toNat - 0xb7) rest with
    | error cause =>
      rw [hlong] at hread
      cases hread
    | ok m =>
      rw [hlong] at hread
      cases hread
      exact .inr (.inr (.inr (.inl (longLength_of_ok hlong))))
  · cases hread
    exact .inr (.inr (.inr (.inr rfl)))
  · cases hlong : longLength (b.toNat - 0xf7) rest with
    | error cause =>
      rw [hlong] at hread
      cases hread
    | ok m =>
      rw [hlong] at hread
      cases hread
      exact .inr (.inr (.inr (.inr rfl)))

theorem framed_of_header (short : payload.length ≤ 8)
    (h : header bytes = .ok ⟨false, payload.length, payload⟩) : Framed payload bytes := by
  cases bytes with
  | nil => cases h
  | cons b rest =>
    rcases header_cases h with ⟨small, hfields⟩ | ⟨rfl, large, hfields⟩ | ⟨low, other, hfields⟩ |
      long | list
    · injection hfields with _ hlength hrest
      subst hrest
      have hnil : rest = [] := List.length_eq_zero_iff.mp (Nat.succ.inj hlength)
      subst hnil
      exact .alone small
    · injection hfields with _ hlength hrest
      subst hrest
      have framed := Framed.behind large
      rwa [hlength] at framed
    · injection hfields with _ hlength hrest
      subst hrest
      have hb : b = (128 + payload.length).toUInt8 := by
        apply UInt8.toNat_inj.mp
        rw [toNat_headerByte short]
        omega
      subst hb
      refine .behind ?_
      rintro d rfl
      exact absurd rfl other
    · exact absurd (long.trans short) (by decide)
    · cases list

theorem header_of_framed (short : payload.length ≤ 8) (h : Framed payload bytes) :
    header bytes = .ok ⟨false, payload.length, payload⟩ := by
  cases h with
  | @alone b small =>
    have alone : b < 0x80 := UInt8.lt_iff_toNat_lt.mpr small
    simp [header, alone]
  | behind large =>
    have hbyte := toNat_headerByte short
    have alone : ¬ (128 + payload.length).toUInt8 < 0x80 := by
      rw [UInt8.lt_iff_toNat_lt, hbyte]
      exact not_lt.mpr (Nat.le_add_right _ _)
    have medium : (128 + payload.length).toUInt8 < 0xb8 := by
      rw [UInt8.lt_iff_toNat_lt, hbyte]
      exact Nat.lt_of_le_of_lt (Nat.add_le_add_left short 128) (by decide)
    simp only [header]
    rw [if_neg alone, if_pos medium]
    by_cases one : payload.length = 1
    · obtain ⟨b, rfl⟩ := List.length_eq_one_iff.mp one
      have below : ¬ b < 0x80 := fun hlt =>
        not_lt.mpr (large b rfl) (UInt8.lt_iff_toNat_lt.mp hlt)
      simp [below]
    · have other : (128 + payload.length).toUInt8 ≠ 0x81 := by
        intro h
        have h := congrArg UInt8.toNat h
        rw [hbyte] at h
        exact one (Nat.add_left_cancel h)
      rw [if_neg other, hbyte, Nat.add_sub_cancel_left]

theorem decodeWord_eq_ok_iff_framed :
    decodeWord bytes = .ok n ↔ ∃ payload, Framed payload bytes ∧ wordOf payload = .ok n := by
  rw [decodeWord_eq_ok]
  constructor
  · rintro ⟨payload, hheader, hword⟩
    exact ⟨payload, framed_of_header (wordOf_eq_ok.mp hword).1 hheader, hword⟩
  · rintro ⟨payload, framed, hword⟩
    exact ⟨payload, header_of_framed (wordOf_eq_ok.mp hword).1 framed, hword⟩

theorem le_ofBig {payload : List UInt8} (filled : payload ≠ []) (shortest : payload.head? ≠ some 0)
    (large : ∀ b : UInt8, payload = [b] → 128 ≤ b.toNat) : 128 ≤ Endian.ofBig payload := by
  by_cases one : payload.length = 1
  · obtain ⟨b, rfl⟩ := List.length_eq_one_iff.mp one
    simpa [Endian.ofBig] using large b rfl
  · have hlength : payload.length ≠ 0 := fun h => filled (List.length_eq_zero_iff.mp h)
    calc 128 ≤ 256 ^ 1 := by decide
      _ ≤ 256 ^ (payload.length - 1) := Nat.pow_le_pow_right (by decide) (by omega)
      _ ≤ Endian.ofBig payload := Endian.pow_le_ofBig filled shortest

theorem encodes_of_framed {payload : List UInt8} (framed : Framed payload bytes)
    (hword : wordOf payload = .ok n) : Encodes n bytes := by
  obtain ⟨short, shortest, rfl⟩ := wordOf_eq_ok.mp hword
  cases framed with
  | @alone b small =>
    have hb : Endian.ofBig [b] = b.toNat := by simp [Endian.ofBig]
    have hform : [b] = [(Endian.ofBig [b]).toUInt8] := by simp [hb, Nat.toUInt8]
    have pos : b.toNat ≠ 0 := fun zero => shortest (congrArg some (UInt8.toNat_inj.mp zero))
    rw [hb] at hform ⊢
    rw [hform]
    exact .single (Nat.pos_of_ne_zero pos) small
  | behind large =>
    by_cases hnil : payload = []
    · subst hnil
      exact .zero
    have hlarge := le_ofBig hnil shortest large
    have hform := Endian.big_ofBig payload
    rw [← hform] at shortest
    have encodes := Encodes.string hlarge short (Endian.ofBig_lt payload) shortest
    rwa [hform] at encodes

theorem framed_of_encodes (h : Encodes n bytes) :
    ∃ payload, Framed payload bytes ∧ wordOf payload = .ok n := by
  cases h with
  | zero => exact ⟨[], @Framed.behind [] (by simp), rfl⟩
  | single pos small =>
    have hb : n.toUInt8.toNat = n := UInt8.toNat_ofNat_of_lt' (by rw [UInt8.size]; omega)
    refine ⟨[n.toUInt8], .alone (hb.trans_lt small), wordOf_eq_ok.mpr ⟨by simp, ?_, ?_⟩⟩
    · intro zero
      have zero := congrArg UInt8.toNat (Option.some.inj zero)
      rw [hb] at zero
      exact pos.ne' zero
    · simp [Endian.ofBig, hb]
  | @string _ width large short fits shortest =>
    have hbig := Endian.ofBig_big fits
    refine ⟨Endian.big width n, ?_, wordOf_eq_ok.mpr ⟨by simpa using short, shortest, hbig⟩⟩
    have hlarge : ∀ b : UInt8, Endian.big width n = [b] → 128 ≤ b.toNat := by
      intro b hb
      rw [hb] at hbig
      have hvalue : b.toNat = n := by simpa [Endian.ofBig] using hbig
      rwa [hvalue]
    have framed := Framed.behind hlarge
    rwa [Endian.length_big] at framed

/-- Bytes that are read as a number are a form of it, and forms are read. -/
theorem decodeWord_eq_ok_iff_encodes : decodeWord bytes = .ok n ↔ Encodes n bytes := by
  rw [decodeWord_eq_ok_iff_framed]
  constructor
  · rintro ⟨payload, framed, hword⟩
    exact encodes_of_framed framed hword
  · exact framed_of_encodes

end Reading

section Writing

theorem Encodes.lt (h : Encodes n bytes) : n < 2 ^ 64 := by
  cases h with
  | zero => decide
  | single _ small => exact small.trans (by decide)
  | string _ short fits _ => exact fits.trans_le (Nat.pow_le_pow_right (by decide) short)

theorem width_le_of_shortest (large : 128 ≤ n) (fits : n < 256 ^ width')
    (fits' : n < 256 ^ width) (shortest : (Endian.big width n).head? ≠ some 0) :
    width ≤ width' := by
  have hne : Endian.big width n ≠ [] := by
    intro h
    have hzero : width = 0 := by rw [← Endian.length_big width n, h]; rfl
    rw [hzero] at fits'
    omega
  have hlow := Endian.pow_le_ofBig hne shortest
  rw [Endian.length_big, Endian.ofBig_big fits'] at hlow
  have hwidth := (Nat.pow_lt_pow_iff_right (by decide : 1 < 256)).mp (hlow.trans_lt fits)
  omega

theorem Encodes.unique (h : Encodes n bytes) (h' : Encodes n bytes') : bytes = bytes' := by
  cases h with
  | zero =>
    cases h' with
    | zero => rfl
    | single pos _ => exact absurd pos (lt_irrefl _)
    | string large _ _ _ => exact absurd large (by decide)
  | single pos small =>
    cases h' with
    | zero => exact absurd pos (lt_irrefl _)
    | single _ _ => rfl
    | string large _ _ _ => exact absurd small (not_lt.mpr large)
  | string large _ fits shortest =>
    cases h' with
    | zero => exact absurd large (by decide)
    | single _ small => exact absurd small (not_lt.mpr large)
    | string _ _ fits' shortest' =>
      have hwidth := le_antisymm (width_le_of_shortest large fits' fits shortest)
        (width_le_of_shortest large fits fits' shortest')
      subst hwidth
      rfl

theorem ofBig_minimalBytes (h : n < 2 ^ 64) : Endian.ofBig (minimalBytes n) = n := by
  rw [minimalBytes, Endian.ofBig_dropWhile]
  exact Endian.ofBig_big h

theorem encodes_encodeWord (h : n < 2 ^ 64) : Encodes n (encodeWord n) := by
  unfold encodeWord
  split_ifs with small
  · exact .single small.1 small.2
  · rcases Nat.eq_zero_or_pos n with rfl | pos
    · exact .zero
    · have large : 128 ≤ n := not_lt.mp fun hlt => small ⟨pos, hlt⟩
      have short : (minimalBytes n).length ≤ 8 := by
        have hle := (List.dropWhile_suffix (fun b : UInt8 => b = 0) (l := Endian.big 8 n)).length_le
        rwa [Endian.length_big] at hle
      have fits := Endian.ofBig_lt (minimalBytes n)
      have hform := Endian.big_ofBig (minimalBytes n)
      rw [ofBig_minimalBytes h] at fits hform
      have shortest : (minimalBytes n).head? ≠ some 0 := by
        intro zero
        have hhead := List.head?_dropWhile_not (fun b : UInt8 => decide (b = 0)) (Endian.big 8 n)
        rw [← minimalBytes, zero] at hhead
        simp at hhead
      have encodes := Encodes.string large short fits (hform.symm ▸ shortest)
      rwa [hform] at encodes

/-- The numbers that have a form are those of 64 bits, and each has one. -/
theorem existsUnique_encodes : (∃! bytes, Encodes n bytes) ↔ n < 2 ^ 64 := by
  constructor
  · rintro ⟨bytes, h, -⟩
    exact h.lt
  · intro h
    exact ⟨encodeWord n, encodes_encodeWord h, fun bytes hbytes =>
      hbytes.unique (encodes_encodeWord h)⟩

end Writing

end ColumnSampling.Rlp
