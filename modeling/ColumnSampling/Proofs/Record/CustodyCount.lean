import ColumnSampling.Proofs.Record.Rlp
import ColumnSampling.Record

/-!
# The count that a record announces

A count is read only from the one form of its number, so a peer can announce every count, and none
in two ways.
-/

namespace ColumnSampling.NodeRecord

open Rlp

variable {record : NodeRecord} {bytes : List UInt8}

theorem custodyCount_of_field (field : record.lookup custodyCountKey = some bytes)
    (p : Parameters) :
    record.custodyCount p = match decodeWord bytes with
      | .error cause => .error (.decode custodyCountKey cause)
      | .ok value =>
        if p.groups < value then .error (.outOfRange value p.groups) else .ok value := by
  cases hword : decodeWord bytes <;> simp only [custodyCount, field, hword]

theorem custodyCount_eq_ok (field : record.lookup custodyCountKey = some bytes)
    (p : Parameters) (n : ℕ) :
    record.custodyCount p = .ok n ↔ Encodes n bytes ∧ n ≤ p.groups := by
  rw [custodyCount_of_field field, ← decodeWord_eq_ok_iff_encodes]
  cases decodeWord bytes with
  | error cause => simp
  | ok value =>
    dsimp only
    split_ifs with above
    · constructor
      · rintro ⟨⟩
      · rintro ⟨⟨⟩, hle⟩
        exact absurd above (not_lt.mpr hle)
    · constructor
      · rintro ⟨⟩
        exact ⟨rfl, not_lt.mp above⟩
      · rintro ⟨⟨⟩, -⟩
        rfl

theorem custodyCount_eq_outOfRange (field : record.lookup custodyCountKey = some bytes)
    (p : Parameters) (n max : ℕ) :
    record.custodyCount p = .error (.outOfRange n max) ↔
      Encodes n bytes ∧ p.groups < n ∧ max = p.groups := by
  rw [custodyCount_of_field field, ← decodeWord_eq_ok_iff_encodes]
  cases decodeWord bytes with
  | error cause => simp
  | ok value =>
    dsimp only
    split_ifs with above
    · constructor
      · rintro ⟨⟩
        exact ⟨rfl, above, rfl⟩
      · rintro ⟨⟨⟩, -, rfl⟩
        rfl
    · constructor
      · rintro ⟨⟩
      · rintro ⟨⟨⟩, habove, -⟩
        exact absurd habove above

theorem custodyCount_eq_decode (field : record.lookup custodyCountKey = some bytes)
    (p : Parameters) :
    (∃ cause, record.custodyCount p = .error (.decode custodyCountKey cause)) ↔
      ∀ n, ¬ Encodes n bytes := by
  rw [custodyCount_of_field field]
  simp only [← decodeWord_eq_ok_iff_encodes]
  cases decodeWord bytes with
  | error cause => simp
  | ok value =>
    dsimp only
    split_ifs <;> simp

/--
A count is read exactly from the form of a number that is not above the number of groups. The form
of a greater number is out of range, and all other bytes cannot be decoded. Every 64-bit number has
one form, so no two fields announce one count.
-/
theorem custodyCount_eq_iff_encodes (p : Parameters) :
    (∀ (record : NodeRecord) bytes, record.lookup custodyCountKey = some bytes →
      (∀ n, record.custodyCount p = .ok n ↔ Encodes n bytes ∧ n ≤ p.groups) ∧
      (∀ n max, record.custodyCount p = .error (.outOfRange n max) ↔
        Encodes n bytes ∧ p.groups < n ∧ max = p.groups) ∧
      ((∃ cause, record.custodyCount p = .error (.decode custodyCountKey cause)) ↔
        ∀ n, ¬ Encodes n bytes)) ∧
    (∀ n, (∃! bytes, Encodes n bytes) ↔ n < 2 ^ 64) ∧
    ∀ (record record' : NodeRecord) bytes bytes' n, record.lookup custodyCountKey = some bytes →
      record'.lookup custodyCountKey = some bytes' → record.custodyCount p = .ok n →
      record'.custodyCount p = .ok n → bytes = bytes' := by
  refine ⟨fun record bytes field => ⟨custodyCount_eq_ok field p, custodyCount_eq_outOfRange field p,
    custodyCount_eq_decode field p⟩, fun n => existsUnique_encodes, ?_⟩
  intro record record' bytes bytes' n field field' h h'
  have hform := ((custodyCount_eq_ok field p n).mp h).1
  have hform' := ((custodyCount_eq_ok field' p n).mp h').1
  exact hform.unique hform'

def announcing (bytes : List UInt8) : NodeRecord := [("id", [0x76, 0x34]), (custodyCountKey, bytes)]

/--
On the main network 128 is the greatest count that is read. The form of 129 is out of range, and
zero as a byte, 128 with a leading zero, a list, and a form that is cut or followed by a byte are
none.
-/
theorem custodyCount_of_128 :
    (announcing [0x81, 0x80]).custodyCount {} = .ok 128 ∧
      (announcing [0x81, 0x81]).custodyCount {} = .error (.outOfRange 129 128) ∧
      ∀ bytes ∈ [[], [0x00], [0x82, 0x00, 0x80], [0xc1, 0x05], [0x81], [0x81, 0x80, 0x00],
          [0xb8, 0x01, 0x80]],
        ∀ n, ¬ Encodes n bytes := by
  obtain ⟨answers, -, -⟩ := custodyCount_eq_iff_encodes {}
  refine ⟨?_, ?_, ?_⟩
  · obtain ⟨hok, -, -⟩ := answers (announcing [0x81, 0x80]) [0x81, 0x80] rfl
    exact (hok 128).mpr ⟨encodes_encodeWord (n := 128) (by decide), by decide⟩
  · obtain ⟨-, hrange, -⟩ := answers (announcing [0x81, 0x81]) [0x81, 0x81] rfl
    exact (hrange 129 128).mpr ⟨encodes_encodeWord (n := 129) (by decide), by decide, rfl⟩
  · intro bytes hbytes
    obtain ⟨-, -, hnone⟩ := answers (announcing bytes) bytes rfl
    apply hnone.mp
    simp only [List.mem_cons, List.not_mem_nil, or_false] at hbytes
    rcases hbytes with rfl | rfl | rfl | rfl | rfl | rfl | rfl <;> exact ⟨_, rfl⟩

end ColumnSampling.NodeRecord
