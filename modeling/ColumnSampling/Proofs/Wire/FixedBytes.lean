import ColumnSampling.Proofs.Outcome
import ColumnSampling.Proofs.Wire.Bytes

/-!
# Which values are byte strings of a fixed length

A commitment, a proof or a signature can be read into a buffer of zeros, which the items of an array
fill place by place. Nothing is ever looked at behind the last place, so it takes three checks to
get exactly the bytes that are listed: each place needs an item, each item has to be a byte, and no
item may be left over. With all three, the buffer reads what the form reads, no zero of it stays
behind and no item is passed over. A byte is a number written with digits alone: `1.0`, `1e0` and
`-0` are none.
-/

namespace ColumnSampling.JsonForm

def numbers (bytes : List UInt8) : List Json := bytes.map fun b => .integer b.toNat

/-- The bytes that a value lists: the numbers of an array, or the bytes of a string. -/
inductive Lists : Json → List UInt8 → Prop
  | array (bytes : List UInt8) : Lists (.array (numbers bytes)) bytes
  | string (text : JsonText) : Lists (.string text) text.bytes

/-- A form reads exactly the values that list `n` bytes, and reads these bytes. -/
def ReadsListed {n : ℕ} (f : JsonForm (FixedBytes n)) : Prop :=
  (∀ j b, f.read j = some b ↔ Lists j b.toList) ∧
  ∀ j, f.read j = none ↔ ∀ bytes, Lists j bytes → bytes.length ≠ n

/-- Why a value does not fill a buffer. -/
inductive FillFault where
  /-- Neither an array nor a string. -/
  | kind
  /-- A string with this many bytes, or an array that ends at this place. -/
  | length (bytes : ℕ)
  /-- What stands at this place is no byte. -/
  | item (place : ℕ)
  /-- Items are left when all places are filled. -/
  | trailing
deriving DecidableEq, Repr

/-- Fills as many places as given, the first one at `place`. The items that were not needed are
left. -/
def fillFrom (place : ℕ) : (places : ℕ) → (buffer : List UInt8) → (items : List Json) →
    Except FillFault (List UInt8 × List Json)
  | 0, buffer, items => .ok (buffer, items)
  | _ + 1, _, [] => .error (.length place)
  | places + 1, buffer, item :: rest =>
    match byte.read item with
    | none => .error (.item place)
    | some b => fillFrom (place + 1) places (buffer.set place b) rest

/-- An array has to be at its end when the buffer is full. -/
def atEnd : List UInt8 × List Json → Except FillFault (List UInt8)
  | (buffer, []) => .ok buffer
  | (_, _ :: _) => .error .trailing

/-- Reads a value into a buffer of zeros. -/
def fill (n : ℕ) : Json → Except FillFault (List UInt8)
  | .array items => fillFrom 0 n (List.replicate n 0) items >>= atEnd
  | .string text =>
    if text.bytes.length = n then .ok text.bytes else .error (.length text.bytes.length)
  | _ => .error .kind

/-- What becomes of a value, for a buffer of `n` places. -/
inductive Filled (n : ℕ) : Json → Except FillFault (List UInt8) → Prop
  | listed {j : Json} {bytes : List UInt8} (h : Lists j bytes) (full : bytes.length = n) :
      Filled n j (.ok bytes)
  | string (text : JsonText) (h : text.bytes.length ≠ n) :
      Filled n (.string text) (.error (.length text.bytes.length))
  | short (bytes : List UInt8) (h : bytes.length < n) :
      Filled n (.array (numbers bytes)) (.error (.length bytes.length))
  | item (bytes : List UInt8) {item : Json} (rest : List Json) (h : bytes.length < n)
      (strange : ∀ b : UInt8, item ≠ .integer b.toNat) :
      Filled n (.array (numbers bytes ++ item :: rest)) (.error (.item bytes.length))
  | long (bytes : List UInt8) (item : Json) (rest : List Json) (h : bytes.length = n) :
      Filled n (.array (numbers bytes ++ item :: rest)) (.error .trailing)
  | kind {j : Json} (array : ∀ items, j ≠ .array items) (string : ∀ text, j ≠ .string text) :
      Filled n j (.error .kind)

variable {n places : ℕ} {j item : Json} {b : UInt8} {bytes done : List UInt8}
  {items rest : List Json} {outcome : Except FillFault (List UInt8)}

section Bytes

@[simp] theorem numbers_nil : numbers [] = [] := rfl

@[simp] theorem numbers_cons (b : UInt8) (bytes : List UInt8) :
    numbers (b :: bytes) = .integer b.toNat :: numbers bytes := rfl

theorem byte_read_eq_some : byte.read item = some b ↔ item = .integer b.toNat := by
  constructor
  · intro h
    cases item with
    | integer m =>
      have hread : (if m < UInt8.size then some m.toUInt8 else none) = some b := h
      split_ifs at hread with small
      have hm : m.toUInt8.toNat = m := UInt8.toNat_ofNat_of_lt' small
      rw [← Option.some.inj hread, hm]
    | _ => cases h
  · rintro rfl
    exact Lawful.read_write b

theorem byte_read_eq_none : byte.read item = none ↔ ∀ b : UInt8, item ≠ .integer b.toNat := by
  rw [Option.eq_none_iff_forall_ne_some]
  simp only [ne_eq, byte_read_eq_some]

/-- Items are read as bytes exactly if they are the numbers of these bytes. -/
theorem readAll_byte_eq_some : byte.readAll items done = some bytes ↔
    ∃ read, items = numbers read ∧ bytes = done.reverse ++ read := by
  constructor
  · intro h
    induction items generalizing done with
    | nil =>
      cases h
      exact ⟨[], rfl, (List.append_nil _).symm⟩
    | cons item items ih =>
      rw [readAll] at h
      cases hitem : byte.read item with
      | none => simp [hitem] at h
      | some b =>
        simp only [hitem] at h
        obtain ⟨read, rfl, rfl⟩ := ih h
        exact ⟨b :: read, by rw [numbers_cons, byte_read_eq_some.mp hitem], by simp⟩
  · rintro ⟨read, rfl, rfl⟩
    exact readAll_map_write byte read done

/-- Items are the numbers of some bytes as far as they are bytes at all, or up to a given number. -/
theorem exists_numbers (n : ℕ) (items : List Json) : ∃ bytes rest, items = numbers bytes ++ rest ∧
    bytes.length ≤ n ∧ (bytes.length < n → ∀ item ∈ rest.head?, byte.read item = none) := by
  induction n generalizing items with
  | zero => exact ⟨[], items, rfl, le_rfl, fun h => absurd h (Nat.lt_irrefl 0)⟩
  | succ n ih =>
    cases items with
    | nil => exact ⟨[], [], rfl, Nat.zero_le _, fun _ _ h => by cases h⟩
    | cons item items =>
      cases hitem : byte.read item with
      | none =>
        refine ⟨[], item :: items, rfl, Nat.zero_le _, fun _ first h => ?_⟩
        cases h
        exact hitem
      | some b =>
        obtain ⟨bytes, rest, rfl, hle, hrest⟩ := ih items
        refine ⟨b :: bytes, rest, ?_, Nat.succ_le_succ hle,
          fun h => hrest (Nat.lt_of_succ_lt_succ h)⟩
        rw [numbers_cons, byte_read_eq_some.mp hitem, List.cons_append]

theorem lists_array : Lists (.array items) bytes ↔ items = numbers bytes := by
  constructor
  · rintro ⟨⟩
    rfl
  · rintro rfl
    exact .array bytes

theorem lists_string {text : JsonText} : Lists (.string text) bytes ↔ text.bytes = bytes := by
  constructor
  · rintro ⟨⟩
    rfl
  · rintro rfl
    exact .string text

end Bytes

section Filling

/-- At each place the buffer holds what was read so far, and zeros behind it. -/
theorem fillFrom_byte (filled : List UInt8) (b : UInt8) (rest : List Json) :
    fillFrom filled.length (places + 1) (filled ++ List.replicate (places + 1) 0)
        (.integer b.toNat :: rest) =
      fillFrom (filled ++ [b]).length places (filled ++ [b] ++ List.replicate places 0) rest := by
  have hset : (filled ++ List.replicate (places + 1) 0).set filled.length b =
      filled ++ [b] ++ List.replicate places 0 := by
    simp [List.replicate_succ]
  rw [fillFrom, byte_read_eq_some.mpr rfl, List.length_append]
  dsimp only
  rw [hset]
  rfl

theorem fillFrom_numbers (filled : List UInt8) (h : bytes.length ≤ places) :
    fillFrom filled.length places (filled ++ List.replicate places 0) (numbers bytes ++ rest) =
      fillFrom (filled ++ bytes).length (places - bytes.length)
        (filled ++ bytes ++ List.replicate (places - bytes.length) 0) rest := by
  induction bytes generalizing filled places with
  | nil => simp
  | cons b bytes ih =>
    obtain ⟨places, rfl⟩ : ∃ m, places = m + 1 := Nat.exists_eq_add_one.mpr (Nat.zero_lt_of_lt h)
    have hrest : bytes.length ≤ places := Nat.le_of_succ_le_succ h
    rw [numbers_cons, List.cons_append, fillFrom_byte, ih _ hrest, List.length_cons,
      Nat.add_sub_add_right, List.append_assoc filled, List.singleton_append]

theorem fill_array (h : bytes.length ≤ n) : fill n (.array (numbers bytes ++ rest)) =
    fillFrom bytes.length (n - bytes.length) (bytes ++ List.replicate (n - bytes.length) 0) rest >>=
      atEnd :=
  congrArg (· >>= atEnd) (fillFrom_numbers [] h)

theorem fill_of_filled (h : Filled n j outcome) : fill n j = outcome := by
  have missing : ∀ {bytes : List UInt8}, bytes.length < n → ∃ m, n - bytes.length = m + 1 :=
    fun h => Nat.exists_eq_add_one.mpr (Nat.sub_pos_of_lt h)
  cases h with
  | listed listed full =>
    cases listed with
    | array bytes =>
      rw [← List.append_nil (numbers _), fill_array full.le, full, Nat.sub_self,
        List.replicate_zero, List.append_nil]
      rfl
    | string text => exact if_pos full
  | string text h => exact if_neg h
  | short bytes h =>
    obtain ⟨m, hm⟩ := missing h
    rw [← List.append_nil (numbers _), fill_array h.le, hm]
    rfl
  | item bytes rest h strange =>
    obtain ⟨m, hm⟩ := missing h
    rw [fill_array h.le, hm, fillFrom, byte_read_eq_none.mpr strange]
    rfl
  | long bytes item rest h =>
    rw [fill_array h.le, h, Nat.sub_self]
    rfl
  | kind array string =>
    cases j with
    | array items => exact absurd rfl (array items)
    | string text => exact absurd rfl (string text)
    | _ => rfl

theorem exists_filled (n : ℕ) (j : Json) : ∃ outcome, Filled n j outcome := by
  cases j with
  | array items =>
    obtain ⟨bytes, rest, rfl, hle, hrest⟩ := exists_numbers n items
    cases rest with
    | nil =>
      rw [List.append_nil]
      rcases hle.lt_or_eq with hlt | hfull
      · exact ⟨_, .short bytes hlt⟩
      · exact ⟨_, .listed (.array bytes) hfull⟩
    | cons item rest =>
      rcases hle.lt_or_eq with hlt | hfull
      · exact ⟨_, .item bytes rest hlt (byte_read_eq_none.mp (hrest hlt item rfl))⟩
      · exact ⟨_, .long bytes item rest hfull⟩
  | string text =>
    by_cases h : text.bytes.length = n
    · exact ⟨_, .listed (.string text) h⟩
    · exact ⟨_, .string text h⟩
  | _ => exact ⟨_, .kind nofun nofun⟩

theorem fill_eq_iff_filled : fill n j = outcome ↔ Filled n j outcome := by
  constructor
  · rintro rfl
    obtain ⟨outcome, h⟩ := exists_filled n j
    rwa [fill_of_filled h]
  · exact fill_of_filled

theorem fill_eq_ok : fill n j = .ok bytes ↔ Lists j bytes ∧ bytes.length = n := by
  rw [fill_eq_iff_filled]
  constructor
  · rintro ⟨h, full⟩
    exact ⟨h, full⟩
  · exact fun ⟨h, full⟩ => .listed h full

end Filling

section Forms

variable {b : FixedBytes n}

theorem sized_eq_some :
    (if h : bytes.length = n then some (FixedBytes.ofList bytes h) else none) = some b ↔
      bytes = b.toList := by
  constructor
  · intro h
    split_ifs at h with full
    rw [← Option.some.inj h, FixedBytes.toList_ofList]
  · rintro rfl
    rw [dif_pos b.length_toList, FixedBytes.ofList_toList]

theorem fixed_read_eq_some : (fixed n).read j = some b ↔ Lists j b.toList := by
  cases j with
  | array items =>
    have hread : (fixed n).read (.array items) = some b ↔
        byte.readAll items [] = some b.toList := by
      simp only [fixed, Option.bind_eq_some_iff, sized_eq_some, exists_eq_right]
    rw [hread, readAll_byte_eq_some, lists_array]
    simp [eq_comm]
  | string text =>
    have hread : (fixed n).read (.string text) = some b ↔ text.bytes = b.toList := by
      simp only [fixed, Option.bind_some, sized_eq_some]
    rw [hread, lists_string]
  | _ => constructor <;> rintro ⟨⟩

theorem readsListed_fixed (n : ℕ) : (fixed n).ReadsListed := by
  refine ⟨fun _ _ => fixed_read_eq_some, fun j => ?_⟩
  constructor
  · intro hnone bytes listed full
    have hread : (fixed n).read j = some (.ofList bytes full) := by
      rwa [fixed_read_eq_some, FixedBytes.toList_ofList]
    rw [hnone] at hread
    cases hread
  · intro h
    by_contra hsome
    obtain ⟨b, hb⟩ := Option.ne_none_iff_exists'.mp hsome
    exact h _ (fixed_read_eq_some.mp hb) b.length_toList

/-- The buffer holds what the form reads, and is not filled where the form reads nothing. -/
theorem map_fixed_read (n : ℕ) (j : Json) :
    ((fixed n).read j).map FixedBytes.toList = (fill n j).toOption := by
  ext bytes
  rw [Outcome.toOption_eq_some, fill_eq_ok, Option.map_eq_some_iff]
  constructor
  · rintro ⟨b, hb, rfl⟩
    exact ⟨fixed_read_eq_some.mp hb, b.length_toList⟩
  · rintro ⟨listed, full⟩
    refine ⟨.ofList bytes full, ?_, FixedBytes.toList_ofList bytes full⟩
    rwa [fixed_read_eq_some, FixedBytes.toList_ofList]

end Forms

/--
Commitments, proofs and signatures are read from the values that list as many bytes as they have,
and from no others. A buffer that is filled place by place comes to the same: what becomes of a
value, with the first fault of one that is not read, is told by its items alone.
-/
theorem fixed_bytes_read_as_listed :
    commitment.ReadsListed ∧ proof.ReadsListed ∧ signature.ReadsListed ∧
    (∀ n j outcome, fill n j = outcome ↔ Filled n j outcome) ∧
    ∀ n j, ((fixed n).read j).map FixedBytes.toList = (fill n j).toOption :=
  ⟨readsListed_fixed 48, readsListed_fixed 48, readsListed_fixed 96,
    fun _ _ _ => fill_eq_iff_filled, map_fixed_read⟩

/-- A letter of two bytes fills two places, and three numbers are one too many. -/
example : fill 2 (.text "é") = .ok [0xc3, 0xa9] ∧
    fill 2 (.array (numbers [1, 2, 3])) = .error .trailing := ⟨rfl, rfl⟩

end ColumnSampling.JsonForm
