import ColumnSampling.Json.Printer
import ColumnSampling.Proofs.Json.Grammar

/-!
# Every value is read back

Both texts of a value spell it, the one without blanks and the one on many lines, so both are read
as that value. This is so of every value that something is written as; what is kept only because it
was read, such as a string that is no text, is not written as it stands.
-/

namespace ColumnSampling.Json

mutual

/-- Whether a value is one that something is written as. -/
def isPlain : Json → Bool
  | .null => true
  | .bool _ => true
  | .integer _ => true
  | .number _ => false
  | .string (.plain _) => true
  | .string (.raw _ _) => false
  | .array items => itemsPlain items
  | .object members => membersPlain members
  | .malformed => false

def itemsPlain : List Json → Bool
  | [] => true
  | item :: rest => item.isPlain && itemsPlain rest

def membersPlain : List (JsonText × Json) → Bool
  | [] => true
  | (.plain _, value) :: rest => value.isPlain && membersPlain rest
  | (.raw _ _, _) :: _ => false

end

variable {part : Part} {cs rest : List Char}

section NewLine

theorem skipBlanks_newLine (level : ℕ) (rest : List Char) :
    skipBlanks (newLine level rest) = skipBlanks rest := by
  have hspaces : ∀ n, skipBlanks (List.replicate n ' ' ++ rest) = skipBlanks rest := by
    intro n
    induction n with
    | zero => rfl
    | succ n ih => rw [List.replicate_succ, List.cons_append, skipBlanks_cons rfl, ih]
  rw [newLine, skipBlanks_cons rfl, hspaces]

theorem Spells.newLine (level : ℕ) (h : Spells part cs rest) :
    Spells part (newLine level cs) rest := by
  have hspaces : ∀ n, Spells part (List.replicate n ' ' ++ cs) rest := by
    intro n
    induction n with
    | zero => exact h
    | succ n ih => exact .blank rfl ih
  exact .blank rfl (hspaces _)

end NewLine

mutual

theorem spells_write : (value : Json) → (plain : value.isPlain = true) → {rest : List Char} →
    (ends : endsNumber rest = true) → Spells (.value value) (value.write rest) rest
  | .null, _, rest, _ => .null rest
  | .bool true, _, rest, _ => .yes rest
  | .bool false, _, rest, _ => .no rest
  | .integer n, _, _, ends => .integer n ends
  | .string (.plain text), _, rest, _ => .string text rest
  | .array [], _, _, _ => .noItems rfl
  | .array (item :: items), plain, rest, _ => by
    have hitems : itemsPlain (item :: items) = true := by simpa [isPlain] using plain
    exact .array (spells_writeItems (item :: items) (List.cons_ne_nil _ _) hitems rest)
  | .object [], _, _, _ => .noMembers rfl
  | .object (member :: members), plain, rest, _ => by
    have hmembers : membersPlain (member :: members) = true := by simpa [isPlain] using plain
    exact .object (spells_writeMembers (member :: members) (List.cons_ne_nil _ _) hmembers rest)

theorem spells_writeItems : (items : List Json) → (filled : items ≠ []) →
    (plain : itemsPlain items = true) → (rest : List Char) →
    Spells (.items items) (writeItems items (']' :: rest)) rest
  | [], filled, _, _ => absurd rfl filled
  | [item], _, plain, rest => by
    obtain ⟨hitem, -⟩ := (Bool.and_eq_true _ _).mp plain
    exact .lastItem (spells_write item hitem rfl) rfl
  | item :: next :: items, _, plain, rest => by
    obtain ⟨hitem, hitems⟩ := (Bool.and_eq_true _ _).mp plain
    exact .item (spells_write item hitem rfl) rfl
      (spells_writeItems (next :: items) (List.cons_ne_nil _ _) hitems rest)

theorem spells_writeMembers : (members : List (JsonText × Json)) → (filled : members ≠ []) →
    (plain : membersPlain members = true) → (rest : List Char) →
    Spells (.members members) (writeMembers members ('\x7d' :: rest)) rest
  | [], filled, _, _ => absurd rfl filled
  | [(.plain key, value)], _, plain, rest => by
    obtain ⟨hvalue, -⟩ := (Bool.and_eq_true _ _).mp plain
    exact .lastMember key rfl (spells_write value hvalue rfl) rfl
  | (.plain key, value) :: next :: members, _, plain, rest => by
    obtain ⟨hvalue, hmembers⟩ := (Bool.and_eq_true _ _).mp plain
    exact .member key rfl (spells_write value hvalue rfl) rfl
      (spells_writeMembers (next :: members) (List.cons_ne_nil _ _) hmembers rest)

end

mutual

theorem spells_writePretty : (value : Json) → (plain : value.isPlain = true) → (level : ℕ) →
    {rest : List Char} → (ends : endsNumber rest = true) →
    Spells (.value value) (value.writePretty level rest) rest
  | .null, _, _, rest, _ => .null rest
  | .bool true, _, _, rest, _ => .yes rest
  | .bool false, _, _, rest, _ => .no rest
  | .integer n, _, _, _, ends => .integer n ends
  | .string (.plain text), _, _, rest, _ => .string text rest
  | .array [], _, _, _, _ => .noItems rfl
  | .array (item :: items), plain, level, rest, _ => by
    have hitems : itemsPlain (item :: items) = true := by simpa [isPlain] using plain
    have hclosed : skipBlanks (newLine level (']' :: rest)) = ']' :: rest :=
      skipBlanks_newLine level _
    exact .array (.newLine (level + 1)
      (spells_writePrettyItems (item :: items) (List.cons_ne_nil _ _) hitems
        (level + 1) rfl hclosed))
  | .object [], _, _, _, _ => .noMembers rfl
  | .object (member :: members), plain, level, rest, _ => by
    have hmembers : membersPlain (member :: members) = true := by simpa [isPlain] using plain
    have hclosed : skipBlanks (newLine level ('\x7d' :: rest)) = '\x7d' :: rest :=
      skipBlanks_newLine level _
    exact .object (.newLine (level + 1) (spells_writePrettyMembers (member :: members)
      (List.cons_ne_nil _ _) hmembers (level + 1) rfl hclosed))

theorem spells_writePrettyItems : (items : List Json) → (filled : items ≠ []) →
    (plain : itemsPlain items = true) → (level : ℕ) → {mid rest : List Char} →
    (ends : endsNumber mid = true) → (closed : skipBlanks mid = ']' :: rest) →
    Spells (.items items) (writePrettyItems items level mid) rest
  | [], filled, _, _, _, _, _, _ => absurd rfl filled
  | [item], _, plain, level, _, _, ends, closed => by
    obtain ⟨hitem, -⟩ := (Bool.and_eq_true _ _).mp plain
    exact .lastItem (spells_writePretty item hitem level ends) closed
  | item :: next :: items, _, plain, level, _, _, ends, closed => by
    obtain ⟨hitem, hitems⟩ := (Bool.and_eq_true _ _).mp plain
    exact .item (spells_writePretty item hitem level rfl) rfl (.newLine level
      (spells_writePrettyItems (next :: items) (List.cons_ne_nil _ _) hitems level ends closed))

theorem spells_writePrettyMembers : (members : List (JsonText × Json)) → (filled : members ≠ []) →
    (plain : membersPlain members = true) → (level : ℕ) → {mid rest : List Char} →
    (ends : endsNumber mid = true) → (closed : skipBlanks mid = '\x7d' :: rest) →
    Spells (.members members) (writePrettyMembers members level mid) rest
  | [], filled, _, _, _, _, _, _ => absurd rfl filled
  | [(.plain key, value)], _, plain, level, _, _, ends, closed => by
    obtain ⟨hvalue, -⟩ := (Bool.and_eq_true _ _).mp plain
    exact .lastMember key rfl (.blank rfl (spells_writePretty value hvalue level ends)) closed
  | (.plain key, value) :: next :: members, _, plain, level, _, _, ends, closed => by
    obtain ⟨hvalue, hmembers⟩ := (Bool.and_eq_true _ _).mp plain
    exact .member key rfl (.blank rfl (spells_writePretty value hvalue level rfl)) rfl
      (.newLine level (spells_writePrettyMembers (next :: members) (List.cons_ne_nil _ _) hmembers
        level ends closed))

end

/-- The text without blanks is read as the value. -/
theorem parse_compact {value : Json} (plain : value.isPlain = true) :
    parse value.compact = some value := by
  rw [parse, compact, String.toList_ofList]
  exact ofChars_of_spells (spells_write value plain rfl)

theorem parse_pretty {value : Json} (plain : value.isPlain = true) :
    parse value.pretty = some value := by
  rw [parse, pretty, String.toList_ofList]
  exact ofChars_of_spells (spells_writePretty value plain 0 rfl)

end ColumnSampling.Json
