import ColumnSampling.Json.Parser
import ColumnSampling.Proofs.Json.Scalar

/-!
# What a text spells

A text of a value is told by its grammar: which tokens it has, with blanks in front of each of them.
The grammar leaves out what no value is written with, such as fractions and needless escapes.
Whatever is spelled by it is read as the value it spells, and the steps that reading takes are
bounded by twice the length of the text.
-/

namespace ColumnSampling.Json

/-- What is spelled: a value, or what is left of an array or object that has been opened. -/
inductive Part where
  | value (v : Json)
  | items (l : List Json)
  | members (l : List (JsonText × Json))

/-- `Spells part cs rest` holds if `part` stands at the front of `cs`, and `rest` is left
after it. -/
inductive Spells : Part → List Char → List Char → Prop
  | blank {part : Part} {c : Char} {cs rest : List Char} (hc : isBlank c = true)
      (h : Spells part cs rest) : Spells part (c :: cs) rest
  | null (rest : List Char) : Spells (.value .null) ('n' :: 'u' :: 'l' :: 'l' :: rest) rest
  | yes (rest : List Char) :
      Spells (.value (.bool true)) ('t' :: 'r' :: 'u' :: 'e' :: rest) rest
  | no (rest : List Char) :
      Spells (.value (.bool false)) ('f' :: 'a' :: 'l' :: 's' :: 'e' :: rest) rest
  | integer (n : ℕ) {rest : List Char} (ends : endsNumber rest = true) :
      Spells (.value (.integer n)) (Nat.toDigits 10 n ++ rest) rest
  | string (text : String) (rest : List Char) :
      Spells (.value (.text text)) (writeText (.plain text) rest) rest
  | noItems {cs rest : List Char} (closed : skipBlanks cs = ']' :: rest) :
      Spells (.value (.array [])) ('[' :: cs) rest
  | array {l : List Json} {cs rest : List Char} (h : Spells (.items l) cs rest) :
      Spells (.value (.array l)) ('[' :: cs) rest
  | lastItem {item : Json} {cs mid rest : List Char} (h : Spells (.value item) cs mid)
      (closed : skipBlanks mid = ']' :: rest) : Spells (.items [item]) cs rest
  | item {item : Json} {l : List Json} {cs mid next rest : List Char}
      (h : Spells (.value item) cs mid) (comma : skipBlanks mid = ',' :: next)
      (hl : Spells (.items l) next rest) : Spells (.items (item :: l)) cs rest
  | noMembers {cs rest : List Char} (closed : skipBlanks cs = '\x7d' :: rest) :
      Spells (.value (.object [])) ('\x7b' :: cs) rest
  | object {l : List (JsonText × Json)} {cs rest : List Char} (h : Spells (.members l) cs rest) :
      Spells (.value (.object l)) ('\x7b' :: cs) rest
  | lastMember (key : String) {value : Json} {colon cs mid rest : List Char}
      (hcolon : skipBlanks colon = ':' :: cs) (h : Spells (.value value) cs mid)
      (closed : skipBlanks mid = '\x7d' :: rest) :
      Spells (.members [(.plain key, value)]) (writeText (.plain key) colon) rest
  | member (key : String) {value : Json} {l : List (JsonText × Json)}
      {colon cs mid next rest : List Char} (hcolon : skipBlanks colon = ':' :: cs)
      (h : Spells (.value value) cs mid) (comma : skipBlanks mid = ',' :: next)
      (hl : Spells (.members l) next rest) :
      Spells (.members ((.plain key, value) :: l)) (writeText (.plain key) colon) rest

def Reads (fuel : ℕ) : Part → List Char → List Char → Prop
  | .value v, cs, rest => readValue fuel cs = some (v, rest)
  | .items l, cs, rest =>
    ∀ done, readItems fuel cs done = some (.array (done.reverse ++ l), rest)
  | .members l, cs, rest =>
    ∀ done, readMembers fuel cs done = some (.object (done.reverse ++ l), rest)

variable {part : Part} {cs rest : List Char} {fuel : ℕ}

section Blanks

theorem skipBlanks_cons {c : Char} (hc : isBlank c = true) : skipBlanks (c :: cs) = skipBlanks cs :=
  List.dropWhile_cons_of_pos hc

theorem skipBlanks_of_not {c : Char} (hc : ¬ isBlank c = true) :
    skipBlanks (c :: cs) = c :: cs :=
  List.dropWhile_cons_of_neg hc

theorem skipBlanks_skipBlanks (cs : List Char) : skipBlanks (skipBlanks cs) = skipBlanks cs := by
  induction cs with
  | nil => rfl
  | cons c cs ih =>
    by_cases hc : isBlank c = true
    · rw [skipBlanks_cons hc, ih]
    · rw [skipBlanks_of_not hc, skipBlanks_of_not hc]

theorem length_lt_of_skipBlanks {c : Char} (h : skipBlanks cs = c :: rest) :
    rest.length < cs.length := by
  have hle : (skipBlanks cs).length ≤ cs.length := (List.dropWhile_sublist _).length_le
  rw [h] at hle
  exact hle

theorem readValue_skipBlanks (fuel : ℕ) (cs : List Char) :
    readValue fuel (skipBlanks cs) = readValue fuel cs := by
  cases fuel with
  | zero => rfl
  | succ fuel => rw [readValue, readValue, skipBlanks_skipBlanks]

theorem reads_skipBlanks : Reads fuel part (skipBlanks cs) rest ↔ Reads fuel part cs rest := by
  cases fuel with
  | zero => cases part <;> simp [Reads, readValue, readItems, readMembers]
  | succ fuel =>
    cases part with
    | value v => simp only [Reads, readValue_skipBlanks]
    | items l =>
      simp only [Reads, readItems, readValue_skipBlanks, readMalformed, skipBlanks_skipBlanks]
    | members l => simp only [Reads, readMembers, skipBlanks_skipBlanks]

end Blanks

section Opened

theorem not_isBlank_of_isDigit {c : Char} (hc : c.isDigit = true) : ¬ isBlank c = true := by
  simp only [isBlank, Bool.or_eq_true, decide_eq_true_eq]
  rintro (((h | h) | h) | h) <;> exact ne_of_isDigit hc rfl h

theorem readValue_of_isDigit {c : Char} (hc : c.isDigit = true) :
    readValue (fuel + 1) (c :: cs) = readNumber (c :: cs) := by
  have hfirst : ∀ {d : Char} {tail : List Char}, d.isDigit = false → c :: cs ≠ d :: tail := by
    intro d tail hd heq
    exact ne_of_isDigit hc hd (List.cons.inj heq).1
  rw [readValue, skipBlanks_of_not (not_isBlank_of_isDigit hc)]
  split
  · next heq => exact absurd heq (hfirst rfl)
  · next heq => exact absurd heq (hfirst rfl)
  · next heq => exact absurd heq (hfirst rfl)
  · next heq => exact absurd heq (hfirst rfl)
  · next heq => exact absurd heq (hfirst rfl)
  · next heq => exact absurd heq (hfirst rfl)
  · rfl

theorem readValue_string (text : String) (rest : List Char) :
    readValue (fuel + 1) (writeText (.plain text) rest) = some (.text text, rest) := by
  have hopen : skipBlanks (writeText (.plain text) rest) = writeText (.plain text) rest := rfl
  rw [readValue, hopen]
  simp only [writeText, readString_foldr]
  rfl

theorem readValue_array (h : ∃ c tail, skipBlanks cs = c :: tail ∧ c ≠ ']' ∧ c ≠ '\x7d') :
    readValue (fuel + 1) ('[' :: cs) = readItems fuel (skipBlanks cs) [] := by
  obtain ⟨c, tail, hcons, hc, -⟩ := h
  have hopen : skipBlanks ('[' :: cs) = '[' :: cs := rfl
  simp only [readValue, hopen, hcons]
  split
  · next heq => exact absurd (List.cons.inj heq).1 hc
  · rfl

theorem readValue_object (h : ∃ c tail, skipBlanks cs = c :: tail ∧ c ≠ ']' ∧ c ≠ '\x7d') :
    readValue (fuel + 1) ('\x7b' :: cs) = readMembers fuel (skipBlanks cs) [] := by
  obtain ⟨c, tail, hcons, -, hc⟩ := h
  have hopen : skipBlanks ('\x7b' :: cs) = '\x7b' :: cs := rfl
  simp only [readValue, hopen, hcons]
  split
  · next heq => exact absurd (List.cons.inj heq).1 hc
  · rfl

section Member

variable {key : String} {value : Json} {colon mid : List Char}
  (hcolon : skipBlanks colon = ':' :: cs)
  (h : readValue fuel cs = some (value, mid)) (done : List (JsonText × Json))

include hcolon h

theorem readMembers_comma {next : List Char} (comma : skipBlanks mid = ',' :: next) :
    readMembers (fuel + 1) (writeText (.plain key) colon) done =
      readMembers fuel next ((.plain key, value) :: done) := by
  have hopen : skipBlanks (writeText (.plain key) colon) = writeText (.plain key) colon := rfl
  rw [readMembers, hopen]
  simp only [writeText, readString_foldr, hcolon, h, comma]

theorem readMembers_closed (closed : skipBlanks mid = '\x7d' :: rest) :
    readMembers (fuel + 1) (writeText (.plain key) colon) done =
      some (.object ((.plain key, value) :: done).reverse, rest) := by
  have hopen : skipBlanks (writeText (.plain key) colon) = writeText (.plain key) colon := rfl
  rw [readMembers, hopen]
  simp only [writeText, readString_foldr, hcolon, h, closed]

end Member

end Opened

theorem length_writeText_lt (text : String) (rest : List Char) :
    rest.length < (writeText (.plain text) rest).length := by
  have hchar : ∀ c (rest : List Char), rest.length ≤ (writeChar c rest).length := by
    intro c rest
    unfold writeChar
    split_ifs <;> simp only [List.length_cons] <;> omega
  have hfold : ∀ cs : List Char, rest.length < (cs.foldr writeChar ('"' :: rest)).length := by
    intro cs
    induction cs with
    | nil => simp
    | cons c cs ih => exact ih.trans_le (hchar c _)
  exact (hfold text.toList).trans (Nat.lt_succ_self _)

theorem length_lt_of_key (key : String) {colon : List Char}
    (hcolon : skipBlanks colon = ':' :: cs) :
    cs.length < (writeText (.plain key) colon).length :=
  (length_lt_of_skipBlanks hcolon).trans (length_writeText_lt key colon)

namespace Spells

theorem length_lt (h : Spells part cs rest) : rest.length < cs.length := by
  induction h with
  | blank hc h ih => exact ih.trans (Nat.lt_succ_self _)
  | null | yes | no =>
    simp only [List.length_cons]
    omega
  | integer n ends =>
    have hpos : 0 < (Nat.toDigits 10 n).length := Nat.length_toDigits_pos
    rw [List.length_append]
    omega
  | string text rest => exact length_writeText_lt text rest
  | noItems closed | noMembers closed =>
    exact (length_lt_of_skipBlanks closed).trans (Nat.lt_succ_self _)
  | array h ih | object h ih => exact ih.trans (Nat.lt_succ_self _)
  | lastItem h closed ih => exact (length_lt_of_skipBlanks closed).trans ih
  | item h comma hl ih ihl => exact ihl.trans ((length_lt_of_skipBlanks comma).trans ih)
  | lastMember key hcolon h closed ih =>
    exact (length_lt_of_skipBlanks closed).trans (ih.trans (length_lt_of_key key hcolon))
  | member key hcolon h comma hl ih ihl =>
    exact ihl.trans ((length_lt_of_skipBlanks comma).trans
      (ih.trans (length_lt_of_key key hcolon)))

theorem exists_first (h : Spells part cs rest) :
    ∃ c tail, skipBlanks cs = c :: tail ∧ c ≠ ']' ∧ c ≠ '\x7d' := by
  induction h with
  | blank hc h ih => rwa [skipBlanks_cons hc]
  | integer n ends =>
    obtain ⟨c, tail, hcons, hdigit⟩ := exists_first_digit n
    rw [hcons, List.cons_append, skipBlanks_of_not (not_isBlank_of_isDigit hdigit)]
    exact ⟨c, _, rfl, ne_of_isDigit hdigit rfl, ne_of_isDigit hdigit rfl⟩
  | lastItem h closed ih => exact ih
  | item h comma hl ih ihl => exact ih
  | _ => exact ⟨_, _, rfl, by decide, by decide⟩

theorem exists_step (h : Spells part cs rest) (enough : 2 * cs.length ≤ fuel + 2 * rest.length) :
    ∃ n, fuel = n + 1 := by
  have hlt := h.length_lt
  exact ⟨fuel - 1, by omega⟩

/-- Whatever is spelled is read, if two steps are allowed for each of its characters. -/
theorem reads (h : Spells part cs rest) (fuel : ℕ)
    (enough : 2 * cs.length ≤ fuel + 2 * rest.length) : Reads fuel part cs rest := by
  induction h generalizing fuel with
  | blank hc h ih =>
    rw [← reads_skipBlanks, skipBlanks_cons hc, reads_skipBlanks]
    apply ih
    simp only [List.length_cons] at enough
    omega
  | null =>
    obtain ⟨fuel, rfl⟩ := exists_step (.null _) enough
    rfl
  | yes =>
    obtain ⟨fuel, rfl⟩ := exists_step (.yes _) enough
    rfl
  | no =>
    obtain ⟨fuel, rfl⟩ := exists_step (.no _) enough
    rfl
  | integer n ends =>
    obtain ⟨fuel, rfl⟩ := exists_step (.integer n ends) enough
    obtain ⟨c, tail, hcons, hdigit⟩ := exists_first_digit n
    have hread := readNumber_toDigits n ends
    rw [hcons, List.cons_append] at hread
    rw [Reads, hcons, List.cons_append, readValue_of_isDigit hdigit, hread]
  | string text rest =>
    obtain ⟨fuel, rfl⟩ := exists_step (.string text rest) enough
    exact readValue_string text rest
  | noItems closed =>
    obtain ⟨fuel, rfl⟩ := exists_step (.noItems closed) enough
    have hopen : ∀ cs, skipBlanks ('[' :: cs) = '[' :: cs := fun _ => rfl
    simp only [Reads, readValue, hopen, closed]
  | noMembers closed =>
    obtain ⟨fuel, rfl⟩ := exists_step (.noMembers closed) enough
    have hopen : ∀ cs, skipBlanks ('\x7b' :: cs) = '\x7b' :: cs := fun _ => rfl
    simp only [Reads, readValue, hopen, closed]
  | array h ih =>
    obtain ⟨fuel, rfl⟩ := exists_step (.array h) enough
    rw [Reads, readValue_array h.exists_first]
    have hitems := reads_skipBlanks.mpr (ih fuel (by
      simp only [List.length_cons] at enough
      omega))
    exact hitems []
  | object h ih =>
    obtain ⟨fuel, rfl⟩ := exists_step (.object h) enough
    rw [Reads, readValue_object h.exists_first]
    have hmembers := reads_skipBlanks.mpr (ih fuel (by
      simp only [List.length_cons] at enough
      omega))
    exact hmembers []
  | lastItem h closed ih =>
    obtain ⟨fuel, rfl⟩ := exists_step (.lastItem h closed) enough
    have hmid := length_lt_of_skipBlanks closed
    have hvalue := ih fuel (by omega)
    intro done
    rw [Reads] at hvalue
    simp only [readItems, hvalue, closed, List.reverse_cons]
  | item h comma hl ih ihl =>
    obtain ⟨fuel, rfl⟩ := exists_step (.item h comma hl) enough
    have hlt := h.length_lt
    have hmid := length_lt_of_skipBlanks comma
    have hnext := hl.length_lt
    have hvalue := ih fuel (by omega)
    have hitems := ihl fuel (by omega)
    intro done
    rw [Reads] at hvalue
    simp only [readItems, hvalue, comma, hitems (_ :: done), List.reverse_cons, List.append_assoc,
      List.singleton_append]
  | lastMember key hcolon h closed ih =>
    obtain ⟨fuel, rfl⟩ := exists_step (.lastMember key hcolon h closed) enough
    have hkey := length_lt_of_key key hcolon
    have hmid := length_lt_of_skipBlanks closed
    have hvalue := ih fuel (by omega)
    intro done
    rw [readMembers_closed hcolon hvalue done closed, List.reverse_cons]
  | member key hcolon h comma hl ih ihl =>
    obtain ⟨fuel, rfl⟩ := exists_step (.member key hcolon h comma hl) enough
    have hkey := length_lt_of_key key hcolon
    have hlt := h.length_lt
    have hmid := length_lt_of_skipBlanks comma
    have hnext := hl.length_lt
    have hvalue := ih fuel (by omega)
    have hmembers := ihl fuel (by omega)
    intro done
    rw [readMembers_comma hcolon hvalue done comma, hmembers, List.reverse_cons, List.append_assoc,
      List.singleton_append]

end Spells

theorem ofChars_of_spells {v : Json} (h : Spells (.value v) cs []) : ofChars cs = some v := by
  have hread : readValue (2 * cs.length + 2) cs = some (v, []) := h.reads _ (by omega)
  rw [ofChars, hread]
  rfl

end ColumnSampling.Json
