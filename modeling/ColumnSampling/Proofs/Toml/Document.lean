import ColumnSampling.Proofs.Toml.Scalar
import ColumnSampling.Proofs.Toml.Text
import ColumnSampling.Toml.Parser

/-!
# Every document is read back

A document is spelled line by line, and each line takes what was read before it one step further: a
header begins a table, and a setting joins the table that was begun last. Reading takes the same
steps: a key ends where its line says so, and the value of a setting is read up to the end of the
line.
-/

namespace ColumnSampling.Toml

/-- Whether a name can stand as a key without quotes. -/
def IsBare (name : String) : Prop := name.toList ≠ [] ∧ ∀ c ∈ name.toList, isKeyChar c = true

instance : DecidablePred IsBare := fun name =>
  decidable_of_iff (name.toList ≠ [] ∧ name.toList.all isKeyChar = true)
    (and_congr Iff.rfl List.all_eq_true)

/-- The values that settings have: texts, numbers that are not negative, and truth values. -/
inductive IsSetting : Toml → Prop
  | text (s : String) : IsSetting (.text s)
  | natural (n : ℕ) : IsSetting (.integer n)
  | boolean (b : Bool) : IsSetting (.boolean b)

/-- Lines that take what was read before them to what is read after them. -/
inductive Spells : Progress → List Char → Progress → Prop
  | done (p : Progress) : Spells p [] p
  | empty {p q : Progress} {cs : List Char} (rest : Spells p cs q) : Spells p ('\n' :: cs) q
  | header {p p' q : Progress} {name : String} {cs : List Char} (bare : IsBare name)
      (enter : p.enter false [name] = some p') (rest : Spells p' cs q) :
      Spells p ('[' :: (name.toList ++ ']' :: '\n' :: cs)) q
  | setting {p p' q : Progress} {key text : String} {value : Toml} {cs : List Char}
      (bare : IsBare key) (setting : IsSetting value) (written : scalar? value = some text)
      (define : p.define [key] value = some p') (rest : Spells p' cs q) :
      Spells p (key.toList ++ ' ' :: '=' :: ' ' :: (text.toList ++ '\n' :: cs)) q

variable {name key text : String} {value : Toml} {c : Char} {cs tail rest : List Char}
  {p p' q : Progress} {fuel depth : ℕ}

section Characters

variable {p : Char → Bool}

theorem isBlank_of_kind (hspace : p ' ' = false) (htab : p '\t' = false) (hc : p c = true) :
    isBlank c = false := by
  by_contra h
  simp only [Bool.not_eq_false, isBlank, Bool.or_eq_true, decide_eq_true_eq] at h
  rcases h with rfl | rfl
  · rw [hspace] at hc
    cases hc
  · rw [htab] at hc
    cases hc

theorem append_ne_cons {d : Char} (hkind : ∀ c ∈ cs, p c = true) (filled : cs ≠ [])
    (hd : p d = false) (more : List Char) : cs ++ rest ≠ d :: more := by
  obtain ⟨c, tail, rfl⟩ := List.exists_cons_of_ne_nil filled
  intro h
  have hc := hkind c List.mem_cons_self
  rw [(List.cons.inj h).1, hd] at hc
  cases hc

theorem skipBlanks_of_not (hc : isBlank c = false) : skipBlanks (c :: cs) = c :: cs := by
  rw [skipBlanks, List.dropWhile_cons, hc]
  rfl

end Characters

section Keys

theorem IsBare.exists_cons (bare : IsBare name) :
    ∃ c cs, name.toList = c :: cs ∧ isKeyChar c = true := by
  obtain ⟨c, cs, hcons⟩ := List.exists_cons_of_ne_nil bare.1
  exact ⟨c, cs, hcons, bare.2 c (by simp [hcons])⟩

theorem readKeyPart_bare (bare : IsBare name) (hc : isKeyChar c = false) :
    readKeyPart (name.toList ++ c :: tail) = some (name, c :: tail) := by
  have hspan : (name.toList ++ c :: tail).span isKeyChar = (name.toList, c :: tail) := by
    rw [List.span_eq_takeWhile_dropWhile, List.takeWhile_append_of_pos bare.2,
      List.dropWhile_append_of_pos bare.2]
    simp [hc]
  obtain ⟨a, cs, hcons, -⟩ := bare.exists_cons
  unfold readKeyPart
  split
  · next h => exact absurd h (append_ne_cons bare.2 bare.1 rfl _)
  · next h => exact absurd h (append_ne_cons bare.2 bare.1 rfl _)
  · rw [hspan, hcons]
    simp [← hcons, String.ofList_toList]

theorem readKeys_bare (bare : IsBare name) (hc : isKeyChar c = false)
    (hdot : ∀ more, skipBlanks (c :: tail) ≠ '.' :: more) :
    readKeys (name.toList ++ c :: tail) = some ([name], skipBlanks (c :: tail)) := by
  obtain ⟨a, cs, hcons, ha⟩ := bare.exists_cons
  have hskip : skipBlanks (name.toList ++ c :: tail) = name.toList ++ c :: tail := by
    rw [hcons, List.cons_append, skipBlanks_of_not (isBlank_of_kind rfl rfl ha)]
  rw [readKeys, depthLimit, readKey, hskip, readKeyPart_bare bare hc]
  dsimp only
  split
  · next h => exact absurd h (hdot _)
  · rfl

end Keys

section Values

theorem readValue_append {token : List Char} (filled : token ≠ [])
    (htoken : ∀ c ∈ token, isTokenChar c = true) :
    readValue (fuel + 1) depth (token ++ '\n' :: rest) =
      (ofToken token).map fun value => (value, '\n' :: rest) := by
  rw [← readScalar_append htoken, readValue]
  · exact append_ne_cons htoken filled rfl
  · exact append_ne_cons htoken filled rfl
  · exact append_ne_cons htoken filled rfl
  · exact append_ne_cons htoken filled rfl

/-- A setting is written between quotes, or as a token that is read as its value. -/
theorem scalar_cases (setting : IsSetting value) (written : scalar? value = some text) :
    (∃ s, value = .text s ∧ text = quoted s) ∨
      (text.toList ≠ [] ∧ (∀ c ∈ text.toList, isTokenChar c = true) ∧
        ofToken text.toList = some value) := by
  cases setting with
  | text s => exact .inl ⟨s, rfl, (Option.some.inj written).symm⟩
  | natural n =>
    have hrange : inRange n = true := by
      by_contra h
      rw [scalar?, if_neg h] at written
      cases written
    rw [scalar?, if_pos hrange] at written
    have hdigits : text.toList = Nat.toDigits 10 n := by
      rw [← Option.some.inj written]
      exact Nat.toList_repr
    rw [hdigits]
    refine .inr ⟨Nat.toDigits_ne_nil, ?_, ofToken_toDigits hrange⟩
    intro c hc
    exact isTokenChar_of_isDigit (Json.isDigit_of_mem_toDigits hc)
  | boolean b =>
    obtain rfl := Option.some.inj written
    cases b with
    | false => exact .inr ⟨by decide, List.all_eq_true.mp (by decide), rfl⟩
    | true => exact .inr ⟨by decide, List.all_eq_true.mp (by decide), rfl⟩

theorem readValue_scalar (setting : IsSetting value) (written : scalar? value = some text) :
    readValue (fuel + 1) depth (text.toList ++ '\n' :: rest) = some (value, '\n' :: rest) := by
  rcases scalar_cases setting written with ⟨s, rfl, rfl⟩ | ⟨filled, htoken, hvalue⟩
  · have hread : readText ((quoted s).toList ++ '\n' :: rest) = some (s, '\n' :: rest) :=
      readText_quoted s (by simp)
    rw [quoted_append] at hread ⊢
    rw [readValue, hread]
    rfl
  · rw [readValue_append filled htoken, hvalue]
    rfl

theorem skipBlanks_scalar (setting : IsSetting value) (written : scalar? value = some text) :
    skipBlanks (' ' :: (text.toList ++ rest)) = text.toList ++ rest := by
  have hblank : skipBlanks (' ' :: (text.toList ++ rest)) = skipBlanks (text.toList ++ rest) := rfl
  rw [hblank]
  rcases scalar_cases setting written with ⟨s, rfl, rfl⟩ | ⟨filled, htoken, -⟩
  · rw [quoted_append]
    rfl
  · obtain ⟨a, tail, hcons⟩ := List.exists_cons_of_ne_nil filled
    rw [hcons] at htoken ⊢
    exact skipBlanks_of_not (isBlank_of_kind rfl rfl (htoken a List.mem_cons_self))

end Values

section Lines

theorem readLine_header (bare : IsBare name) :
    readLine p ('[' :: (name.toList ++ ']' :: '\n' :: cs)) =
      (p.enter false [name]).map fun p => (p, cs) := by
  have hkeys : readKeys (name.toList ++ ']' :: '\n' :: cs) = some ([name], ']' :: '\n' :: cs) :=
    readKeys_bare bare rfl (by intro more h; cases h)
  unfold readLine
  split
  · next h => exact absurd (List.cons.inj h).2 (append_ne_cons bare.2 bare.1 rfl _)
  · next h =>
    obtain rfl := (List.cons.inj h).2
    rw [hkeys]
    rfl
  · next h => exact absurd rfl (h _)

theorem readLine_setting (bare : IsBare key) (setting : IsSetting value)
    (written : scalar? value = some text) :
    readLine p (key.toList ++ ' ' :: '=' :: ' ' :: (text.toList ++ '\n' :: cs)) =
      (p.define [key] value).map fun p => (p, cs) := by
  have hkeys : readKeys (key.toList ++ ' ' :: '=' :: ' ' :: (text.toList ++ '\n' :: cs)) =
      some ([key], '=' :: ' ' :: (text.toList ++ '\n' :: cs)) :=
    readKeys_bare bare rfl (by intro more h; cases h)
  have hvalue : ∀ fuel, readValue (fuel + 1) 0 (text.toList ++ '\n' :: cs) =
      some (value, '\n' :: cs) :=
    fun _ => readValue_scalar setting written
  unfold readLine
  split
  · next h => exact absurd h (append_ne_cons bare.2 bare.1 rfl _)
  · next h => exact absurd h (append_ne_cons bare.2 bare.1 rfl _)
  · rw [hkeys]
    simp only [skipBlanks_scalar setting written, hvalue]
    rfl

theorem readLines_cons (hc : isKeyChar c = true ∨ c = '[') :
    readLines (fuel + 1) p (c :: cs) =
      (readLine p (c :: cs)).bind fun (p, rest) => readLines fuel p rest := by
  have hne : ∀ d, isKeyChar d = false → d ≠ '[' → c ≠ d := by
    rintro d hkey hbracket rfl
    rcases hc with hc | rfl
    · rw [hkey] at hc
      cases hc
    · exact hbracket rfl
  have hblank : isBlank c = false := by
    rcases hc with hc | rfl
    · exact isBlank_of_kind rfl rfl hc
    · rfl
  rw [readLines, skipBlanks_of_not hblank]
  split
  · next h => cases h
  · next h => exact absurd (List.cons.inj h).1 (hne '#' rfl (by decide))
  · next h => exact absurd (List.cons.inj h).1 (hne '\n' rfl (by decide))
  · next h => exact absurd (List.cons.inj h).1 (hne '\r' rfl (by decide))
  · rfl

/-- The lines are read one by one; each has a character at least, so they do not run out. -/
theorem readLines_of_spells (h : Spells p cs q) (enough : cs.length < fuel) :
    readLines fuel p cs = some q := by
  induction h generalizing fuel with
  | done p =>
    obtain ⟨fuel, rfl⟩ := Nat.exists_eq_succ_of_ne_zero (Nat.ne_of_gt enough)
    rfl
  | empty rest ih =>
    obtain ⟨fuel, rfl⟩ := Nat.exists_eq_succ_of_ne_zero (Nat.ne_zero_of_lt enough)
    exact ih (by simpa using enough)
  | header bare enter rest ih =>
    obtain ⟨fuel, rfl⟩ := Nat.exists_eq_succ_of_ne_zero (Nat.ne_zero_of_lt enough)
    rw [readLines_cons (.inr rfl), readLine_header bare, enter]
    apply ih
    simp only [List.length_cons, List.length_append] at enough
    omega
  | @setting p p' q key text value cs bare setting written define rest ih =>
    obtain ⟨fuel, rfl⟩ := Nat.exists_eq_succ_of_ne_zero (Nat.ne_zero_of_lt enough)
    obtain ⟨a, tail, hcons, ha⟩ := bare.exists_cons
    have hline : readLine p (key.toList ++ ' ' :: '=' :: ' ' :: (text.toList ++ '\n' :: cs)) = _ :=
      readLine_setting bare setting written
    rw [hcons, List.cons_append] at hline ⊢
    rw [readLines_cons (.inl ha), hline, define]
    apply ih
    simp only [List.length_cons, List.length_append] at enough
    omega

theorem ne_of_spells (h : Spells p cs q) : ∀ rest, cs ≠ '\ufeff' :: rest := by
  intro rest heq
  cases h with
  | done => cases heq
  | empty => exact absurd (List.cons.inj heq).1 (by decide)
  | header => exact absurd (List.cons.inj heq).1 (by decide)
  | setting bare => exact append_ne_cons bare.2 bare.1 (by decide) _ heq

theorem ofChars_of_spells (h : Spells {} cs q) : ofChars cs = some (.table (finish q.members)) := by
  have hread : readLines (cs.length + 1) {} cs = some q :=
    readLines_of_spells h (Nat.lt_succ_self cs.length)
  unfold ofChars
  split
  · exact absurd rfl (ne_of_spells h _)
  · dsimp only
    rw [hread]
    rfl

end Lines

end ColumnSampling.Toml
