import ColumnSampling.Json.Form
import ColumnSampling.Proofs.Json.RoundTrip

/-!
# Lawful forms

A form is lawful if it reads back every value that it writes, and writes nothing that a text could
not hold. Then both texts of a value are read as that value. The forms of lists, of values that may
be missing and of records are lawful if the forms they are built from are.
-/

namespace ColumnSampling.JsonForm

open Json

variable {α : Type} {f : JsonForm α}

/-- Every value is written as what is read as that value, and what is written is plain. -/
class Lawful (f : JsonForm α) : Prop where
  plain (v : α) : (f.write v).isPlain = true
  read_write (v : α) : f.read (f.write v) = some v

attribute [simp] Lawful.plain Lawful.read_write

def ofText (f : JsonForm α) (text : String) : Option α := (parse text).bind f.read

/-- Both texts of every value are read as that value. -/
def RoundTrips (f : JsonForm α) : Prop :=
  ∀ v, f.ofText (f.write v).compact = some v ∧ f.ofText (f.write v).pretty = some v

theorem roundTrips (f : JsonForm α) [f.Lawful] : f.RoundTrips := by
  intro v
  rw [ofText, ofText, parse_compact (Lawful.plain v), parse_pretty (Lawful.plain v)]
  exact ⟨Lawful.read_write v, Lawful.read_write v⟩

section Values

instance lawful_bool : bool.Lawful where
  plain _ := rfl
  read_write _ := rfl

instance lawful_word : word.Lawful where
  plain _ := rfl
  read_write w := by
    simp only [word]
    rw [if_pos w.toNat_lt_size]
    simp

instance lawful_byte : byte.Lawful where
  plain _ := rfl
  read_write b := by
    simp only [byte]
    rw [if_pos b.toNat_lt_size]
    simp

theorem lawful_oneOf {names : List (String × α)} {name : α → String}
    (h : ∀ v, names.lookup (name v) = some v) : (oneOf names name).Lawful where
  plain _ := rfl
  read_write v := h v

theorem readAll_map_write (f : JsonForm α) [f.Lawful] (values done : List α) :
    f.readAll (values.map f.write) done = some (done.reverse ++ values) := by
  induction values generalizing done with
  | nil => simp [readAll]
  | cons v values ih =>
    simp only [List.map_cons, readAll, Lawful.read_write, ih, List.reverse_cons,
      List.append_assoc, List.singleton_append]

theorem itemsPlain_map_write (f : JsonForm α) [f.Lawful] (values : List α) :
    itemsPlain (values.map f.write) = true := by
  induction values with
  | nil => rfl
  | cons v values ih =>
    rw [List.map_cons, itemsPlain, Lawful.plain, ih]
    rfl

instance lawful_list [f.Lawful] : f.list.Lawful where
  plain values := itemsPlain_map_write f values
  read_write values := readAll_map_write f values []

/-- A value that is not written as null may be missing. -/
theorem lawful_option [f.Lawful] (some_ne : ∀ v, f.write v ≠ .null) : f.option.Lawful where
  plain
    | none => rfl
    | some v => Lawful.plain v
  read_write
    | none => rfl
    | some v => by
      have hread : f.option.read (f.write v) = (f.read (f.write v)).map some := by
        have hv := some_ne v
        cases hw : f.write v with
        | null => exact absurd hw hv
        | _ => rfl
      rw [Lawful.read_write] at hread
      exact hread

end Values

section Fields

@[simp] theorem required_write [f.Lawful] (v : α) :
    (Field.given (f.write v)).required f = some v :=
  Lawful.read_write v

@[simp] theorem withDefault_write [f.Lawful] (default v : α) :
    (Field.given (f.write v)).withDefault f default = some v :=
  Lawful.read_write v

@[simp] theorem optional_write [f.option.Lawful] (v : Option α) :
    (Field.given (f.option.write v)).optional f = some v :=
  Lawful.read_write v

section Bind

variable {β : Type} [f.Lawful] {found : Field} {v : α} {next : α → Option β}

theorem bind_of_eq_some {read : Option α} (h : read = some v) : (read >>= next) = next v := by
  rw [h]
  rfl

/-- A field that was written is read, and reading goes on with its value. -/
theorem bind_required (h : found = .given (f.write v)) : (found.required f >>= next) = next v :=
  bind_of_eq_some (by rw [h, required_write])

theorem bind_withDefault {default : α} (h : found = .given (f.write v)) :
    (found.withDefault f default >>= next) = next v :=
  bind_of_eq_some (by rw [h, withDefault_write])

end Bind

variable {l : List (String × Json)}

theorem membersPlain_of_forall (h : ∀ m ∈ l, m.2.isPlain = true) :
    membersPlain (members l) = true := by
  induction l with
  | nil => rfl
  | cons m l ih =>
    rw [List.forall_mem_cons] at h
    have hrest : membersPlain (members l) = true := ih h.2
    rw [members, List.map_cons, member, membersPlain, h.1]
    exact hrest

theorem memberValue_of_mem (nodup : (l.map Prod.fst).Nodup) {m : String × Json} (hm : m ∈ l) :
    memberValue? m.1 (members l) = some m.2 := by
  induction l with
  | nil => cases hm
  | cons first l ih =>
    rw [List.map_cons, List.nodup_cons] at nodup
    rw [members, List.map_cons, member, memberValue?]
    rcases List.mem_cons.mp hm with rfl | hm
    · rw [if_pos rfl]
    · have hne : first.1 ≠ m.1 := by
        intro heq
        exact nodup.1 (heq ▸ List.mem_map_of_mem hm)
      rw [if_neg (by simpa using hne)]
      exact ih nodup.2 hm

theorem memberCount_le_one (nodup : (l.map Prod.fst).Nodup) (name : String) :
    memberCount name (members l) ≤ 1 := by
  have hcount : memberCount name (members l) = (l.map Prod.fst).count name := by
    rw [memberCount, members, List.filter_map, List.length_map, List.count, List.countP_map,
      List.countP_eq_length_filter]
    congr 1
    apply List.filter_congr
    intro m _
    simp [member, beq_eq_decide]
  rw [hcount]
  exact List.nodup_iff_count_le_one.mp nodup name

theorem exists_fields (nodup : (l.map Prod.fst).Nodup) :
    ∃ field, fields (l.map Prod.fst) (.object (members l)) = some field ∧
      ∀ m ∈ l, field m.1 = .given m.2 := by
  have hallowed : (members l).all (memberAllowed (l.map Prod.fst)) = true := by
    rw [List.all_eq_true]
    intro m hm
    obtain ⟨named, hnamed, rfl⟩ := List.mem_map.mp hm
    have hname : (l.map Prod.fst).contains named.1 = true :=
      List.contains_iff_mem.mpr (List.mem_map_of_mem hnamed)
    rw [member, memberAllowed, hname]
    rfl
  have hcount : (l.map Prod.fst).all (fun name => memberCount name (members l) ≤ 1) = true := by
    rw [List.all_eq_true]
    intro name _
    exact decide_eq_true (memberCount_le_one nodup name)
  refine ⟨_, by rw [fields, hallowed, hcount]; rfl, ?_⟩
  intro m hm
  simp only [memberValue_of_mem nodup hm]

/-- A form of records is lawful if a record is built from the values that were written. -/
theorem lawful_record {names : List String} {values : α → List Json}
    {build : (field : String → Field) → Option α} (nodup : names.Nodup)
    (length : ∀ v, (values v).length = names.length)
    (plain : ∀ v, ∀ j ∈ values v, j.isPlain = true)
    (built : ∀ v field, (∀ m ∈ names.zip (values v), field m.1 = .given m.2) →
      build field = some v) : (record names values build).Lawful where
  plain v := membersPlain_of_forall fun m hm => plain v m.2 (List.of_mem_zip hm).2
  read_write v := by
    have hnames : (names.zip (values v)).map Prod.fst = names :=
      List.map_fst_zip (length v).ge
    obtain ⟨field, hfields, hgiven⟩ := exists_fields (l := names.zip (values v)) (by rwa [hnames])
    rw [hnames] at hfields
    calc (record names values build).read ((record names values build).write v)
      _ = (fields names (.object (members (names.zip (values v))))).bind build := rfl
      _ = build field := by rw [hfields, Option.bind_some]
      _ = some v := built v field hgiven

end Fields

end ColumnSampling.JsonForm
