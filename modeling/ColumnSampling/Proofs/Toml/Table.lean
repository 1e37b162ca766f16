import ColumnSampling.Proofs.Toml.Document

/-!
# The tables of a document

Settings of different names are lines one after another, each of which joins the table before its
line, be it the table of a header or the document itself. A document of tables has a header in front
of each and an empty line between them. Both are read as what they were written for, and both can be
written unless an integer in them is out of range.
-/

namespace ColumnSampling.Toml

def settled (m : String × Toml) : String × Node := (m.1, .value m.2)

/-- A table that a header begins, with the members that the lines below it set. -/
def entered (t : String × List (String × Toml)) : String × Node :=
  (t.1, .table .header (t.2.map settled))

/-- What has been read at a line below a header: the tables before it, and what its table has so
far. -/
def underHeader (before : Members) (name : String) (m : Members) : Progress :=
  ⟨before ++ [(name, .table .header m)], [name]⟩

/-- The members of a table that can be written line by line. -/
structure IsTable (members : List (String × Toml)) : Prop where
  nodup : (members.map Prod.fst).Nodup
  bare : ∀ m ∈ members, IsBare m.1
  setting : ∀ m ∈ members, IsSetting m.2

/-- The tables of a document that can be written. -/
structure IsDocument (tables : List (String × List (String × Toml))) : Prop where
  nodup : (tables.map Prod.fst).Nodup
  bare : ∀ t ∈ tables, IsBare t.1
  table : ∀ t ∈ tables, IsTable t.2

variable {before m : Members} {members : List (String × Toml)}
  {tables : List (String × List (String × Toml))} {name key text : String} {value : Toml}
  {header : List String} {cs : List Char} {q : Progress}

section Steps

theorem lookup_of_notMem (h : key ∉ m.map Prod.fst) : m.lookup key = none := by
  rw [List.lookup_eq_none_iff]
  intro x hx
  rw [bne_iff_ne]
  rintro rfl
  exact h (List.mem_map_of_mem hx)

theorem lookup_concat (node : Node) (h : key ∉ m.map Prod.fst) :
    (m ++ [(key, node)]).lookup key = some node := by
  rw [List.lookup_append, lookup_of_notMem h]
  simp

theorem replace_concat (old new : Node) (h : key ∉ m.map Prod.fst) :
    Members.replace (m ++ [(key, old)]) key new = m ++ [(key, new)] := by
  have hkept : m.map (fun x => if x.1 = key then (key, new) else x) = m := by
    conv_rhs => rw [← List.map_id m]
    apply List.map_congr_left
    intro x hx
    have hne : x.1 ≠ key := by
      rintro rfl
      exact h (List.mem_map_of_mem hx)
    exact if_neg hne
  rw [Members.replace, List.map_append, hkept]
  simp

theorem define_top (h : key ∉ m.map Prod.fst) :
    Progress.define ⟨m, []⟩ [key] value = some ⟨m ++ [settled (key, value)], []⟩ := by
  simp [Progress.define, Members.define, lookup_of_notMem h, settled]

theorem define_below (hname : name ∉ before.map Prod.fst) (hkey : key ∉ m.map Prod.fst) :
    (underHeader before name m).define [key] value =
      some (underHeader before name (m ++ [settled (key, value)])) := by
  simp [underHeader, Progress.define, Members.along, Members.defineIn, lookup_concat _ hname,
    Members.define, lookup_of_notMem hkey, replace_concat _ _ hname, settled]

theorem enter_new (h : name ∉ before.map Prod.fst) :
    Progress.enter ⟨before, header⟩ false [name] = some (underHeader before name []) := by
  simp [underHeader, Progress.enter, Members.along, Members.openTable, lookup_of_notMem h]

end Steps

section Finish

theorem finish_settled (members : List (String × Toml)) :
    finish (members.map settled) = members := by
  induction members with
  | nil => rfl
  | cons m members ih => rw [List.map_cons, settled, finish, ih, Node.toValue]

theorem finish_entered (tables : List (String × List (String × Toml))) :
    finish (tables.map entered) = tables.map fun t => (t.1, .table t.2) := by
  induction tables with
  | nil => rfl
  | cons t tables ih =>
    rw [List.map_cons, entered, finish, ih, Node.toValue, finish_settled, List.map_cons]

end Finish

section Writing

theorem tableText_cons {m : String × Toml} (written : tableText? (m :: members) = some text) :
    ∃ first rest, scalar? m.2 = some first ∧ tableText? members = some rest ∧
      text.toList = m.1.toList ++ ' ' :: '=' :: ' ' :: (first.toList ++ '\n' :: rest.toList) := by
  rw [tableText?] at written
  obtain ⟨first, hfirst, written⟩ := Option.bind_eq_some_iff.mp written
  obtain ⟨rest, hrest, written⟩ := Option.bind_eq_some_iff.mp written
  obtain rfl := Option.some.inj written
  refine ⟨first, rest, hfirst, hrest, ?_⟩
  simp [String.toList_append]

theorem sectionText_eq (written : sectionText? name members = some text) :
    ∃ rest, tableText? members = some rest ∧
      text.toList = '[' :: (name.toList ++ ']' :: '\n' :: rest.toList) := by
  obtain ⟨rest, hrest, rfl⟩ := Option.map_eq_some_iff.mp written
  exact ⟨rest, hrest, by simp [String.toList_append]⟩

theorem documentText_singleton {t : String × List (String × Toml)}
    (written : documentText? [t] = some text) : sectionText? t.1 t.2 = some text := by
  obtain ⟨texts, htexts, written⟩ := Option.bind_eq_some_iff.mp written
  obtain rfl := Option.some.inj written
  rw [List.mapM_cons] at htexts
  obtain ⟨first, hfirst, htexts⟩ := Option.bind_eq_some_iff.mp htexts
  obtain rfl := Option.some.inj htexts
  rw [List.reverse_nil, String.intercalate_singleton]
  exact hfirst

theorem documentText_cons {t u : String × List (String × Toml)}
    (written : documentText? (t :: u :: tables) = some text) :
    ∃ first rest, sectionText? t.1 t.2 = some first ∧ documentText? (u :: tables) = some rest ∧
      text.toList = first.toList ++ '\n' :: rest.toList := by
  obtain ⟨texts, htexts, written⟩ := Option.bind_eq_some_iff.mp written
  obtain rfl := Option.some.inj written
  rw [List.mapM_cons] at htexts
  obtain ⟨first, hfirst, htexts⟩ := Option.bind_eq_some_iff.mp htexts
  obtain ⟨others, hothers, htexts⟩ := Option.bind_eq_some_iff.mp htexts
  obtain rfl := Option.some.inj htexts
  refine ⟨first, "\n".intercalate others, hfirst, ?_, ?_⟩
  · rw [documentText?, hothers]
    rfl
  · rw [List.mapM_cons] at hothers
    obtain ⟨second, -, hothers⟩ := Option.bind_eq_some_iff.mp hothers
    obtain ⟨last, -, hothers⟩ := Option.bind_eq_some_iff.mp hothers
    obtain rfl := Option.some.inj hothers
    simp [String.intercalate_cons_cons, String.toList_append]

theorem isSome_tableText :
    (tableText? members).isSome = true ↔ ∀ m ∈ members, (scalar? m.2).isSome = true := by
  induction members with
  | nil => simp [tableText?]
  | cons m members ih =>
    rw [List.forall_mem_cons, ← ih, tableText?]
    cases scalar? m.2 <;> cases tableText? members <;> simp

theorem isSome_mapM {α β : Type} {f : α → Option β} {l : List α} :
    (l.mapM f).isSome = true ↔ ∀ x ∈ l, (f x).isSome = true := by
  induction l with
  | nil => simp
  | cons x l ih =>
    rw [List.forall_mem_cons, ← ih, List.mapM_cons]
    cases f x <;> cases l.mapM f <;> simp

theorem isSome_documentText :
    (documentText? tables).isSome = true ↔ ∀ t ∈ tables, (tableText? t.2).isSome = true := by
  have hsections : (documentText? tables).isSome =
      (tables.mapM fun t => sectionText? t.1 t.2).isSome := by
    rw [documentText?]
    cases tables.mapM fun t => sectionText? t.1 t.2 <;> rfl
  rw [hsections, isSome_mapM]
  simp only [sectionText?, Option.isSome_map]

end Writing

section Reading

theorem IsTable.of_cons {m : String × Toml} (h : IsTable (m :: members)) : IsTable members where
  nodup := (List.nodup_cons.mp h.nodup).2
  bare x hx := h.bare x (List.mem_cons_of_mem m hx)
  setting x hx := h.setting x (List.mem_cons_of_mem m hx)

theorem IsDocument.of_cons {t : String × List (String × Toml)} (h : IsDocument (t :: tables)) :
    IsDocument tables where
  nodup := (List.nodup_cons.mp h.nodup).2
  bare x hx := h.bare x (List.mem_cons_of_mem t hx)
  table x hx := h.table x (List.mem_cons_of_mem t hx)

theorem nodup_step {names : List String} {x : String × Node}
    (nodup : (m.map Prod.fst ++ x.1 :: names).Nodup) :
    x.1 ∉ m.map Prod.fst ∧ ((m ++ [x]).map Prod.fst ++ names).Nodup := by
  constructor
  · intro hmem
    exact (List.nodup_append.mp nodup).2.2 x.1 hmem x.1 List.mem_cons_self rfl
  · simpa using nodup

/-- The lines of a table, at a place where each line joins what was set there before it. -/
theorem spells_table (place : Members → Progress) (m : Members)
    (hplace : ∀ m key value, key ∉ m.map Prod.fst →
      (place m).define [key] value = some (place (m ++ [settled (key, value)])))
    (table : IsTable members) (nodup : (m.map Prod.fst ++ members.map Prod.fst).Nodup)
    (written : tableText? members = some text)
    (rest : Spells (place (m ++ members.map settled)) cs q) :
    Spells (place m) (text.toList ++ cs) q := by
  induction members generalizing m text with
  | nil =>
    obtain rfl := Option.some.inj written
    simpa using rest
  | cons x members ih =>
    obtain ⟨first, others, hfirst, hothers, htext⟩ := tableText_cons written
    obtain ⟨hx, hmembers⟩ := nodup_step (x := settled x) nodup
    have hrest : Spells (place (m ++ [settled x] ++ members.map settled)) cs q := by
      simpa using rest
    rw [htext, List.append_assoc, List.cons_append, List.cons_append, List.cons_append,
      List.append_assoc, List.cons_append]
    exact .setting (table.bare x List.mem_cons_self) (table.setting x List.mem_cons_self) hfirst
      (hplace m x.1 x.2 hx) (ih _ table.of_cons hmembers hothers hrest)

theorem spells_section (bare : IsBare name) (table : IsTable members)
    (fresh : name ∉ before.map Prod.fst) (written : sectionText? name members = some text)
    (rest : Spells ⟨before ++ [entered (name, members)], [name]⟩ cs q) :
    Spells ⟨before, header⟩ (text.toList ++ cs) q := by
  obtain ⟨lines, hlines, htext⟩ := sectionText_eq written
  have hbelow : Spells (underHeader before name []) (lines.toList ++ cs) q := by
    apply spells_table (underHeader before name) [] _ table _ hlines rest
    · exact fun m key value hkey => define_below fresh hkey
    · exact table.nodup
  rw [htext, List.cons_append, List.append_assoc, List.cons_append, List.cons_append]
  exact .header bare (enter_new fresh) hbelow

theorem exists_spells_document (document : IsDocument tables)
    (nodup : (before.map Prod.fst ++ tables.map Prod.fst).Nodup)
    (written : documentText? tables = some text) :
    ∃ q, Spells ⟨before, header⟩ text.toList q ∧ q.members = before ++ tables.map entered := by
  induction tables generalizing before header text with
  | nil =>
    obtain rfl := Option.some.inj written
    exact ⟨_, .done _, by simp⟩
  | cons t tables ih =>
    have hbare := document.bare t List.mem_cons_self
    have htable := document.table t List.mem_cons_self
    obtain ⟨ht, htables⟩ := nodup_step (x := entered t) nodup
    cases tables with
    | nil =>
      refine ⟨⟨before ++ [entered t], [t.1]⟩, ?_, rfl⟩
      rw [← List.append_nil text.toList]
      exact spells_section hbare htable ht (documentText_singleton written) (.done _)
    | cons u tables =>
      obtain ⟨first, rest, hfirst, hrest, htext⟩ := documentText_cons written
      obtain ⟨q, hq, hmembers⟩ := ih document.of_cons htables hrest
      refine ⟨q, ?_, by simpa using hmembers⟩
      rw [htext]
      exact spells_section hbare htable ht hfirst (.empty hq)

theorem parse_tableText (table : IsTable members) (written : tableText? members = some text) :
    parse text = some (.table members) := by
  have hlines : Spells {} (text.toList ++ []) ⟨members.map settled, []⟩ := by
    apply spells_table (fun m => ⟨m, []⟩) [] _ table _ written (.done _)
    · exact fun m key value hkey => define_top hkey
    · exact table.nodup
  rw [List.append_nil] at hlines
  rw [parse, ofChars_of_spells hlines, finish_settled]

/-- A document of tables is read as these tables. -/
theorem parse_documentText (document : IsDocument tables)
    (written : documentText? tables = some text) :
    parse text = some (.table (tables.map fun t => (t.1, .table t.2))) := by
  obtain ⟨q, hlines, hmembers⟩ :
      ∃ q, Spells {} text.toList q ∧ q.members = [] ++ tables.map entered :=
    exists_spells_document document document.nodup written
  rw [parse, ofChars_of_spells hlines, hmembers, List.nil_append, finish_entered]

end Reading

end ColumnSampling.Toml
