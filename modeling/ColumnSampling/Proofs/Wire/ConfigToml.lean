import ColumnSampling.Proofs.Toml.Table
import ColumnSampling.Proofs.Wire.Bytes
import ColumnSampling.Wire.Config

/-!
# Configurations in TOML are read back

A configuration is written unless a parameter of its network is beyond the integers of TOML, which
are signed. What is written is read back whole: each member is found under its name and is read as
the value that it was written for.
-/

namespace ColumnSampling

namespace TomlForm

open Toml (IsBare IsSetting IsTable IsDocument)

section Members

variable {α β : Type} {found : Option Toml} {value : Toml} {read : Toml → Option α} {v : α}
  {next : α → Option β}

theorem lookup_of_mem {members : List (String × Toml)} (nodup : (members.map Prod.fst).Nodup) :
    ∀ m ∈ members, members.lookup m.1 = some m.2 := by
  induction members with
  | nil => simp
  | cons x members ih =>
    obtain ⟨hx, hmembers⟩ := List.nodup_cons.mp nodup
    intro m hm
    rcases List.mem_cons.mp hm with rfl | hm
    · exact List.lookup_cons_self
    · have hne : m.1 ≠ x.1 := by
        intro heq
        rw [← heq] at hx
        exact hx (List.mem_map_of_mem hm)
      rw [List.lookup_cons, beq_false_of_ne hne]
      exact ih hmembers m hm

theorem exists_members (names : List String) {members : List (String × Toml)}
    (nodup : (members.map Prod.fst).Nodup) :
    ∃ member, members? names (.table members) = some member ∧
      ∀ m ∈ members, member m.1 = some m.2 :=
  ⟨fun name => members.lookup name, rfl, lookup_of_mem nodup⟩

theorem bind_withDefault {default : α} (h : found = some value) (hread : read value = some v) :
    (withDefault read default found >>= next) = next v := by
  rw [h, withDefault, hread]
  rfl

theorem word_toNat (w : UInt64) : word? (.integer w.toNat) = some w := by
  have hlt : (w.toNat : ℤ) < UInt64.size := by
    exact_mod_cast w.toNat_lt
  rw [word?, if_pos ⟨Int.natCast_nonneg _, hlt⟩, Int.toNat_natCast]
  simp [Nat.toUInt64]

theorem nodeId_toText (id : NodeId) : nodeId? (.text id.toText) = some id := by
  rw [nodeId?, NodeId.ofText_toText]
  rfl

end Members

section Reading

theorem nodup_parameterNames : JsonForm.parameterNames.Nodup := by decide

theorem map_fst_ofParameters (p : Parameters) :
    (ofParameters p).map Prod.fst = JsonForm.parameterNames := rfl

theorem parameters_ofParameters (p : Parameters) :
    parameters? (.table (ofParameters p)) = some p := by
  have nodup : ((ofParameters p).map Prod.fst).Nodup := nodup_parameterNames
  obtain ⟨member, hmembers, hfound⟩ := exists_members JsonForm.parameterNames nodup
  simp only [ofParameters, JsonForm.parameterNames, JsonForm.parameterValues, List.zip_cons_cons,
    List.zip_nil_left, List.map_cons, List.map_nil, List.forall_mem_cons] at hfound
  obtain ⟨h₁, h₂, h₃, h₄, h₅, h₆, h₇, h₈, h₉, h₁₀, h₁₁, -⟩ := hfound
  rw [parameters?, JsonForm.bind_of_eq_some hmembers]
  dsimp only [JsonForm.parametersOf]
  rw [bind_withDefault h₁ (word_toNat _), bind_withDefault h₂ (word_toNat _),
    bind_withDefault h₃ (word_toNat _), bind_withDefault h₄ (word_toNat _),
    bind_withDefault h₅ (word_toNat _), bind_withDefault h₆ (word_toNat _),
    bind_withDefault h₇ (word_toNat _), bind_withDefault h₈ (word_toNat _),
    bind_withDefault h₉ (word_toNat _), bind_withDefault h₁₀ (word_toNat _),
    bind_withDefault h₁₁ (word_toNat _)]
  rfl

theorem nodeSettings_ofNodeSettings (s : NodeSettings) :
    nodeSettings? (.table (ofNodeSettings s)) = some s := by
  obtain ⟨subscribes, id⟩ := s
  cases id with
  | none => rfl
  | some id =>
    have nodup : ((ofNodeSettings ⟨subscribes, some id⟩).map Prod.fst).Nodup := by
      change ["subscribe_all_subnets", "node_id"].Nodup
      decide
    obtain ⟨member, hmembers, hfound⟩ := exists_members ["subscribe_all_subnets", "node_id"] nodup
    simp only [ofNodeSettings, List.forall_mem_cons] at hfound
    have hsubscribes : bool? (.boolean subscribes) = some subscribes := rfl
    have hid : (nodeId? (.text id.toText)).map some = some (some id) := by
      rw [nodeId_toText, Option.map_some]
    rw [nodeSettings?, JsonForm.bind_of_eq_some hmembers, bind_withDefault hfound.1 hsubscribes,
      bind_withDefault hfound.2.1 hid]
    rfl

theorem logSettings_ofLogSettings (s : LogSettings) :
    logSettings? (.table (ofLogSettings s)) = some s := by
  obtain ⟨level, format⟩ := s
  cases level <;> cases format <;> rfl

def tables (c : Config) : List (String × List (String × Toml)) :=
  [("das", ofParameters c.network), ("node", ofNodeSettings c.node),
    ("logging", ofLogSettings c.logging)]

theorem nodup_tables (c : Config) : ((tables c).map Prod.fst).Nodup := by
  change ["das", "node", "logging"].Nodup
  decide

theorem config_tables (c : Config) :
    config? (.table ((tables c).map fun t => (t.1, .table t.2))) = some c := by
  have nodup : (((tables c).map fun t => (t.1, Toml.table t.2)).map Prod.fst).Nodup :=
    nodup_tables c
  obtain ⟨member, hmembers, hfound⟩ := exists_members ["das", "node", "logging"] nodup
  simp only [tables, List.map_cons, List.forall_mem_cons] at hfound
  rw [config?, JsonForm.bind_of_eq_some hmembers,
    bind_withDefault hfound.1 (parameters_ofParameters c.network),
    bind_withDefault hfound.2.1 (nodeSettings_ofNodeSettings c.node),
    bind_withDefault hfound.2.2.1 (logSettings_ofLogSettings c.logging)]
  rfl

end Reading

section Writing

/-- Whether all parameters are among the integers of TOML. -/
def Fits (p : Parameters) : Prop := ∀ w ∈ JsonForm.parameterValues p, w.toNat < Nat.pow 2 63

instance : DecidablePred Fits := fun p =>
  decidable_of_iff ((JsonForm.parameterValues p).all (fun w => w.toNat < Nat.pow 2 63) = true)
    (by simp [Fits])

theorem inRange_natCast (n : ℕ) : Toml.inRange n = true ↔ n < Nat.pow 2 63 := by
  have hmin : Int64.minValue.toInt = -9223372036854775808 := rfl
  have hmax : Int64.maxValue.toInt = 9223372036854775807 := rfl
  rw [Toml.inRange, hmin, hmax, Bool.and_eq_true, decide_eq_true_eq, decide_eq_true_eq]
  simp
  omega

theorem isTable_of_names {members : List (String × Toml)} (names : List String)
    (hnames : members.map Prod.fst = names) (nodup : names.Nodup)
    (bare : ∀ name ∈ names, IsBare name) (setting : ∀ m ∈ members, IsSetting m.2) :
    IsTable members where
  nodup := by rwa [hnames]
  bare m hm := bare m.1 (hnames ▸ List.mem_map_of_mem hm)
  setting := setting

theorem isTable_ofParameters (p : Parameters) : IsTable (ofParameters p) := by
  apply isTable_of_names _ (map_fst_ofParameters p) nodup_parameterNames (by decide)
  intro m hm
  obtain ⟨x, -, rfl⟩ := List.mem_map.mp hm
  exact .natural _

theorem isTable_ofNodeSettings (s : NodeSettings) : IsTable (ofNodeSettings s) := by
  obtain ⟨subscribes, id⟩ := s
  cases id with
  | none =>
    apply isTable_of_names ["subscribe_all_subnets"] rfl (by decide) (by decide)
    simp [ofNodeSettings, IsSetting.boolean]
  | some id =>
    apply isTable_of_names ["subscribe_all_subnets", "node_id"] rfl (by decide) (by decide)
    simp [ofNodeSettings, IsSetting.boolean, IsSetting.text]

theorem isTable_ofLogSettings (s : LogSettings) : IsTable (ofLogSettings s) := by
  apply isTable_of_names ["log_level", "log_format"] rfl (by decide) (by decide)
  simp [ofLogSettings, IsSetting.text]

theorem isDocument_tables (c : Config) : IsDocument (tables c) where
  nodup := nodup_tables c
  bare := by
    have hnames : ∀ name ∈ (tables c).map Prod.fst, IsBare name := by
      change ∀ name ∈ ["das", "node", "logging"], IsBare name
      decide
    exact fun t ht => hnames t.1 (List.mem_map_of_mem ht)
  table := by
    simp only [tables, List.forall_mem_cons]
    exact ⟨isTable_ofParameters c.network, isTable_ofNodeSettings c.node,
      isTable_ofLogSettings c.logging, by simp⟩

theorem isSome_ofParameters (p : Parameters) :
    (Toml.tableText? (ofParameters p)).isSome = true ↔ Fits p := by
  have hscalar : ∀ n : ℕ, (Toml.scalar? (.integer n)).isSome = true ↔ n < Nat.pow 2 63 := by
    intro n
    rw [← inRange_natCast, Toml.scalar?]
    split_ifs with h <;> simp [h]
  have hvalues : (JsonForm.parameterNames.zip (JsonForm.parameterValues p)).map Prod.snd =
      JsonForm.parameterValues p := rfl
  have hfits : Fits p ↔ ∀ x ∈ JsonForm.parameterNames.zip (JsonForm.parameterValues p),
      x.2.toNat < Nat.pow 2 63 := by
    rw [Fits]
    conv_lhs => rw [← hvalues]
    exact List.forall_mem_map
  rw [hfits, Toml.isSome_tableText, ofParameters, List.forall_mem_map]
  simp only [hscalar]

theorem isSome_ofNodeSettings (s : NodeSettings) :
    (Toml.tableText? (ofNodeSettings s)).isSome = true := by
  obtain ⟨subscribes, id⟩ := s
  rw [Toml.isSome_tableText]
  cases id <;> simp [ofNodeSettings, Toml.scalar?]

theorem isSome_ofLogSettings (s : LogSettings) :
    (Toml.tableText? (ofLogSettings s)).isSome = true := by
  rw [Toml.isSome_tableText]
  simp [ofLogSettings, Toml.scalar?]

end Writing

end TomlForm

/-- Parameters can be written as lines of TOML exactly if all of them are in its range. -/
theorem Parameters.isSome_toToml (p : Parameters) : p.toToml?.isSome = true ↔ TomlForm.Fits p :=
  TomlForm.isSome_ofParameters p

theorem Config.isSome_toToml (c : Config) : c.toToml?.isSome = true ↔ TomlForm.Fits c.network := by
  rw [toToml?, Toml.isSome_documentText, ← TomlForm.isSome_ofParameters]
  simp [TomlForm.isSome_ofNodeSettings, TomlForm.isSome_ofLogSettings]

theorem Parameters.parse_toToml {p : Parameters} {text : String} (written : p.toToml? = some text) :
    (Toml.parse text).bind TomlForm.parameters? = some p := by
  have hparse : Toml.parse text = some (.table (TomlForm.ofParameters p)) :=
    Toml.parse_tableText (TomlForm.isTable_ofParameters p) written
  rw [hparse, Option.bind_some, TomlForm.parameters_ofParameters]

theorem Config.ofToml_toToml {c : Config} {text : String} (written : c.toToml? = some text) :
    ofToml? text = some c := by
  have hparse : Toml.parse text =
      some (.table ((TomlForm.tables c).map fun t => (t.1, .table t.2))) :=
    Toml.parse_documentText (TomlForm.isDocument_tables c) written
  rw [ofToml?, hparse, Option.bind_some, TomlForm.config_tables]

end ColumnSampling
