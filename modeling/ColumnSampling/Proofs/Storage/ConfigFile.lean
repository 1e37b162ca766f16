import ColumnSampling.Command.Program
import ColumnSampling.Proofs.Storage.FileTree
import ColumnSampling.Proofs.Wire.ConfigToml
import ColumnSampling.Proofs.Wire.RoundTrip

/-!
# Configurations are kept as far as their format goes

Integers of TOML are signed, so the upper half of the unsigned ones cannot be written. A
configuration with such a parameter is not saved, although it breaks no rule and has a text in JSON.
Every other one that breaks no rule is saved at every path that can be written, and is loaded again
as it was; its parameters are shown in both formats, and either text is read as them.
-/

namespace ColumnSampling

namespace Storage

variable {σ : Type} {storage : Storage (StateM σ)} {path : String} {content : ByteArray}
  {s prepared written : σ}

/-- Making the folders above a path leads from one state to another. -/
inductive Prepares (storage : Storage (StateM σ)) (path : String) (s : σ) : σ → Prop
  | top (h : Path.parent? path = none) : Prepares storage path s s
  | folders {folder : String} {prepared : σ} (h : Path.parent? path = some folder)
      (made : storage.makeFolders folder s = (true, prepared)) : Prepares storage path s prepared

/-- Whether a path can be written: the folders above it can be made, and then a file there takes any
content and gives it back. -/
def Writable (storage : Storage (StateM σ)) (path : String) (s : σ) : Prop :=
  ∃ prepared, storage.Prepares path s prepared ∧ ∀ content, ∃ written,
    storage.write path content prepared = (.ok (), written) ∧
      (storage.read path written).1 = some content

theorem run_bind {α β : Type} {x : StateM σ α} {next : α → StateM σ β} {a : α} {s' : σ}
    (h : x s = (a, s')) : (x >>= next) s = next a s' := by
  change (match x s with | (a, s) => next a s) = _
  rw [h]

theorem put_of_prepares (h : storage.Prepares path s prepared) :
    storage.put path content s =
      match storage.write path content prepared with
      | (.ok (), written) => (.ok (), written)
      | (.error .opening, written) => (.error (.opening path), written)
      | (.error .writing, written) => (.error (.writing path), written) := by
  cases h with
  | top hparent =>
    have hmade : (pure true : StateM σ Bool) s = (true, s) := rfl
    rw [put, hparent]
    dsimp only
    rw [run_bind hmade, Bool.not_true, if_neg Bool.false_ne_true]
    rcases hwrite : storage.write path content s with ⟨(_ | _) | _, written⟩ <;>
      exact run_bind hwrite
  | folders hparent made =>
    rw [put, hparent]
    dsimp only
    rw [run_bind made, Bool.not_true, if_neg Bool.false_ne_true]
    rcases hwrite : storage.write path content prepared with ⟨(_ | _) | _, written⟩ <;>
      exact run_bind hwrite

theorem put_eq_ok :
    storage.put path content s = (.ok (), written) ↔
      ∃ prepared, storage.Prepares path s prepared ∧
        storage.write path content prepared = (.ok (), written) := by
  constructor
  · intro h
    obtain ⟨prepared, hprepares⟩ : ∃ prepared, storage.Prepares path s prepared := by
      cases hparent : Path.parent? path with
      | none => exact ⟨s, .top hparent⟩
      | some folder =>
        rcases hmade : storage.makeFolders folder s with ⟨_ | _, prepared⟩
        · rw [put, hparent] at h
          dsimp only at h
          rw [run_bind hmade] at h
          cases (Prod.mk.inj h).1
        · exact ⟨prepared, .folders hparent hmade⟩
    refine ⟨prepared, hprepares, ?_⟩
    rw [put_of_prepares hprepares] at h
    split at h
    · next hwrite =>
      obtain ⟨-, rfl⟩ := Prod.mk.inj h
      exact hwrite
    · cases (Prod.mk.inj h).1
    · cases (Prod.mk.inj h).1
  · rintro ⟨prepared, hprepares, hwrite⟩
    rw [put_of_prepares hprepares, hwrite]

end Storage

/-- In a tree of files a path can be written with any content if it can be with one. -/
theorem FileTree.writable_of_put {base path : String} {content : ByteArray} {top written : FileTree}
    (h : (storage base).put path content top = (.ok (), written)) :
    (storage base).Writable path top := by
  obtain ⟨prepared, hprepares, hwrite⟩ := Storage.put_eq_ok.mp h
  refine ⟨prepared, hprepares, fun other => ?_⟩
  obtain ⟨top', hother⟩ := exists_write hwrite other
  exact ⟨top', hother, content_write hother⟩

namespace ConfigFile

variable {c : Config} {text : String}

theorem fromUTF8_toUTF8 (text : String) : String.fromUTF8? text.toUTF8 = some text := by
  simp only [String.fromUTF8?, String.toUTF8_eq_toByteArray, dif_pos text.isValidUTF8]
  rfl

theorem decode_toToml (valid : c.network.check = .ok ()) (written : c.toToml? = some text)
    (path : String) : decode path (some text.toUTF8) = .ok c := by
  have htext : (some text.toUTF8).bind String.fromUTF8? = some text := fromUTF8_toUTF8 text
  rw [decode, htext]
  dsimp only
  rw [Config.ofToml_toToml written]
  dsimp only
  rw [valid]

variable {σ : Type} (storage : Storage (StateM σ)) (path : String) (s : σ)

theorem save_of_fits (valid : c.network.check = .ok ()) (fits : TomlForm.Fits c.network)
    (writable : storage.Writable path s) :
    ∃ saved, save storage path c s = (.ok (), saved) ∧ (load storage path saved).1 = .ok c := by
  obtain ⟨text, htext⟩ := Option.isSome_iff_exists.mp (c.isSome_toToml.mpr fits)
  obtain ⟨prepared, hprepares, hwrites⟩ := writable
  obtain ⟨saved, hwrite, hread⟩ := hwrites text.toUTF8
  refine ⟨saved, ?_, ?_⟩
  · rw [save, htext]
    exact Storage.put_eq_ok.mpr ⟨prepared, hprepares, hwrite⟩
  · have hload : (load storage path saved).1 = decode path (storage.read path saved).1 := rfl
    rw [hload, hread, decode_toToml valid htext]

/-- A configuration beyond its format is not saved, and nothing is made or written for it. -/
theorem save_of_not_fits (large : ¬ TomlForm.Fits c.network) :
    save storage path c s = (.error .unwritable, s) := by
  have hnone : c.toToml? = none := by
    rw [← Option.not_isSome_iff_eq_none, c.isSome_toToml]
    exact large
  rw [save, hnone]
  rfl

theorem showParameters_json (valid : c.network.check = .ok ()) :
    ∃ text, c.showParameters true = .ok text ∧
      JsonForm.parameters.ofText text = some c.network := by
  rw [Config.showParameters, valid]
  exact ⟨_, rfl, (JsonForm.roundTrips JsonForm.parameters c.network).2⟩

theorem showParameters_toml (valid : c.network.check = .ok ()) (fits : TomlForm.Fits c.network) :
    ∃ text, c.showParameters false = .ok text ∧
      (Toml.parse text).bind TomlForm.parameters? = some c.network := by
  obtain ⟨text, htext⟩ := Option.isSome_iff_exists.mp (c.network.isSome_toToml.mpr fits)
  refine ⟨text, ?_, Parameters.parse_toToml htext⟩
  rw [Config.showParameters, valid]
  simp [htext]

theorem showParameters_of_not_fits (valid : c.network.check = .ok ())
    (large : ¬ TomlForm.Fits c.network) : c.showParameters false = .error (.file .unwritable) := by
  have hnone : c.network.toToml? = none := by
    rw [← Option.not_isSome_iff_eq_none, c.network.isSome_toToml]
    exact large
  rw [Config.showParameters, valid]
  simp [hnone]

/--
A configuration that breaks no rule is saved wherever a file can be written, and loaded again as it
was, exactly if its parameters are in the range of TOML; under the same condition they are shown in
TOML. In JSON they are shown in any case.
-/
theorem kept_iff_fits (valid : c.network.check = .ok ()) :
    (∀ {σ : Type} (storage : Storage (StateM σ)) (path : String) (s : σ), storage.Writable path s →
      ((∃ saved, save storage path c s = (.ok (), saved) ∧ (load storage path saved).1 = .ok c) ↔
        TomlForm.Fits c.network)) ∧
    (∀ {σ : Type} (storage : Storage (StateM σ)) (path : String) (s : σ),
      ¬ TomlForm.Fits c.network → save storage path c s = (.error .unwritable, s)) ∧
    (∃ text, c.showParameters true = .ok text ∧ JsonForm.parameters.ofText text = some c.network) ∧
    ((∃ text, c.showParameters false = .ok text ∧
        (Toml.parse text).bind TomlForm.parameters? = some c.network) ↔ TomlForm.Fits c.network) ∧
    (¬ TomlForm.Fits c.network → c.showParameters false = .error (.file .unwritable)) := by
  refine ⟨?_, fun storage path s => save_of_not_fits storage path s, showParameters_json valid, ?_,
    showParameters_of_not_fits valid⟩
  · intro σ storage path s writable
    constructor
    · rintro ⟨saved, hsave, -⟩
      by_contra large
      rw [save_of_not_fits storage path s large] at hsave
      cases (Prod.mk.inj hsave).1
    · intro fits
      exact save_of_fits storage path s valid fits writable
  · constructor
    · rintro ⟨text, hshow, -⟩
      by_contra large
      rw [showParameters_of_not_fits valid large] at hshow
      cases hshow
    · exact showParameters_toml valid

/-- One configuration is kept in a new file of an empty tree; one is refused for its many
samples. -/
theorem kept_in_new_file :
    (∃ saved, save (FileTree.storage "") "config.toml"
        { node := { subscribeAllSubnets := true, nodeId := some default },
          logging := { level := .debug, format := .json } } FileTree.empty = (.ok (), saved) ∧
      (load (FileTree.storage "") "config.toml" saved).1 =
        .ok { node := { subscribeAllSubnets := true, nodeId := some default },
              logging := { level := .debug, format := .json } }) ∧
    save (FileTree.storage "") "config.toml"
      { network := { samplesPerSlot := 9223372036854775808 } } FileTree.empty =
        (.error .unwritable, FileTree.empty) := by
  have hrelative : "config.toml".startsWith "/" = false := by simp
  have hparent : Path.parent? "config.toml" = some "" := by
    rw [Path.parent?, hrelative]
    rfl
  have hjoin : Path.join "" "config.toml" = "config.toml" := by
    rw [Path.join, hrelative]
    rfl
  have hwrite : (FileTree.storage "").write "config.toml" .empty FileTree.empty =
      (.ok (), .folder [("config.toml", .file .empty)]) := by
    change FileTree.write (Path.join "" "config.toml") .empty FileTree.empty = _
    rw [hjoin]
    rfl
  have writable : (FileTree.storage "").Writable "config.toml" FileTree.empty :=
    FileTree.writable_of_put (Storage.put_eq_ok.mpr ⟨_, .folders hparent rfl, hwrite⟩)
  constructor
  · exact ((kept_iff_fits (by decide)).1 _ _ _ writable).mpr (by decide)
  · exact (kept_iff_fits (by decide)).2.1 _ _ _ (by decide)

end ConfigFile

end ColumnSampling
