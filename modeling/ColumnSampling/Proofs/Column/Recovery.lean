import ColumnSampling.Proofs.Column.Honest
import ColumnSampling.Proofs.Column.Lookup

/-!
# Columns from half of the columns

Which columns a list covers is a finite set, and everything that reconstruction does with columns of
one encoding depends on this set alone, not on the order of the list or on repetitions. With all
columns it sorts them; with half of them it asks the backend for each row and encodes again. Both
ways lead back to the encoding.
-/

namespace ColumnSampling.Reconstruction

open Encoding VerifiedColumn

variable {sidecars rest found : List VerifiedColumn} {first : VerifiedColumn} {shared : Shared}
  {rows : List ExtendedBlob} {rebuilt : List ColumnSidecar} {kzg : KzgBackend} {p : Parameters}
  {n : ℕ}

/-- The columns that a list covers. -/
def coverage (sidecars : List VerifiedColumn) : Finset ℕ := (sidecars.map (·.index)).toFinset

/-- The columns of a list, each with its first sidecar. -/
def present (sidecars : List VerifiedColumn) : List VerifiedColumn :=
  (Ascending.ofList (sidecars.map (·.index))).filterMap (firstOf sidecars)

theorem mem_coverage {c : ℕ} : c ∈ coverage sidecars ↔ ∃ v ∈ sidecars, v.index = c := by
  simp [coverage]

theorem ofList_index : Ascending.ofList (sidecars.map (·.index)) = (coverage sidecars).sort :=
  Ascending.ofList_eq_sort _

theorem map_present {α : Type} {f : VerifiedColumn → α} {g : ℕ → α}
    (h : ∀ v ∈ sidecars, f v = g v.index) :
    (present sidecars).map f = (coverage sidecars).sort.map g := by
  rw [present, ofList_index]
  refine map_filterMap_find (fun c hc => ?_) h
  rw [Finset.mem_sort, mem_coverage] at hc
  obtain ⟨v, hv⟩ := Option.isSome_iff_exists.mp (isSome_firstOf.mpr hc)
  exact ⟨v, hv, firstOf_eq_some hv⟩

theorem map_index_present : (present sidecars).map (·.index) = (coverage sidecars).sort :=
  (map_present fun _ _ => rfl).trans (List.map_id _)

theorem length_present : (present sidecars).length = (coverage sidecars).card := by
  rw [← Finset.length_sort (· ≤ ·), ← map_index_present, List.length_map]

theorem present_ne_nil (h : sidecars ≠ []) : present sidecars ≠ [] := by
  obtain ⟨first, rest, rfl⟩ := List.exists_cons_of_ne_nil h
  have hfirst : first.index ∈ coverage (first :: rest) := mem_coverage.mpr ⟨first, by simp, rfl⟩
  rw [← List.length_pos_iff, length_present, Finset.card_pos]
  exact ⟨_, hfirst⟩

theorem mem_of_mem_present {v : VerifiedColumn} (h : v ∈ present sidecars) : v ∈ sidecars := by
  obtain ⟨_, -, hfirst⟩ := List.mem_filterMap.mp h
  exact (firstOf_eq_some hfirst).1

theorem rowCount_present {count : ℕ} (hne : sidecars ≠ [])
    (h : ∀ v ∈ sidecars, v.blobCount = count) :
    (present sidecars).head?.elim 0 (·.blobCount) = count := by
  obtain ⟨v, others, hpresent⟩ := List.exists_cons_of_ne_nil (present_ne_nil hne)
  have hv : v ∈ sidecars := mem_of_mem_present (by simp [hpresent])
  rw [hpresent]
  exact h v hv

theorem blobCount_present (same : ∀ v ∈ first :: rest, first.SameBlock v) :
    (present (first :: rest)).head?.elim 0 (·.blobCount) = first.blobCount :=
  rowCount_present (List.cons_ne_nil first rest) fun v hv => (same v hv).blobCount_eq.symm

theorem coverage_subset_range (below : ∀ v ∈ sidecars, v.index < n) :
    coverage sidecars ⊆ Finset.range n := by
  intro c hc
  obtain ⟨v, hv, rfl⟩ := mem_coverage.mp hc
  exact Finset.mem_range.mpr (below v hv)

theorem coverage_eq_range (below : ∀ v ∈ sidecars, v.index < n)
    (all : n ≤ (coverage sidecars).card) : coverage sidecars = Finset.range n :=
  Finset.eq_of_subset_of_card_le (coverage_subset_range below) (by rwa [Finset.card_range])

theorem distinctColumns_eq_ok : distinctColumns (first :: rest) = .ok found ↔
    (∀ v ∈ first :: rest, first.SameBlock v) ∧ present (first :: rest) = found := by
  rw [← forM_sameBlock_eq_ok]
  unfold distinctColumns present
  cases hsame : (first :: rest).forM first.sameBlock with
  | error cause => simp [hsame]
  | ok _ => simp [hsame]

/-- Reconstruction sorts a full set, and encodes the recovered rows of half of a set again. -/
theorem columns_eq_ok : columns kzg (first :: rest) p = .ok rebuilt ↔
    (∀ v ∈ first :: rest, first.SameBlock v) ∧
      ((p.columns ≤ (coverage (first :: rest)).card ∧
          (present (first :: rest)).map (·.sidecar) = rebuilt) ∨
        ((coverage (first :: rest)).card < p.columns ∧
          p.columnsForRecovery ≤ (coverage (first :: rest)).card ∧
          ∃ rows, recoverRows kzg (present (first :: rest)) = .ok rows ∧
            transpose (sharedOf first) rows p = .ok rebuilt)) := by
  unfold columns recover
  cases hdistinct : distinctColumns (first :: rest) with
  | error cause =>
    have hnot : ¬ ∀ v ∈ first :: rest, first.SameBlock v := by
      intro same
      rw [distinctColumns_eq_ok.mpr ⟨same, rfl⟩] at hdistinct
      cases hdistinct
    constructor
    · intro h
      cases h
    · rintro ⟨same, -⟩
      exact absurd same hnot
  | ok found =>
    obtain ⟨same, rfl⟩ := distinctColumns_eq_ok.mp hdistinct
    rw [and_iff_right same]
    simp only [length_present]
    split_ifs with hall hfew
    · simp [hall]
    · simp [hall, hfew]
    · rw [not_le] at hall
      rw [not_lt] at hfew
      cases hrows : recoverRows kzg (present (first :: rest)) with
      | error cause => simp [hall]
      | ok rows =>
        cases htranspose : transpose (sharedOf first) rows p with
        | error cause => simp [hall, htranspose]
        | ok built => simp [hall, hfew, htranspose]

section Lack

theorem columns_of_sameBlock_few (same : ∀ v ∈ sidecars, ∀ w ∈ sidecars, v.SameBlock w)
    (few : (coverage sidecars).card < p.columnsForRecovery)
    (half : p.columnsForRecovery ≤ p.columns) :
    columns kzg sidecars p = .error (.reconstruction
      (if (coverage sidecars).card = 0 then .noSidecars
        else .notEnoughColumns (coverage sidecars).card p.columnsForRecovery)) := by
  cases sidecars with
  | nil => rfl
  | cons first rest =>
    have hfirst : first.index ∈ coverage (first :: rest) :=
      mem_coverage.mpr ⟨first, List.mem_cons_self, rfl⟩
    have hdistinct := distinctColumns_eq_ok.mpr ⟨same first List.mem_cons_self, rfl⟩
    unfold columns
    simp only [hdistinct, length_present]
    rw [if_neg (by omega), if_pos few, if_neg (Finset.card_ne_zero_of_mem hfirst)]

theorem recoverRows_eq_error {present : List VerifiedColumn} {cause : ReconstructionError}
    (h : recoverRows kzg present = .error cause) :
    ∃ row reason, cause = .blobRecovery row reason := by
  obtain ⟨row, -, hrow⟩ := Outcome.mapM_eq_error h
  unfold recoverRow at hrow
  split at hrow
  · cases hrow
    exact ⟨_, _, rfl⟩
  · cases hrow

theorem columns_of_sameBlock_enough (same : ∀ v ∈ sidecars, ∀ w ∈ sidecars, v.SameBlock w)
    (half : 0 < p.columnsForRecovery) (enough : p.columnsForRecovery ≤ (coverage sidecars).card)
    {cause : ReconstructionError} (h : columns kzg sidecars p = .error (.reconstruction cause)) :
    ∃ row reason, cause = .blobRecovery row reason := by
  cases sidecars with
  | nil => exact absurd (half.trans_le enough) (by decide)
  | cons first rest =>
    have hdistinct := distinctColumns_eq_ok.mpr ⟨same first List.mem_cons_self, rfl⟩
    unfold columns recover at h
    simp only [hdistinct, length_present] at h
    rw [if_neg (Nat.not_lt.mpr enough)] at h
    split at h
    · cases h
    · cases hrows : recoverRows kzg (present (first :: rest)) with
      | error e =>
        simp only [hrows] at h
        cases h
        exact recoverRows_eq_error hrows
      | ok rows =>
        simp only [hrows] at h
        split at h <;> cases h

theorem columns_lacking_iff (hcolumns : 0 < p.columns)
    (same : ∀ v ∈ sidecars, ∀ w ∈ sidecars, v.SameBlock w) :
    ((coverage sidecars).card < p.columnsForRecovery ↔
      columns kzg sidecars p = .error (.reconstruction
        (if (coverage sidecars).card = 0 then .noSidecars
          else .notEnoughColumns (coverage sidecars).card p.columnsForRecovery))) ∧
      (p.columnsForRecovery ≤ (coverage sidecars).card →
        columns kzg sidecars p ≠ .error (.reconstruction .noSidecars) ∧
        ∀ present need,
          columns kzg sidecars p ≠ .error (.reconstruction (.notEnoughColumns present need))) := by
  have hhalf : 0 < p.columnsForRecovery ∧ p.columnsForRecovery ≤ p.columns := by
    rw [Parameters.columnsForRecovery]
    omega
  refine ⟨⟨fun few => columns_of_sameBlock_few same few hhalf.2, fun hfailed => ?_⟩,
    fun enough => ⟨fun hfailed => ?_, fun present need hfailed => ?_⟩⟩
  · by_contra few
    obtain ⟨row, reason, hcause⟩ :=
      columns_of_sameBlock_enough same hhalf.1 (Nat.le_of_not_lt few) hfailed
    split_ifs at hcause
  · obtain ⟨row, reason, hcause⟩ := columns_of_sameBlock_enough same hhalf.1 enough hfailed
    cases hcause
  · obtain ⟨row, reason, hcause⟩ := columns_of_sameBlock_enough same hhalf.1 enough hfailed
    cases hcause

end Lack

section Taken

variable (taken : TakenFrom shared rows n sidecars)

include taken

theorem sharedOf_eq {v : VerifiedColumn} (hv : v ∈ sidecars) : sharedOf v = shared := by
  rw [sharedOf, taken.header_eq hv, (taken v hv).2]
  rfl

theorem coverage_subset : coverage sidecars ⊆ Finset.range n :=
  coverage_subset_range fun v hv => (taken v hv).1

theorem map_sidecar_present : (present sidecars).map (·.sidecar) =
    (coverage sidecars).sort.map (column shared rows) :=
  map_present fun v hv => (taken v hv).2

section Rectangular

variable (rect : ∀ row ∈ rows, row.length = n)

include rect

theorem rowCells_present {r : ℕ} (hr : r < rows.length) :
    rowCells (present sidecars) r = (coverage sidecars).sort.filterMap (rows[r].cells[·]?) := by
  have hrow : rows[r].length = n := rect _ (List.getElem_mem hr)
  have hgathered : rowCells (present sidecars) r = (coverage sidecars).sort.map rows[r].cell := by
    rw [← map_present fun _ _ => rfl, rowCells, ← List.filterMap_eq_map']
    exact List.filterMap_congr fun v hv =>
      taken.cells_getElem? rect (mem_of_mem_present hv) hr
  rw [hgathered, ← List.filterMap_eq_map']
  refine List.filterMap_congr fun c hc => ?_
  have hc := coverage_subset taken ((Finset.mem_sort _).mp hc)
  exact (ExtendedBlob.cells_getElem? ((Finset.mem_range.mp hc).trans_eq hrow.symm)).symm

theorem recoverRows_present (hne : sidecars ≠ [])
    (recovers : ∀ row ∈ rows, kzg.recover (coverage sidecars).sort
      ((coverage sidecars).sort.filterMap (row.cells[·]?)) = .ok row) :
    recoverRows kzg (present sidecars) = .ok rows := by
  have hcount := rowCount_present hne fun _ hv => taken.blobCount_eq rect hv
  rw [recoverRows, hcount, Outcome.mapM_eq_ok, List.forall₂_iff_get]
  refine ⟨List.length_range, fun r _ hr => ?_⟩
  have hrow := recovers rows[r] (List.getElem_mem hr)
  simp only [List.get_eq_getElem, List.getElem_range, recoverRow, map_index_present,
    rowCells_present taken rect hr, hrow]

theorem columns_of_few (hne : sidecars ≠ []) (few : (coverage sidecars).card < p.columnsForRecovery)
    (half : p.columnsForRecovery ≤ p.columns) :
    columns kzg sidecars p = .error (.reconstruction
      (.notEnoughColumns (coverage sidecars).card p.columnsForRecovery)) := by
  obtain ⟨first, hfirst⟩ := List.exists_mem_of_ne_nil _ hne
  have hcovered : first.index ∈ coverage sidecars := mem_coverage.mpr ⟨first, hfirst, rfl⟩
  have same : ∀ v ∈ sidecars, ∀ w ∈ sidecars, v.SameBlock w := fun _ hv _ hw =>
    taken.sameBlock rect hv hw
  rw [columns_of_sameBlock_few same few half, if_neg (Finset.card_ne_zero_of_mem hcovered)]

theorem columns_of_all (hne : sidecars ≠ []) (all : (coverage sidecars).card = n)
    (hn : p.columns = n) :
    columns kzg sidecars p = .ok ((List.range n).map (column shared rows)) := by
  have hcovered : coverage sidecars = Finset.range n :=
    coverage_eq_range (fun v hv => (taken v hv).1) all.ge
  obtain ⟨first, rest, rfl⟩ := List.exists_cons_of_ne_nil hne
  rw [columns_eq_ok, map_sidecar_present taken, all, hcovered, Finset.sort_range]
  exact ⟨fun _ hv => taken.sameBlock rect List.mem_cons_self hv, .inl ⟨hn.le, rfl⟩⟩

theorem columns_of_recovered (hne : sidecars ≠ []) (hn : p.columns = n)
    (enough : p.columnsForRecovery ≤ (coverage sidecars).card)
    (less : (coverage sidecars).card < p.columns)
    (recovers : ∀ row ∈ rows, kzg.recover (coverage sidecars).sort
      ((coverage sidecars).sort.filterMap (row.cells[·]?)) = .ok row) :
    columns kzg sidecars p = .ok ((List.range n).map (column shared rows)) := by
  have hrecover := recoverRows_present taken rect hne recovers
  obtain ⟨first, rest, rfl⟩ := List.exists_cons_of_ne_nil hne
  have hencode : transpose (sharedOf first) rows p =
      .ok ((List.range n).map (column shared rows)) := by
    rw [sharedOf_eq taken List.mem_cons_self, transpose_eq_ok, hn]
    exact ⟨rect, rfl⟩
  rw [columns_eq_ok]
  exact ⟨fun _ hv => taken.sameBlock rect List.mem_cons_self hv,
    .inr ⟨less, enough, rows, hrecover, hencode⟩⟩

end Rectangular

end Taken

/--
Reconstruction from columns of one encoding. Fewer columns than half of them are refused with their
number, all of them are given back in order whatever the backend does, and from any other set of
columns a backend that recovers the rows leads to the encoding again.
-/
theorem columns_of_encoded (accepted : p.check = .ok ()) {block : SignedBlock} (hrows : rows ≠ [])
    {encoded : List ColumnSidecar} (hencoded : Encoding.sidecars (some block) rows p = .ok encoded)
    (taken : ∀ v ∈ sidecars, v.sidecar ∈ encoded) (kzg : KzgBackend) :
    encoded.length = 128 ∧ (coverage sidecars).card ≤ 128 ∧
      (sidecars = [] → columns kzg sidecars p = .error (.reconstruction .noSidecars)) ∧
      (0 < (coverage sidecars).card → (coverage sidecars).card < 64 →
        columns kzg sidecars p =
          .error (.reconstruction (.notEnoughColumns (coverage sidecars).card 64))) ∧
      ((coverage sidecars).card = 128 → columns kzg sidecars p = .ok encoded) ∧
      (64 ≤ (coverage sidecars).card → (coverage sidecars).card < 128 →
        (∀ row ∈ rows, kzg.recover (coverage sidecars).sort
          ((coverage sidecars).sort.filterMap (row.cells[·]?)) = .ok row) →
        columns kzg sidecars p = .ok encoded) := by
  have valid := Parameters.valid_of_check accepted
  have hcolumns := valid.columns_eq_128
  have hhalf := valid.columnsForRecovery_eq_64
  obtain ⟨-, shared, -, htranspose⟩ := (Encoding.sidecars_eq_ok hrows).mp hencoded
  obtain ⟨rect, rfl⟩ := Encoding.transpose_eq_ok.mp htranspose
  rw [hcolumns] at rect taken ⊢
  have taken : TakenFrom shared rows 128 sidecars := fun v hv =>
    Encoding.eq_column_of_mem (by decide) (fun _ => List.mem_range.mp) (taken v hv)
  have hne : 0 < (coverage sidecars).card → sidecars ≠ [] := by
    rintro hpos rfl
    exact absurd hpos (by decide)
  refine ⟨by simp, ?_, ?_, ?_, ?_, ?_⟩
  · simpa using Finset.card_le_card (coverage_subset taken)
  · rintro rfl
    rfl
  · intro hpos few
    rw [← hhalf] at few ⊢
    exact columns_of_few taken rect (hne hpos) few (by omega)
  · intro all
    exact columns_of_all taken rect (hne (by omega)) all hcolumns
  · intro enough less recovers
    exact columns_of_recovered taken rect (hne (by omega)) hcolumns (by omega) (by omega) recovers

/-- The first half of the columns of a blob of zeros. -/
theorem columns_of_zeros :
    ∃ (block : SignedBlock) (encoded : List ColumnSidecar) (sidecars : List VerifiedColumn),
      Encoding.sidecars (some block) [.zeros] {} = .ok encoded ∧
        (∀ v ∈ sidecars, v.sidecar ∈ encoded) ∧ coverage sidecars = Finset.range 64 ∧
        columns .zeros sidecars {} = .ok encoded := by
  obtain ⟨block, shared, -, honest⟩ := Encoding.exists_honest_zeros 0
  have valid := Parameters.valid_default
  have serves : KzgBackend.zeros.Serves [.zeros] := KzgBackend.serves_zeros (by simp)
  have hcolumns : ∀ c ∈ List.range 64, c < 128 := fun c hc =>
    (List.mem_range.mp hc).trans (by decide)
  have hencoded := honest.sidecars_eq valid (by simp)
  obtain ⟨verified, hverify⟩ := honest.exists_verify valid serves (by simp) hcolumns
  have hsidecars := Verification.map_sidecar_of_verify hverify
  have hcoverage : coverage verified = Finset.range 64 := by
    rw [coverage, Encoding.map_index_of_map (by decide) hcolumns hsidecars]
    ext c
    simp
  have taken : ∀ v ∈ verified, v.sidecar ∈ (List.range 128).map (column shared [.zeros]) := by
    intro v hv
    have hmem := List.mem_map_of_mem (f := (·.sidecar)) hv
    rw [hsidecars] at hmem
    obtain ⟨c, hc, hcolumn⟩ := List.mem_map.mp hmem
    exact List.mem_map.mpr ⟨c, List.mem_range.mpr (hcolumns c hc), hcolumn⟩
  have recovers : ∀ row ∈ [ExtendedBlob.zeros], KzgBackend.zeros.recover (Finset.range 64).sort
      ((Finset.range 64).sort.filterMap (row.cells[·]?)) = .ok row := by
    intro row hrow
    rw [List.mem_singleton.mp hrow]
    rfl
  obtain ⟨-, -, -, -, -, hrecovered⟩ :=
    columns_of_encoded (p := {}) rfl (by simp) hencoded taken .zeros
  rw [hcoverage, Finset.card_range] at hrecovered
  exact ⟨block, _, verified, hencoded, taken, hcoverage,
    hrecovered le_rfl (by decide) recovers⟩

end ColumnSampling.Reconstruction
