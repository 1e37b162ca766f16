import ColumnSampling.Proofs.Wire.Bytes
import ColumnSampling.Wire.Config
import ColumnSampling.Wire.Sidecar

/-!
# Every record is read back

Each record is read off the fields that it is written with, so its form is lawful because the forms
of its fields are. The texts of every value of the network and of the configuration are thus read as
that value.
-/

namespace ColumnSampling.JsonForm

section Blocks

instance lawful_header : header.Lawful := by
  refine lawful_record (by decide) (fun _ => rfl) ?_ ?_
  · intro h
    simp
  · intro h field given
    simp only [List.zip_cons_cons, List.forall_mem_cons] at given
    simp [given]

instance lawful_signedHeader : signedHeader.Lawful := by
  refine lawful_record (by decide) (fun _ => rfl) ?_ ?_
  · intro h
    simp
  · intro h field given
    simp only [List.zip_cons_cons, List.forall_mem_cons] at given
    simp [given]

instance lawful_bodyRoots : bodyRoots.Lawful := by
  refine lawful_record (by decide) (fun _ => rfl) ?_ ?_
  · intro r
    simp
  · intro r field given
    simp only [bodyRootNames, List.map_cons, List.zip_cons_cons, List.forall_mem_cons] at given
    obtain ⟨h₁, h₂, h₃, h₄, h₅, h₆, h₇, h₈, h₉, h₁₀, h₁₁, -⟩ := given
    -- Field by field: simp would go through the rest of the record twice at each of them.
    rw [bind_required h₁, bind_required h₂, bind_required h₃, bind_required h₄, bind_required h₅,
      bind_required h₆, bind_required h₇, bind_required h₈, bind_required h₉, bind_required h₁₀,
      bind_required h₁₁]
    rfl

instance lawful_body : body.Lawful := by
  refine lawful_record (by decide) (fun _ => rfl) ?_ ?_
  · intro b
    simp
  · intro b field given
    simp only [List.zip_cons_cons, List.forall_mem_cons] at given
    simp [given]

instance lawful_block : block.Lawful := by
  refine lawful_record (by decide) (fun _ => rfl) ?_ ?_
  · intro b
    simp
  · intro b field given
    simp only [List.zip_cons_cons, List.forall_mem_cons] at given
    simp [given]

instance lawful_signedBlock : signedBlock.Lawful := by
  refine lawful_record (by decide) (fun _ => rfl) ?_ ?_
  · intro b
    simp
  · intro b field given
    simp only [List.zip_cons_cons, List.forall_mem_cons] at given
    simp [given]

end Blocks

section Sidecars

instance lawful_columnSidecar : columnSidecar.Lawful := by
  have lawful_header : signedHeader.option.Lawful := lawful_option fun _ => nofun
  refine lawful_record (by decide) (fun _ => rfl) ?_ ?_
  · intro s
    simp
  · intro s field given
    simp only [List.zip_cons_cons, List.forall_mem_cons] at given
    simp [given]

instance lawful_blobSidecar : blobSidecar.Lawful := by
  refine lawful_record (by decide) (fun _ => rfl) ?_ ?_
  · intro s
    simp
  · intro s field given
    simp only [List.zip_cons_cons, List.forall_mem_cons] at given
    simp [given]

end Sidecars

section Configurations

instance lawful_parameters : parameters.Lawful := by
  refine lawful_record (by decide) (fun _ => rfl) ?_ ?_
  · intro p
    simp
  · intro p field given
    simp only [parameterNames, parameterValues, List.map_cons, List.zip_cons_cons,
      List.forall_mem_cons] at given
    obtain ⟨h₁, h₂, h₃, h₄, h₅, h₆, h₇, h₈, h₉, h₁₀, h₁₁, -⟩ := given
    dsimp only [parametersOf]
    rw [bind_withDefault h₁, bind_withDefault h₂, bind_withDefault h₃, bind_withDefault h₄,
      bind_withDefault h₅, bind_withDefault h₆, bind_withDefault h₇, bind_withDefault h₈,
      bind_withDefault h₉, bind_withDefault h₁₀, bind_withDefault h₁₁]
    rfl

instance lawful_logLevel : logLevel.Lawful := by
  apply lawful_oneOf
  intro level
  cases level <;> rfl

instance lawful_logFormat : logFormat.Lawful := by
  apply lawful_oneOf
  intro format
  cases format <;> rfl

instance lawful_nodeSettings : nodeSettings.Lawful := by
  have lawful_id : nodeId.option.Lawful := lawful_option fun _ => nofun
  refine lawful_record (by decide) (fun _ => rfl) ?_ ?_
  · intro s
    simp
  · intro s field given
    simp only [List.zip_cons_cons, List.forall_mem_cons] at given
    simp [given]

instance lawful_logSettings : logSettings.Lawful := by
  refine lawful_record (by decide) (fun _ => rfl) ?_ ?_
  · intro s
    simp
  · intro s field given
    simp only [List.zip_cons_cons, List.forall_mem_cons] at given
    simp [given]

instance lawful_config : config.Lawful := by
  refine lawful_record (by decide) (fun _ => rfl) ?_ ?_
  · intro c
    simp
  · intro c field given
    simp only [List.zip_cons_cons, List.forall_mem_cons] at given
    simp [given]

end Configurations

/-- The texts of every value of the network and of the configuration are read as that value. -/
theorem roundTrips_all :
    parameters.RoundTrips ∧ config.RoundTrips ∧ nodeId.RoundTrips ∧ commitment.RoundTrips ∧
      proof.RoundTrips ∧ signature.RoundTrips ∧ blob.RoundTrips ∧ cell.RoundTrips ∧
      header.RoundTrips ∧ signedHeader.RoundTrips ∧ bodyRoots.RoundTrips ∧ body.RoundTrips ∧
      signedBlock.RoundTrips ∧ columnSidecar.RoundTrips ∧ blobSidecar.RoundTrips :=
  ⟨roundTrips parameters, roundTrips config, roundTrips nodeId, roundTrips commitment,
    roundTrips proof, roundTrips signature, roundTrips blob, roundTrips cell, roundTrips header,
    roundTrips signedHeader, roundTrips bodyRoots, roundTrips body, roundTrips signedBlock,
    roundTrips columnSidecar, roundTrips blobSidecar⟩

end ColumnSampling.JsonForm
