import ColumnSampling.Proofs.Column.Honest
import ColumnSampling.Proofs.Engine.Run

/-!
# Failed calls

Whatever a call did on its way to a failure, it leaves behind an engine that differs from the one
before in its counters alone, and nothing that an engine answers depends on its counters.
-/

namespace ColumnSampling

theorem PeerCache.ask_of_error {c c' : PeerCache} {id : NodeId} {count : ℕ} {p : Parameters}
    {cause : CustodyError} (h : c.ask id count p = (.error cause, c')) : c' = c := by
  simp only [ask] at h
  split at h
  · cases h
  · split at h
    · exact (congrArg Prod.snd h).symm
    · cases h

namespace Engine

/-- Engines that differ in nothing but what they counted. -/
def Agrees (e e' : Engine) : Prop := ∃ counters, e' = { e with counters := counters }

/-- The operations on blobs and columns, which have nothing to do with custody. -/
def Operation.OnColumns : Operation → Prop
  | .buildSidecars .. | .verifySidecars .. | .rebuildBlobs .. | .rebuildColumns .. => True
  | _ => False

variable {e e' : Engine}

section Agrees

theorem agrees_refl (e : Engine) : e.Agrees e := ⟨e.counters, rfl⟩

theorem agrees_count (e : Engine) (counters : Counters) :
    e.Agrees { e with counters := counters } := ⟨counters, rfl⟩

theorem Agrees.peerCustody (h : e.Agrees e') (id : NodeId) (count : ℕ) :
    (e'.peerCustody id count).1 = (e.peerCustody id count).1 ∧
      (e.peerCustody id count).2.Agrees (e'.peerCustody id count).2 := by
  obtain ⟨counters, rfl⟩ := h
  unfold Engine.peerCustody
  rcases e.peers.ask id count e.parameters with ⟨cause | ⟨answer, remembered⟩, peers⟩
  · exact ⟨rfl, agrees_count _ _⟩
  · exact ⟨rfl, agrees_count _ _⟩

theorem Agrees.perform (h : e.Agrees e') (operation : Operation) :
    (e'.perform operation).1 = (e.perform operation).1 ∧
      (e.after operation).Agrees (e'.after operation) := by
  obtain ⟨counters, rfl⟩ := h
  have agrees := agrees_count e counters
  -- Once the counters of the second engine are named, both run through the same branches.
  cases operation with
  | buildSidecars block blobs =>
    simp only [Engine.perform, after, answering, buildSidecars, encode]
    split
    · exact ⟨rfl, agrees⟩
    · exact ⟨rfl, agrees⟩
    · split
      · exact ⟨rfl, agrees⟩
      · exact ⟨rfl, agrees_count _ _⟩
  | verifySidecars batch =>
    simp only [Engine.perform, after, answering, verifySidecars]
    cases Verification.verify e.kzg batch e.parameters with
    | error cause => exact ⟨rfl, agrees_count _ _⟩
    | ok columns => exact ⟨rfl, agrees_count _ _⟩
  | rebuildBlobs columns indices => exact ⟨rfl, agrees⟩
  | rebuildColumns columns => exact ⟨rfl, agrees_count _ _⟩
  | updateValidators balance indices =>
    simp only [Engine.perform, after, answering, updateValidators]
    split
    · exact ⟨rfl, agrees⟩
    · exact ⟨rfl, agrees_count _ _⟩
  | announce count => exact ⟨rfl, agrees_count _ _⟩
  | peerCustody id count =>
    obtain ⟨hanswer, hagrees⟩ := agrees.peerCustody id count
    exact ⟨congrArg (·.map Answer.custody) hanswer, hagrees⟩
  | peerCustodyFromRecord id record =>
    simp only [Engine.perform, after, answering, peerCustodyFromRecord]
    split
    · exact ⟨rfl, agrees⟩
    · obtain ⟨hanswer, hagrees⟩ := agrees.peerCustody id _
      exact ⟨congrArg (·.map Answer.custody) hanswer, hagrees⟩
  | samplingColumns id kind =>
    obtain ⟨hanswer, hagrees⟩ :=
      agrees.peerCustody id (e.custody.samplingSize kind e.parameters)
    simp only [Engine.perform, after, answering, samplingColumns_eq_map]
    exact ⟨by rw [hanswer], hagrees⟩

theorem Agrees.run (h : e.Agrees e') (later : List Operation) :
    (e'.answers later = e.answers later) ∧ (e.run later).Agrees (e'.run later) := by
  induction later generalizing e e' with
  | nil => exact ⟨rfl, h⟩
  | cons operation rest ih =>
    obtain ⟨hanswer, hagrees⟩ := h.perform operation
    obtain ⟨hanswers, hrun⟩ := ih hagrees
    exact ⟨by rw [answers, answers, hanswer, hanswers], hrun⟩

end Agrees

section Failed

theorem agrees_after_of_onColumns {operation : Operation} (h : operation.OnColumns) :
    e.Agrees (e.after operation) := by
  cases operation with
  | buildSidecars block blobs =>
    simp only [after, buildSidecars]
    split
    · exact agrees_refl e
    · exact agrees_refl e
    · split
      · exact agrees_refl e
      · exact agrees_count e _
  | verifySidecars batch =>
    simp only [after, verifySidecars]
    split <;> exact agrees_count e _
  | rebuildBlobs columns indices => exact agrees_refl e
  | rebuildColumns columns => exact agrees_count e _
  | _ => exact h.elim

theorem peerCustody_of_error {id : NodeId} {count : ℕ} {cause : EngineError}
    (h : (e.peerCustody id count).1 = .error cause) : (e.peerCustody id count).2 = e := by
  unfold peerCustody at h ⊢
  split at h
  · next hask =>
    simp only
    rw [PeerCache.ask_of_error hask]
  · cases h

theorem agrees_after_of_error {operation : Operation} {cause : EngineError}
    (h : (e.perform operation).1 = .error cause) : e.Agrees (e.after operation) := by
  cases operation with
  | buildSidecars | verifySidecars | rebuildBlobs | rebuildColumns =>
    exact agrees_after_of_onColumns trivial
  | updateValidators balance indices =>
    simp only [perform, after, answering, updateValidators] at h ⊢
    split at h
    · exact agrees_refl e
    · cases h
  | announce count => cases h
  | peerCustody id count =>
    simp only [after, peerCustody_of_error (Outcome.map_eq_error h)]
    exact agrees_refl e
  | peerCustodyFromRecord id record =>
    have hfailed := Outcome.map_eq_error h
    simp only [after]
    unfold peerCustodyFromRecord at hfailed ⊢
    split at hfailed
    · exact agrees_refl e
    · simp only [peerCustody_of_error hfailed]
      exact agrees_refl e
  | samplingColumns id kind =>
    have hfailed := Outcome.map_eq_error h
    rw [samplingColumns_eq_map] at hfailed
    simp only [after, samplingColumns_eq_map, peerCustody_of_error (Outcome.map_eq_error hfailed)]
    exact agrees_refl e

/--
A call that fails, and any call about blobs and columns, leaves the custody counts, the remembered
answers and their order as they were. Whatever is asked later has the answer that it would have had
without that call, and the two engines never differ in more than their counters.
-/
theorem answers_after_failed (e : Engine) (operation : Operation)
    (h : (∃ cause, (e.perform operation).1 = .error cause) ∨ operation.OnColumns) :
    (e.after operation).custody = e.custody ∧ (e.after operation).peers = e.peers ∧
      ∀ later, (e.after operation).answers later = e.answers later ∧
        (e.run later).Agrees ((e.after operation).run later) := by
  have agrees : e.Agrees (e.after operation) := by
    rcases h with ⟨cause, hfailed⟩ | hcolumns
    · exact agrees_after_of_error hfailed
    · exact agrees_after_of_onColumns hcolumns
  refine ⟨?_, ?_, fun later => agrees.run later⟩
  · obtain ⟨counters, hafter⟩ := agrees
    rw [hafter]
  · obtain ⟨counters, hafter⟩ := agrees
    rw [hafter]

/-- The balance of the second validator is not known, and an earlier requirement stays. -/
theorem answers_after_unknown_balance : ∃ created e : Engine,
    create .zeros {} false = .ok created ∧
      created.run [.updateValidators (fun _ => .ok 320000000000) [0], .announce 200] = e ∧
      e.custody.requirement = some 10 ∧
      let operation : Operation :=
        .updateValidators (fun i => if i = 1 then .error "unknown" else .ok 0) [0, 1]
      (e.perform operation).1 = .error (.custody (.validatorBalance 1 "unknown")) ∧
        (e.after operation).custody = e.custody ∧ (e.after operation).peers = e.peers ∧
        ∀ later, (e.after operation).answers later = e.answers later ∧
          (e.run later).Agrees ((e.after operation).run later) :=
  ⟨_, _, rfl, rfl, rfl, rfl, answers_after_failed _ _ (.inl ⟨_, rfl⟩)⟩

end Failed

end Engine

end ColumnSampling
