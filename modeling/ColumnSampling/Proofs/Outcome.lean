import Mathlib.Data.List.Forall2
import Mathlib.Tactic

/-!
# Chains of steps that may fail

A chain of steps ends well exactly when every step does. The checks of a batch are a `forM`, and the
lists that are built item by item are a `mapM`; both stop at the first failure.
-/

namespace ColumnSampling.Outcome

variable {ε α β : Type}

theorem bind_eq_ok {x : Except ε α} {f : α → Except ε β} {b : β} :
    (x >>= f) = .ok b ↔ ∃ a, x = .ok a ∧ f a = .ok b := by
  cases x with
  | error e => simp [bind, Except.bind]
  | ok a => simp [bind, Except.bind]

theorem toOption_eq_some {x : Except ε α} {a : α} : x.toOption = some a ↔ x = .ok a := by
  cases x with
  | error e => simp [Except.toOption]
  | ok b => simp [Except.toOption]

theorem map_eq_error {x : Except ε α} {f : α → β} {e : ε} (h : x.map f = .error e) :
    x = .error e := by
  cases x with
  | error _ => exact congrArg _ (Except.error.inj h)
  | ok _ => cases h

theorem forM_eq_ok {f : α → Except ε Unit} {items : List α} :
    items.forM f = .ok () ↔ ∀ x ∈ items, f x = .ok () := by
  induction items with
  | nil => simp [pure, Except.pure]
  | cons x rest ih =>
    rw [List.forM_eq_forM] at ih ⊢
    rw [List.forM_cons, bind_eq_ok, List.forall_mem_cons, ← ih]
    constructor
    · rintro ⟨⟨⟩, hx, hrest⟩
      exact ⟨hx, hrest⟩
    · rintro ⟨hx, hrest⟩
      exact ⟨(), hx, hrest⟩

/-- What stops a chain of checks is its first failure; the items after it are not looked at. -/
theorem forM_eq_error {f : α → Except ε Unit} {items : List α} {e : ε} :
    items.forM f = .error e ↔ ∃ before x after, items = before ++ x :: after ∧
      (∀ y ∈ before, f y = .ok ()) ∧ f x = .error e := by
  induction items with
  | nil => simp [pure, Except.pure]
  | cons y rest ih =>
    rw [List.forM_eq_forM] at ih ⊢
    rw [List.forM_cons]
    cases hy : f y with
    | error cause =>
      constructor
      · rintro ⟨⟩
        exact ⟨[], y, rest, rfl, by simp, hy⟩
      · rintro ⟨_ | ⟨z, before⟩, x, after, hitems, hbefore, hx⟩
        · cases hitems
          exact hy.symm.trans hx
        · cases hitems
          rw [(List.forall_mem_cons.mp hbefore).1] at hy
          cases hy
    | ok _ =>
      refine ih.trans ⟨?_, ?_⟩
      · rintro ⟨before, x, after, rfl, hbefore, hx⟩
        exact ⟨y :: before, x, after, rfl, List.forall_mem_cons.mpr ⟨hy, hbefore⟩, hx⟩
      · rintro ⟨_ | ⟨z, before⟩, x, after, hitems, hbefore, hx⟩
        · cases hitems
          rw [hx] at hy
          cases hy
        · cases hitems
          exact ⟨before, x, after, rfl, (List.forall_mem_cons.mp hbefore).2, hx⟩

theorem mapM_eq_ok {f : α → Except ε β} {items : List α} {built : List β} :
    items.mapM f = .ok built ↔ List.Forall₂ (fun x y => f x = .ok y) items built := by
  induction items generalizing built with
  | nil => cases built <;> simp [pure, Except.pure]
  | cons x rest ih =>
    rw [List.mapM_cons, bind_eq_ok]
    constructor
    · rintro ⟨y, hy, h⟩
      obtain ⟨ys, hys, h⟩ := bind_eq_ok.mp h
      cases h
      exact .cons hy (ih.mp hys)
    · rintro (_ | ⟨hy, hys⟩)
      exact ⟨_, hy, bind_eq_ok.mpr ⟨_, ih.mpr hys, rfl⟩⟩

theorem mapM_eq_error {f : α → Except ε β} {items : List α} {e : ε}
    (h : items.mapM f = .error e) : ∃ x ∈ items, f x = .error e := by
  induction items with
  | nil => cases h
  | cons x rest ih =>
    rw [List.mapM_cons] at h
    cases hx : f x with
    | error cause =>
      rw [hx] at h
      cases h
      exact ⟨x, List.mem_cons_self, hx⟩
    | ok y =>
      cases hrest : rest.mapM f with
      | error cause =>
        rw [hx, hrest] at h
        cases h
        obtain ⟨x', hx', hfailed⟩ := ih hrest
        exact ⟨x', List.mem_cons_of_mem _ hx', hfailed⟩
      | ok ys =>
        rw [hx, hrest] at h
        cases h

theorem exists_of_mem_mapM {f : α → Except ε β} {items : List α} {built : List β} {y : β}
    (h : items.mapM f = .ok built) (hy : y ∈ built) : ∃ x ∈ items, f x = .ok y := by
  rw [mapM_eq_ok] at h
  induction h with
  | nil => cases hy
  | cons hx hrest ih =>
    rcases List.mem_cons.mp hy with rfl | hy
    · exact ⟨_, List.mem_cons_self, hx⟩
    · obtain ⟨x, hmem, hfx⟩ := ih hy
      exact ⟨x, List.mem_cons_of_mem _ hmem, hfx⟩

theorem mem_of_mapM {f : α → Except ε β} {items : List α} {built : List β} {x : α} {y : β}
    (h : items.mapM f = .ok built) (hx : x ∈ items) (hy : f x = .ok y) : y ∈ built := by
  rw [mapM_eq_ok] at h
  induction h with
  | nil => cases hx
  | cons hfirst hrest ih =>
    rcases List.mem_cons.mp hx with rfl | hx
    · rw [Except.ok.inj (hy.symm.trans hfirst)]
      exact List.mem_cons_self
    · exact List.mem_cons_of_mem _ (ih hx)

theorem exists_mapM_ok {f : α → Except ε β} {P : α → β → Prop} {items : List α}
    (h : ∀ x ∈ items, ∃ y, f x = .ok y ∧ P x y) :
    ∃ built, items.mapM f = .ok built ∧ List.Forall₂ P items built := by
  induction items with
  | nil => exact ⟨[], mapM_eq_ok.mpr .nil, .nil⟩
  | cons x rest ih =>
    obtain ⟨⟨y, hy, hP⟩, hrest⟩ := List.forall_mem_cons.mp h
    obtain ⟨ys, hys, hPs⟩ := ih hrest
    exact ⟨y :: ys, mapM_eq_ok.mpr (.cons hy (mapM_eq_ok.mp hys)), .cons hP hPs⟩

end ColumnSampling.Outcome
