import Mathlib

/-!
# Undo logs

A log of entries, each with an `undo` that may fail, undone from the last entry back. Undoing
splits along an append, and an `undo` that sees a state only through an abstraction `w` undoes a
whole log alike from any two states with the same abstraction.
-/

namespace UndoLog

variable {σ ε β : Type*} (undo : ε → σ → Option σ)

/-- Undo the entries of `es`, the last one first. -/
def undoAll (es : List ε) (s : σ) : Option σ := es.foldrM undo s

@[simp] lemma undoAll_nil (s : σ) : undoAll undo [] s = some s := rfl

lemma undoAll_append (es fs : List ε) (s : σ) :
    undoAll undo (es ++ fs) s = undoAll undo fs s >>= undoAll undo es :=
  List.foldrM_append

@[simp] lemma undoAll_singleton (e : ε) (s : σ) : undoAll undo [e] s = undo e s := by
  simp [undoAll]

lemma undoAll_concat (es : List ε) (e : ε) (s : σ) :
    undoAll undo (es ++ [e]) s = undo e s >>= undoAll undo es := by
  rw [undoAll_append, undoAll_singleton]

/-- Undoing a prefix of what a longer undo passes through. -/
lemma undoAll_append_eq_some {es fs : List ε} {s u : σ} (h : undoAll undo (es ++ fs) s = some u) :
    ∃ v, undoAll undo fs s = some v ∧ undoAll undo es v = some u := by
  rw [undoAll_append] at h
  cases hv : undoAll undo fs s with
  | none => rw [hv] at h; cases h
  | some v => exact ⟨v, rfl, by rw [hv] at h; exact h⟩

/-- What every `undo` keeps, undoing a whole log keeps. -/
lemma undoAll_preserves {g : σ → β} (h : ∀ e s s', undo e s = some s' → g s' = g s)
    (es : List ε) : ∀ {s s' : σ}, undoAll undo es s = some s' → g s' = g s := by
  induction es using List.reverseRecOn with
  | nil => intro s s' hs; cases hs; rfl
  | append_singleton es e ih =>
    intro s s' hs
    rw [undoAll_concat] at hs
    cases hu : undo e s with
    | none => rw [hu] at hs; cases hs
    | some u =>
      rw [hu] at hs
      exact (ih hs).trans (h e s u hu)

/-- `undo` sees a state only through `w`. -/
def Respects (w : σ → β) : Prop :=
  ∀ e s t, w s = w t → (undo e s).map w = (undo e t).map w

variable {undo}

lemma Respects.undoAll {w : σ → β} (h : Respects undo w) (es : List ε) :
    ∀ {s t : σ}, w s = w t → (undoAll undo es s).map w = (undoAll undo es t).map w := by
  induction es using List.reverseRecOn with
  | nil => intro s t hst; simp [hst]
  | append_singleton es e ih =>
    intro s t hst
    rw [undoAll_concat, undoAll_concat]
    have he := h e s t hst
    cases hs : undo e s with
    | none =>
      rw [hs] at he
      cases ht : undo e t with
      | none => rfl
      | some t' => rw [ht] at he; cases he
    | some s' =>
      rw [hs] at he
      cases ht : undo e t with
      | none => rw [ht] at he; cases he
      | some t' =>
        rw [ht, Option.map_some, Option.map_some, Option.some_inj] at he
        exact ih he

end UndoLog
