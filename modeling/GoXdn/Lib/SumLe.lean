import Mathlib

/-!
# Finite changes that do not raise a total

Two functions into an ordered group that differ at finitely many points compare by their sums
there, however large the domain: `SumLe f g` says that `g` is `f` changed on a finite set, where
it sums to no more. It is a preorder, and a change at one or two points is in it when the new
values there sum to no more than the old.
-/

variable {α β : Type*} [AddCommGroup β] [PartialOrder β]

/-- `g` is `f` changed on a finite set, where it sums to no more. -/
def SumLe (f g : α → β) : Prop :=
  ∃ A : Finset α, (∀ a ∉ A, g a = f a) ∧ ∑ a ∈ A, g a ≤ ∑ a ∈ A, f a

namespace SumLe

variable {f g h : α → β}

lemma refl (f : α → β) : SumLe f f := ⟨∅, fun _ _ => rfl, le_rfl⟩

lemma of_eq (h : g = f) : SumLe f g := h ▸ refl f

/-- A change at two points, whose new values sum to no more than the old (the two points may be
one). -/
lemma of_pair [DecidableEq α] {a b : α} (hout : ∀ c, c ≠ a → c ≠ b → g c = f c)
    (hs : if a = b then g a ≤ f a else g a + g b ≤ f a + f b) : SumLe f g := by
  refine ⟨{a, b}, fun c hc => ?_, ?_⟩
  · simp only [Finset.mem_insert, Finset.mem_singleton, not_or] at hc
    exact hout c hc.1 hc.2
  · split_ifs at hs with hab
    · subst hab
      simpa using hs
    · rwa [Finset.sum_pair hab, Finset.sum_pair hab]

/-- A change at one point to a value no larger. -/
lemma of_single [DecidableEq α] {a : α} (hout : ∀ c, c ≠ a → g c = f c) (hs : g a ≤ f a) :
    SumLe f g :=
  of_pair (b := a) (fun c hc _ => hout c hc) (by simpa using hs)

variable [IsOrderedAddMonoid β]

/-- The same function added on both sides. -/
lemma add_right (h : SumLe f g) (k : α → β) : SumLe (f + k) (g + k) := by
  obtain ⟨A, hA, hs⟩ := h
  refine ⟨A, fun a ha => by simp only [Pi.add_apply, hA a ha], ?_⟩
  simp only [Pi.add_apply, Finset.sum_add_distrib]
  exact add_le_add hs le_rfl

variable [DecidableEq α]

/-- Outside the finite set the two sums agree, so any larger set compares the same way. -/
lemma sum_le_of_subset {A B : Finset α} (hout : ∀ a ∉ A, g a = f a)
    (hs : ∑ a ∈ A, g a ≤ ∑ a ∈ A, f a) (hAB : A ⊆ B) : ∑ a ∈ B, g a ≤ ∑ a ∈ B, f a := by
  have hrest : ∑ a ∈ B \ A, g a = ∑ a ∈ B \ A, f a :=
    Finset.sum_congr rfl fun a ha => hout a (Finset.mem_sdiff.1 ha).2
  rw [← Finset.sum_sdiff hAB, ← Finset.sum_sdiff (f := f) hAB, hrest]
  exact add_le_add_right hs _

lemma trans (h₁ : SumLe f g) (h₂ : SumLe g h) : SumLe f h := by
  obtain ⟨A, hA, hsA⟩ := h₁
  obtain ⟨B, hB, hsB⟩ := h₂
  refine ⟨A ∪ B, fun a ha => ?_, ?_⟩
  · rw [Finset.mem_union, not_or] at ha
    rw [hB a ha.2, hA a ha.1]
  · calc ∑ a ∈ A ∪ B, h a ≤ ∑ a ∈ A ∪ B, g a :=
          sum_le_of_subset hB hsB Finset.subset_union_right
      _ ≤ ∑ a ∈ A ∪ B, f a := sum_le_of_subset hA hsA Finset.subset_union_left

end SumLe
