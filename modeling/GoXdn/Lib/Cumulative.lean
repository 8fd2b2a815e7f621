import Mathlib

/-!
# Picking by cumulative weight

Lay the weights `w i` of a list of keys end to end: a value `v` below their total falls in the
stretch of exactly one key, at an offset below that key's weight (`select`). Summing a function
of the pick over every such `v` sums it over each key's stretch (`sum_range_select`), so each key
is picked by exactly its weight's worth of values.

Cut into `k` blocks of `m`, a sum over the first `k * m` numbers is a sum over the blocks
(`sum_range_mul`): this is how a sum over a tree's leaf indices splits by branch.

Go adds `int64` weights with wrap-around. `Int64` under `+` is a commutative group, so its sums
are `Finset` sums, and a sum of non-negative weights whose true total stays below `2^63` is that
total (`Int64.toInt_sum_of_nonneg`).
-/

instance int64AddCommGroup : AddCommGroup Int64 where
  add_assoc := Int64.add_assoc
  zero_add := Int64.zero_add
  add_zero := Int64.add_zero
  add_comm := Int64.add_comm
  neg_add_cancel := Int64.add_left_neg
  sub_eq_add_neg := Int64.sub_eq_add_neg
  nsmul := nsmulRec
  zsmul := zsmulRec

namespace Int64

theorem toInt_add_of_nonneg {a b : Int64} (ha : 0 ≤ a.toInt) (hb : 0 ≤ b.toInt)
    (hab : a.toInt + b.toInt < 2 ^ 63) : (a + b).toInt = a.toInt + b.toInt := by
  rw [toInt_add]
  exact Int.bmod_eq_of_le (by omega) hab

theorem toInt_sum_of_nonneg {ι : Type*} (s : Finset ι) (f : ι → Int64)
    (h0 : ∀ i ∈ s, 0 ≤ (f i).toInt) (hlt : ∑ i ∈ s, (f i).toInt < 2 ^ 63) :
    (∑ i ∈ s, f i).toInt = ∑ i ∈ s, (f i).toInt := by
  classical
  induction s using Finset.induction_on with
  | empty => simp
  | insert a s ha ih =>
    rw [Finset.sum_insert ha] at hlt
    have hs0 : 0 ≤ ∑ i ∈ s, (f i).toInt :=
      Finset.sum_nonneg fun i hi => h0 i (Finset.mem_insert_of_mem hi)
    have hfa := h0 a (Finset.mem_insert_self a s)
    have hs : (∑ i ∈ s, f i).toInt = ∑ i ∈ s, (f i).toInt :=
      ih (fun i hi => h0 i (Finset.mem_insert_of_mem hi)) (by omega)
    rw [Finset.sum_insert ha, Finset.sum_insert ha, toInt_add_of_nonneg hfa (hs ▸ hs0) (by omega), hs]

end Int64

namespace Cumulative

variable {ι : Type*} (w : ι → ℕ)

/-- The key whose stretch holds `v` when the weights of the keys `is` are laid end to end, with
`v`'s offset in that stretch. -/
def select : List ι → ℕ → Option (ι × ℕ)
  | [], _ => none
  | i :: is, v => if v < w i then some (i, v) else select is (v - w i)

@[simp] theorem select_nil (v : ℕ) : select w [] v = none := rfl

theorem select_cons_of_lt {i : ι} {is : List ι} {v : ℕ} (h : v < w i) :
    select w (i :: is) v = some (i, v) := if_pos h

theorem select_cons_add (i : ι) (is : List ι) (v : ℕ) :
    select w (i :: is) (w i + v) = select w is v := by
  rw [select, if_neg (by omega), Nat.add_sub_cancel_left]

theorem select_eq_some {is : List ι} {v : ℕ} (h : v < (is.map w).sum) :
    ∃ i v', select w is v = some (i, v') ∧ i ∈ is ∧ v' < w i := by
  induction is generalizing v with
  | nil => simp at h
  | cons j is ih =>
    by_cases hv : v < w j
    · exact ⟨j, v, select_cons_of_lt w hv, List.mem_cons_self, hv⟩
    · obtain ⟨k, rfl⟩ : ∃ k, v = w j + k := ⟨v - w j, by omega⟩
      obtain ⟨i, v', hsel, hi, hv'⟩ := ih (v := k) (by simp at h; omega)
      exact ⟨i, v', by rw [select_cons_add, hsel], List.mem_cons_of_mem j hi, hv'⟩

/-- Each key takes the values of its own stretch: a sum over all values below the total, of a
function of the pick, is the sum over the keys of that function over their stretches. -/
theorem sum_range_select {M : Type*} [AddCommMonoid M] (g : ι → ℕ → M) (is : List ι) :
    ∑ v ∈ Finset.range (is.map w).sum, (select w is v).elim 0 (fun p => g p.1 p.2) =
      (is.map fun i => ∑ v ∈ Finset.range (w i), g i v).sum := by
  induction is with
  | nil => simp
  | cons i is ih =>
    rw [List.map_cons, List.sum_cons, Finset.sum_range_add, List.map_cons, List.sum_cons, ← ih]
    congr 1
    · refine Finset.sum_congr rfl fun v hv => ?_
      rw [select_cons_of_lt w (Finset.mem_range.mp hv)]
      rfl
    · simp only [select_cons_add]

theorem sum_range_mul {M : Type*} [AddCommMonoid M] (k m : ℕ) (g : ℕ → M) :
    ∑ s ∈ Finset.range (k * m), g s = ∑ b ∈ Finset.range k, ∑ s ∈ Finset.range m, g (b * m + s) := by
  induction k with
  | zero => simp
  | succ k ih => rw [Nat.succ_mul, Finset.sum_range_add, ih, Finset.sum_range_succ]

end Cumulative
