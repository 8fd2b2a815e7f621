import Mathlib

/-!
# Byte-slice bit operations

`common/bitutil`: `ANDBytes`, `ORBytes` and `TestBytes` (the portable `safe*` loops; the
word-at-a-time `fast*` ones compute the same bytes), with Go's `copy` on byte slices. A byte slice
is read as a bit vector with the most significant bit of each byte first (`bit`), the order the
bloom-bits index stores blocks in; the operations act on it bit by bit.
-/

namespace GoXdn.Bitutil

/-- `ANDBytes(dst, a, b)` with `dst` the slice `a`, as at every call: the first
`min(len(a), len(b))` bytes become `a[i] & b[i]`, and the rest of `a` stays. -/
def ANDBytes (a b : List UInt8) : List UInt8 := List.zipWith (· &&& ·) a b ++ a.drop b.length

/-- `ORBytes(dst, a, b)` with `dst` the slice `a`. -/
def ORBytes (a b : List UInt8) : List UInt8 := List.zipWith (· ||| ·) a b ++ a.drop b.length

/-- `TestBytes`: whether any bit is set. -/
def TestBytes (p : List UInt8) : Bool := p.any (· != 0)

/-- `copy(dst, src)` on byte slices: the first `min(len(dst), len(src))` bytes of `dst` become
those of `src`. -/
def copy (dst src : List UInt8) : List UInt8 := src.take dst.length ++ dst.drop src.length

/-- Bit `j` of a byte slice, the most significant bit of each byte first; `false` past the end. -/
def bit (v : List UInt8) (j : ℕ) : Bool := (v.getD (j / 8) 0).toNat.testBit (7 - j % 8)

theorem length_ANDBytes (a b : List UInt8) : (ANDBytes a b).length = a.length := by
  simp only [ANDBytes, List.length_append, List.length_zipWith, List.length_drop]
  omega

theorem length_ORBytes (a b : List UInt8) : (ORBytes a b).length = a.length := by
  simp only [ORBytes, List.length_append, List.length_zipWith, List.length_drop]
  omega

theorem copy_of_length_eq {dst src : List UInt8} (h : src.length = dst.length) :
    copy dst src = src := by
  rw [copy, List.take_of_length_le h.le, List.drop_eq_nil_of_le h.ge, List.append_nil]

/-- A bytewise operation acts on each bit, when it does on the bits of a byte. -/
theorem bit_zipWith {f : UInt8 → UInt8 → UInt8} {g : Bool → Bool → Bool}
    (hf : ∀ x y k, (f x y).toNat.testBit k = g (x.toNat.testBit k) (y.toNat.testBit k))
    (hg : g false false = false) {a b : List UInt8} (h : a.length = b.length) (j : ℕ) :
    bit (List.zipWith f a b) j = g (bit a j) (bit b j) := by
  simp only [bit, List.getD_eq_getElem?_getD, List.getElem?_zipWith]
  by_cases hj : j / 8 < a.length
  · rw [List.getElem?_eq_getElem hj, List.getElem?_eq_getElem (h ▸ hj)]
    exact hf _ _ _
  · rw [List.getElem?_eq_none (by omega), List.getElem?_eq_none (by omega)]
    simpa using hg.symm

theorem bit_ANDBytes {a b : List UInt8} (h : a.length = b.length) (j : ℕ) :
    bit (ANDBytes a b) j = (bit a j && bit b j) := by
  rw [ANDBytes, List.drop_eq_nil_of_le (le_of_eq h), List.append_nil]
  exact bit_zipWith (fun x y k => by rw [UInt8.toNat_and, Nat.testBit_and]) rfl h j

theorem bit_ORBytes {a b : List UInt8} (h : a.length = b.length) (j : ℕ) :
    bit (ORBytes a b) j = (bit a j || bit b j) := by
  rw [ORBytes, List.drop_eq_nil_of_le (le_of_eq h), List.append_nil]
  exact bit_zipWith (fun x y k => by rw [UInt8.toNat_or, Nat.testBit_or]) rfl h j

theorem bit_replicate_zero (n j : ℕ) : bit (List.replicate n 0) j = false := by
  rw [bit, List.getD_eq_getElem?_getD, List.getElem?_replicate]
  split <;> simp

theorem bit_replicate_ff {n j : ℕ} (hj : j < 8 * n) : bit (List.replicate n 0xff) j = true := by
  have hff : ∀ k < 8, (0xff : UInt8).toNat.testBit k = true := by decide
  simp only [bit, List.getD_eq_getElem?_getD, List.getElem?_replicate, if_pos (by omega : j / 8 < n),
    Option.getD_some]
  exact hff _ (by omega)

/-- ORing a mask into byte `i` of a slice sets the bits of the mask in that byte. -/
theorem bit_modify_or_mask {v : List UInt8} {i : ℕ} (hi : i < v.length) (m : UInt8) (j : ℕ) :
    bit (v.modify i (· ||| m)) j = (bit v j || (decide (j / 8 = i) && m.toNat.testBit (7 - j % 8))) := by
  rw [bit, bit, List.getD_eq_getElem?_getD, List.getD_eq_getElem?_getD, List.getElem?_modify]
  by_cases hj : i = j / 8
  · rw [← hj, List.getElem?_eq_getElem hi]
    simp [UInt8.toNat_or, Nat.testBit_or]
  · have hj' : j / 8 ≠ i := Ne.symm hj
    rcases v[j / 8]? with _ | x
    · simp [hj']
    · simp [hj, hj']

/-- Setting bit `k` of a slice in place, `v[k/8] |= 1 << (7 - k%8)`. -/
theorem bit_modify_or {v : List UInt8} {k : ℕ} (hk : k / 8 < v.length) (j : ℕ) :
    bit (v.modify (k / 8) (· ||| (1 <<< (7 - k % 8).toUInt8))) j = (bit v j || decide (j = k)) := by
  have hmask : ∀ a b : Fin 8,
      ((1 : UInt8) <<< (7 - (a : ℕ)).toUInt8).toNat.testBit (7 - b) = decide ((a : ℕ) = b) := by
    decide
  rw [bit_modify_or_mask hk, hmask ⟨k % 8, by omega⟩ ⟨j % 8, by omega⟩]
  simp only [← Bool.decide_and]
  exact congrArg _ (decide_eq_decide.mpr (by omega))

/-- A slice with no bit set has every bit clear. -/
theorem bit_of_TestBytes_eq_false {p : List UInt8} (h : TestBytes p = false) (j : ℕ) :
    bit p j = false := by
  have hzero : p.getD (j / 8) 0 = 0 := by
    rw [List.getD_eq_getElem?_getD]
    rcases hp : p[j / 8]? with _ | x
    · rfl
    · simp only [TestBytes, List.any_eq_false, bne_iff_ne, ne_eq, Decidable.not_not] at h
      exact h x (List.mem_of_getElem? hp)
  rw [bit, hzero]
  simp

/-- The test of the emission loop, `next & (1 << k) != 0` on a byte, reads bit `k` of `next`. -/
theorem and_shiftLeft_ne_zero (x : UInt8) {k : ℕ} (hk : k < 8) :
    (x &&& (1 <<< k.toUInt8) ≠ 0) ↔ x.toNat.testBit k = true := by
  have hk' : (k.toUInt8).toNat % 8 = k := by simp; omega
  rw [ne_eq, ← UInt8.toNat_inj, UInt8.toNat_and, UInt8.toNat_shiftLeft, hk', UInt8.toNat_one,
    Nat.one_shiftLeft, Nat.mod_eq_of_lt (Nat.pow_lt_pow_right (by norm_num) hk), Nat.and_two_pow]
  cases x.toNat.testBit k <;> simp

end GoXdn.Bitutil
