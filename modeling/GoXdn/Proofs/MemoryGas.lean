import Mathlib
import GoXdn.Vm.Instructions

/-!
# The memory fee

The fee for memory is the Yellow Paper's `C_mem(w) = 3w + ⌊w²/512⌋` for the largest word count
`w` asked for so far, charged as it grows (`memoryGasCost`, which keeps the last total in the
memory). Over a run whose sizes have fewer than `2^32` words each, the fees add up to exactly
`C_mem` of the largest (`chargeSizes_fees`). `memoryGasCost` accepts sizes up to `0xffffffffe0`
bytes, `2^35 - 1` words, and from `2^32` words the square wraps in 64 bits: one request of
`2^32` words is charged `3 * 2^32` (`memoryGasCost_wraps`), and a request after it is charged
the wrapped difference.
-/

namespace GoXdn.Vm

/-- The Yellow Paper's memory cost of `w` words. -/
def memCost (w : ℕ) : ℕ := 3 * w + w * w / 512

/-- The memory side of `Interpreter.Run` over the sizes its operations ask for: each rounded up
to words, charged by `memoryGasCost`, and the memory grown to it; the fees in order. -/
def chargeSizes : Memory → List UInt64 → Except VmError (List UInt64 × Memory)
  | mem, [] => .ok ([], mem)
  | mem, s :: ss => do
    let memorySize := toWordSize s * 32
    let (fee, mem) ← memoryGasCost mem memorySize
    let (fees, mem) ← chargeSizes (mem.resize memorySize.toNat) ss
    pure (fee :: fees, mem)

/-- The words a size takes. -/
def words (s : UInt64) : ℕ := (s.toNat + 31) / 32

theorem memCost_mono {v w : ℕ} (h : v ≤ w) : memCost v ≤ memCost w := by
  unfold memCost
  have : v * v / 512 ≤ w * w / 512 := Nat.div_le_div_right (Nat.mul_le_mul h h)
  omega

theorem toWordSize_toNat {s : UInt64} (hs : s.toNat ≤ 2 ^ 64 - 32) :
    (toWordSize s).toNat = words s := by
  have hn : ¬ UInt64.ofNat (2 ^ 64 - 1) - 31 < s := by
    rw [UInt64.lt_iff_toNat_lt, UInt64.toNat_sub_of_le _ _ (by decide)]
    simp only [UInt64.toNat_ofNat', UInt64.reduceToNat]
    omega
  rw [toWordSize, if_neg hn, UInt64.toNat_div, UInt64.toNat_add, Nat.mod_eq_of_lt (by simp; omega)]
  rfl

/-- `memoryGasCost` on a memory of `W` words whose last total is `C_mem(W)`, below `2^32` words:
a larger size is charged the difference of the costs, a smaller one nothing. -/
theorem memoryGasCost_of_lt {mem : Memory} {W : ℕ} (hW : W < 2 ^ 32)
    (hlen : mem.store.length = 32 * W) (hlast : mem.lastGasCost.toNat = memCost W) {w : ℕ}
    (hw : w < 2 ^ 32) {size : UInt64} (hsize : size.toNat = 32 * w) :
    ∃ fee mem', memoryGasCost mem size = .ok (fee, mem') ∧
      fee.toNat = memCost w - memCost W ∧ mem'.store = mem.store ∧
      mem'.lastGasCost.toNat = memCost (max w W) := by
  have hwords : (toWordSize size).toNat = w := by
    rw [toWordSize_toNat (by omega), words]
    omega
  by_cases h0 : size = 0
  · have hw0 : w = 0 := by
      have := congrArg UInt64.toNat h0
      simp only [UInt64.toNat_zero] at this
      omega
    subst h0 hw0
    exact ⟨0, mem, rfl, by simp [memCost], rfl, by simp [hlast]⟩
  have hbig : ¬ (0xffffffffe0 : UInt64) < size := by
    rw [UInt64.lt_iff_toNat_lt]
    simp only [UInt64.reduceToNat]
    omega
  have hsq : (toWordSize size * toWordSize size).toNat = w * w := by
    rw [UInt64.toNat_mul, hwords, Nat.mod_eq_of_lt (by nlinarith)]
  have hlin : (toWordSize size * memoryGas).toNat = 3 * w := by
    rw [UInt64.toNat_mul, hwords, Nat.mod_eq_of_lt (by simp [memoryGas]; omega)]
    simp [memoryGas, Nat.mul_comm]
  have htotal : (toWordSize size * memoryGas +
      toWordSize size * toWordSize size / quadCoeffDiv).toNat = memCost w := by
    have hq : (toWordSize size * toWordSize size / quadCoeffDiv).toNat = w * w / 512 := by
      rw [UInt64.toNat_div, hsq]
      rfl
    have hsmall : w * w / 512 < 2 ^ 55 := by
      rw [Nat.div_lt_iff_lt_mul (by norm_num)]
      nlinarith
    rw [UInt64.toNat_add, hlin, hq, Nat.mod_eq_of_lt (by omega)]
    rfl
  have hsize : (toWordSize size * 32).toNat = 32 * w := by
    rw [UInt64.toNat_mul, hwords, Nat.mod_eq_of_lt (by simp; omega)]
    simp [Nat.mul_comm]
  have hlenN : (UInt64.ofNat mem.store.length).toNat = 32 * W := by
    rw [UInt64.toNat_ofNat', hlen, Nat.mod_eq_of_lt (by omega)]
  unfold memoryGasCost
  rw [if_neg h0, if_neg hbig]
  dsimp only
  split_ifs with hgrow
  · rw [UInt64.lt_iff_toNat_lt, hlenN, hsize] at hgrow
    have hmono := memCost_mono (show W ≤ w by omega)
    refine ⟨_, _, rfl, ?_, rfl, ?_⟩
    · rw [UInt64.toNat_sub_of_le _ _ (UInt64.le_iff_toNat_le.2 (by rw [htotal, hlast]; exact hmono)),
        htotal, hlast]
    · rw [htotal, max_eq_left (by omega)]
  · rw [UInt64.lt_iff_toNat_lt, hlenN, hsize] at hgrow
    have hmono := memCost_mono (show w ≤ W by omega)
    refine ⟨0, mem, rfl, by simp; omega, rfl, by rw [hlast, max_eq_right (by omega)]⟩

theorem length_resize (mem : Memory) (n : ℕ) :
    (mem.resize n).store.length = max mem.store.length n := by
  unfold Memory.resize
  split_ifs with h
  · simp only [List.length_append, List.length_replicate]
    omega
  · omega

@[simp]
theorem lastGasCost_resize (mem : Memory) (n : ℕ) : (mem.resize n).lastGasCost = mem.lastGasCost := by
  unfold Memory.resize
  split_ifs <;> rfl

/-- The largest word count of the sizes, and `W`. -/
def maxWords (W : ℕ) (sizes : List UInt64) : ℕ := sizes.foldl (fun m s => max m (words s)) W

theorem le_maxWords : ∀ (W : ℕ) (sizes : List UInt64), W ≤ maxWords W sizes
  | _, [] => le_rfl
  | W, s :: ss => (le_max_left W (words s)).trans (le_maxWords _ ss)

/-- Over sizes below `2^32` words, from a memory of `W` words whose last total is `C_mem(W)`,
the fees add up to `C_mem` of the largest word count less `C_mem(W)`, and none is more. -/
theorem chargeSizes_fees : ∀ (sizes : List UInt64) (mem : Memory) (W : ℕ), W < 2 ^ 32 →
    mem.store.length = 32 * W → mem.lastGasCost.toNat = memCost W →
    (∀ s ∈ sizes, s.toNat ≤ 0x1FFFFFFFE0) →
    ∃ fees mem', chargeSizes mem sizes = .ok (fees, mem') ∧
      (fees.map UInt64.toNat).sum = memCost (maxWords W sizes) - memCost W ∧
      ∀ fee ∈ fees, fee.toNat ≤ memCost (maxWords W sizes)
  | [], mem, W, _, _, _, _ => ⟨[], mem, rfl, by simp [maxWords], by simp⟩
  | s :: ss, mem, W, hW, hlen, hlast, hs => by
    have hws : words s < 2 ^ 32 := by
      have := hs s (by simp)
      unfold words
      omega
    have hsize : (toWordSize s * 32).toNat = 32 * words s := by
      rw [UInt64.toNat_mul, toWordSize_toNat (by have := hs s (by simp); omega),
        Nat.mod_eq_of_lt (by simp; omega)]
      simp [Nat.mul_comm]
    obtain ⟨fee, mem₁, hc, hfee, hstore, hlast₁⟩ := memoryGasCost_of_lt hW hlen hlast hws hsize
    have hlen₂ : (mem₁.resize (toWordSize s * 32).toNat).store.length = 32 * max (words s) W := by
      rw [length_resize, hstore, hlen, hsize]
      omega
    obtain ⟨fees, mem', hrest, hsum, hle⟩ := chargeSizes_fees ss _ (max (words s) W) (by omega)
      hlen₂ (by rw [lastGasCost_resize, hlast₁]) (fun t ht => hs t (by simp [ht]))
    have hmax : maxWords W (s :: ss) = maxWords (max (words s) W) ss := by
      simp [maxWords, max_comm]
    have hmono₁ := memCost_mono (le_max_right (words s) W)
    have hmono₂ : memCost (max (words s) W) ≤ memCost (maxWords (max (words s) W) ss) :=
      memCost_mono (le_maxWords _ ss)
    have hstep : memCost (words s) - memCost W = memCost (max (words s) W) - memCost W := by
      rcases le_total (words s) W with h | h
      · rw [max_eq_right h, Nat.sub_self, Nat.sub_eq_zero_of_le (memCost_mono h)]
      · rw [max_eq_left h]
    refine ⟨fee :: fees, mem', ?_, ?_, ?_⟩
    · simp only [chargeSizes, hc, hrest, bind, Except.bind, pure, Except.pure]
    · rw [List.map_cons, List.sum_cons, hsum, hfee, hstep, hmax]
      omega
    · intro f hf
      rw [hmax]
      rcases List.mem_cons.1 hf with rfl | hf
      · rw [hfee]
        omega
      · exact hle f hf

/-- `2^32` words, which `memoryGasCost` accepts: the square wraps to zero and the fee is the
linear part alone. -/
theorem memoryGasCost_wraps :
    memoryGasCost Memory.new 0x2000000000 =
        .ok (12884901888, { Memory.new with lastGasCost := 12884901888 }) ∧
      12884901888 ≠ memCost (2 ^ 32) := by
  refine ⟨rfl, ?_⟩
  norm_num [memCost]

end GoXdn.Vm
