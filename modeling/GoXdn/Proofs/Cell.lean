import GoXdn.Poc.Cell

/-!
# The two cell generators agree

`genCell` prepends each new hash to a growing chain; `genCellForP` writes it into a fixed
buffer at its index.  Pass by pass the chain is the buffer's tail from the current index on
(`ChainAgrees`, kept by `chainAgrees_step`), the 128-hash window `GenCellForP` slices out is
the 4096-byte prefix `GenCell` takes, and the two close with the same XOR loop, so
`genCell = rearrange ∘ genCellForP` (`genCell_eq_rearrange`) for every hash function.  A scoop
of the rearranged cell is a hash and its mirror (`slice_rearrange`).
-/

namespace GoXdn.Poc

open Buffer GoStd

variable (H : Hash256)

theorem length_genCellForPStep (com : List UInt8) (i : ℕ) (b : List UInt8) :
    (genCellForPStep H com i b).length = b.length := by
  unfold genCellForPStep
  split <;> simp

theorem length_xorFinal (final b : List UInt8) : (xorFinal final b).length = b.length := by
  unfold xorFinal
  generalize cellSize - 1 = n
  induction n generalizing b with
  | zero => simp [forDown]
  | succ n ih => simp [forDown, ih]

@[simp]
theorem length_genCellForP (nonce pub : UInt64) :
    (genCellForP H nonce pub).length = cellSize * hashSize := by
  have h : ∀ n b, (forDown (genCellForPStep H (comBytes nonce pub)) n b).length = b.length := by
    intro n
    induction n with
    | zero => intro b; simp [forDown, length_genCellForPStep]
    | succ n ih => intro b; simp [forDown, ih, length_genCellForPStep]
  simp [genCellForP, length_xorFinal, h]

/-- After the passes at every index `≥ k`, `GenCell`'s chain is `GenCellForP`'s buffer from
hash `k` on. -/
def ChainAgrees (k : ℕ) (a b : List UInt8) : Prop :=
  k ≤ cellSize ∧ b.length = cellSize * hashSize ∧ a = b.drop (k * hashSize)

/-- The hash a pass of either generator computes, from the same window of the chain. -/
theorem chainAgrees_window {com : List UInt8} {i : ℕ} {a b : List UInt8}
    (h : ChainAgrees (i + 1) a b) :
    (if plotSize ≤ a.length then slice a 0 plotSize else a ++ com) =
      if i < cellSize - 128 then
        slice b ((i + 1) * hashSize) ((i + 1) * hashSize + 128 * hashSize)
      else slice b ((i + 1) * hashSize) (cellSize * hashSize) ++ com := by
  obtain ⟨hk, hlen, rfl⟩ := h
  have ha : (b.drop ((i + 1) * hashSize)).length = (cellSize - (i + 1)) * hashSize := by
    simp [hlen, Nat.sub_mul]
  by_cases hw : i < cellSize - 128
  · have hp : plotSize ≤ (b.drop ((i + 1) * hashSize)).length := by
      rw [ha]; simp only [plotSize, cellSize, hashSize] at hw ⊢; omega
    rw [if_pos hp, if_pos hw, slice_eq_take_drop, slice]
    simp [plotSize, hashSize]
  · have hp : ¬ plotSize ≤ (b.drop ((i + 1) * hashSize)).length := by
      rw [ha]; simp only [plotSize, cellSize, hashSize] at hw hk ⊢; omega
    rw [if_neg hp, if_neg hw, slice, ← hlen, List.take_length]

theorem chainAgrees_step (com : List UInt8) :
    ∀ i a b, ChainAgrees (i + 1) a b →
      ChainAgrees i (genCellStep H com i a) (genCellForPStep H com i b) := by
  intro i a b h
  have hk := h.1
  have hlen := h.2.1
  have hfit : i * hashSize + (H.sum com).length ≤ b.length := by
    simp only [H.length_sum, hlen, hashSize, cellSize] at hk ⊢; omega
  refine ⟨by omega, by rw [length_genCellForPStep, hlen], ?_⟩
  unfold genCellStep genCellForPStep
  by_cases hi : i = cellSize - 1
  · rw [if_pos hi, if_pos hi, drop_setRange hfit, List.drop_eq_nil_of_le (by
      simp only [H.length_sum, hlen, hashSize, cellSize] at hi ⊢; omega)]
    simp
  · rw [if_neg hi, if_neg hi, chainAgrees_window h, drop_setRange (by simpa using hfit),
      h.2.2]
    simp [Nat.succ_mul, hashSize]

/-- The verifier's cell is the plotter's cell in PoC2 order, for every 32-byte hash. -/
theorem genCell_eq_rearrange (nonce pub : UInt64) :
    genCell H nonce pub = rearrange (genCellForP H nonce pub) := by
  have h := forDown_rel ChainAgrees (genCellStep H (comBytes nonce pub))
    (genCellForPStep H (comBytes nonce pub)) (chainAgrees_step H (comBytes nonce pub))
    (cellSize - 1) [] (List.replicate (cellSize * hashSize) 0)
    ⟨by simp [cellSize], by simp, by simp [cellSize]⟩
  obtain ⟨-, -, hab⟩ := h
  simp only [Nat.zero_mul, List.drop_zero] at hab
  simp only [genCell, genCellForP, hab]

theorem slice_rearrange_block {c : List UInt8} (hc : c.length = cellSize * hashSize) {i : ℕ}
    (hi : i < cellSize) :
    slice (rearrange c) (32 * i) (32 * i + 32) =
      if i % 2 = 0 then slice c (32 * i) (32 * (i + 1))
      else slice c (32 * (cellSize - i)) (32 * (cellSize - i + 1)) := by
  refine slice_flatMap_range _ hashSize cellSize i (fun j hj => ?_) hi
  simp only [cellSize, hashSize] at hj hc ⊢
  split <;> simp [hc] <;> omega

/-- Scoop `s` of a rearranged cell: hash `2s` and the mirror hash `8191 - 2s`. -/
theorem slice_rearrange {c : List UInt8} (hc : c.length = cellSize * hashSize) {s : ℕ}
    (hs : s < 4096) :
    slice (rearrange c) (64 * s) (64 * s + 64) =
      slice c (32 * (2 * s)) (32 * (2 * s) + 32) ++
        slice c ((8192 - (2 * s + 1)) * 32) ((8192 - (2 * s + 1)) * 32 + 32) := by
  have e1 : slice (rearrange c) (64 * s) (64 * s + 32) =
      slice c (32 * (2 * s)) (32 * (2 * s) + 32) := by
    have h := slice_rearrange_block hc (show 2 * s < cellSize by simp [cellSize]; omega)
    rw [if_pos (by omega)] at h
    convert h using 2 <;> omega
  have e2 : slice (rearrange c) (64 * s + 32) (64 * s + 64) =
      slice c ((8192 - (2 * s + 1)) * 32) ((8192 - (2 * s + 1)) * 32 + 32) := by
    have h := slice_rearrange_block hc (show 2 * s + 1 < cellSize by simp [cellSize]; omega)
    rw [if_neg (by omega)] at h
    convert h using 2 <;> simp only [cellSize] at * <;> omega
  rw [slice_split _ (by omega : 64 * s ≤ 64 * s + 32) (by omega), e1, e2]

end GoXdn.Poc
