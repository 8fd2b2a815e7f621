import GoXdn.Proofs.Cell
import GoXdn.Poc.Plot

/-!
# Plot files hold the scoops the verifier recomputes

Every block the writer receives for a file lies in the stripe of its scoop, and inside it in
the stretch of its batch (`batch_bound`), so the 64 bytes of nonce `q` at scoop `s` are covered
by exactly one block, the one of batch `q / onceHandle` and scoop `s`, and missed by every
other (`scoop_misses`, `scoop_puts`).  That block holds hash `2s` of the plotter's cell and its
mirror, which `slice_rearrange` and `genCell_eq_rearrange` show to be scoop `s` of the
verifier's cell (`plotFile_scoop_eq_genCell`).
-/

namespace GoXdn.Poc

open Buffer GoStd

variable (H : Hash256)

theorem createFile_eq (size : ℕ) : createFile size = List.replicate size 0 := by
  simp only [createFile, List.flatten_replicate_replicate, List.replicate_append_replicate]
  congr 1
  omega

/-- Hash `2k` of a cell and its mirror, the 64 bytes a scoop holds. -/
def scoopPair (c : List UInt8) (k : ℕ) : List UInt8 :=
  slice c (32 * (2 * k)) (32 * (2 * k) + 32) ++
    slice c ((8192 - (2 * k + 1)) * 32) ((8192 - (2 * k + 1)) * 32 + 32)

theorem length_scoopPair {c : List UInt8} (hc : c.length = cellSize * hashSize) {k : ℕ}
    (hk : k < 4096) : (scoopPair c k).length = 64 := by
  simp only [cellSize, hashSize] at hc
  simp [scoopPair, hc]
  omega

/-- The block batch `j` sends for scoop `k`, the batch starting at nonce `cur`. -/
def batchWrite (plotID : UInt64) (total j : ℕ) (cur : UInt64) (k : ℕ) : WaitWrite :=
  ⟨scoopData ((List.range (batchSize total j)).map fun p => genCellForP H (cur + UInt64.ofNat p)
      plotID) k, 64 * total * k + 64 * j * onceHandle⟩

theorem scoopData_cells (plotID : UInt64) (total j : ℕ) (cur : UInt64) (k : ℕ) :
    (batchWrite H plotID total j cur k).data =
      (List.range (batchSize total j)).flatMap fun p =>
        scoopPair (genCellForP H (cur + UInt64.ofNat p) plotID) k := by
  simp [batchWrite, scoopData, List.flatMap_map, scoopPair]

theorem length_batchWrite (plotID : UInt64) (total j : ℕ) (cur : UInt64) {k : ℕ}
    (hk : k < 4096) : (batchWrite H plotID total j cur k).data.length = 64 * batchSize total j := by
  rw [scoopData_cells, length_flatMap_range _ 64 _ (fun p _ => length_scoopPair (by simp) hk)]

/-- A batch the loop reaches ends inside the file's nonces. -/
theorem batch_bound {total j : ℕ} (hj : j ≤ total / onceHandle) :
    onceHandle * j + batchSize total j ≤ total := by
  unfold batchSize onceHandle at *
  split <;> omega

theorem fileBatches_succ (plotID : UInt64) (total fuel j : ℕ) (cur : UInt64) :
    fileBatches H plotID total (fuel + 1) j cur =
      if batchSize total j = 0 then []
      else ((List.range 4096).map (batchWrite H plotID total j cur)) ::
        fileBatches H plotID total fuel (j + 1) (cur + UInt64.ofNat (batchSize total j)) := rfl

/-- Batches before the last are full, so batch `j` starts at nonce `nonce + onceHandle * j`. -/
theorem next_start {total j : ℕ} (nonce : UInt64) (hj : j < total / onceHandle) :
    nonce + UInt64.ofNat (onceHandle * j) + UInt64.ofNat (batchSize total j) =
      nonce + UInt64.ofNat (onceHandle * (j + 1)) := by
  have hb : batchSize total j = onceHandle := by unfold batchSize; rw [if_neg (by omega)]
  rw [hb, UInt64.add_assoc, ← UInt64.ofNat_add, Nat.mul_succ]

variable {H}

theorem mem_fileBatches {plotID nonce : UInt64} {total : ℕ} {w : WaitWrite} :
    ∀ fuel j, j + fuel ≤ total / onceHandle + 1 →
      w ∈ (fileBatches H plotID total fuel j (nonce + UInt64.ofNat (onceHandle * j))).flatten →
      ∃ j' k, j' ≤ total / onceHandle ∧ k < 4096 ∧
        w = batchWrite H plotID total j' (nonce + UInt64.ofNat (onceHandle * j')) k
  | 0, _, _, hw => by simp [fileBatches] at hw
  | fuel + 1, j, hj, hw => by
    rw [fileBatches_succ] at hw
    split at hw
    · simp at hw
    · rcases List.mem_flatten.mp hw with ⟨l, hl, hwl⟩
      rcases List.mem_cons.mp hl with hl | hl
      · rw [hl] at hwl
        obtain ⟨k, hk, hwk⟩ := List.mem_map.mp hwl
        exact ⟨j, k, by omega, List.mem_range.mp hk, hwk.symm⟩
      · cases fuel with
        | zero => simp [fileBatches] at hl
        | succ fuel =>
          rw [next_start nonce (by omega)] at hl
          exact mem_fileBatches (fuel + 1) (j + 1) (by omega) (List.mem_flatten.mpr ⟨l, hl, hwl⟩)

theorem batchWrite_mem_fileBatches (plotID nonce : UInt64) {total j' k : ℕ}
    (hj' : batchSize total j' ≠ 0) (hk : k < 4096) :
    ∀ fuel j, j ≤ j' → j' < j + fuel → j + fuel ≤ total / onceHandle + 1 →
      batchWrite H plotID total j' (nonce + UInt64.ofNat (onceHandle * j')) k ∈
        (fileBatches H plotID total fuel j (nonce + UInt64.ofNat (onceHandle * j))).flatten
  | 0, _, _, hlt, _ => by omega
  | fuel + 1, j, hle, hlt, hbound => by
    rw [fileBatches_succ]
    split
    · rename_i h0
      have : j' = j := by unfold batchSize onceHandle at h0 hj'; split at h0 <;> split at hj' <;> omega
      exact absurd (this ▸ h0) hj'
    · rcases Nat.eq_or_lt_of_le hle with rfl | hlt'
      · exact List.mem_flatten.mpr ⟨_, List.mem_cons_self, List.mem_map.mpr ⟨k, by simpa using hk, rfl⟩⟩
      · cases fuel with
        | zero => omega
        | succ fuel =>
          rw [next_start nonce (by omega)]
          exact List.mem_flatten.mpr (by
            obtain ⟨l, hl, hwl⟩ := List.mem_flatten.mp
              (batchWrite_mem_fileBatches plotID nonce hj' hk (fuel + 1) (j + 1) (by omega) (by omega)
                (by omega))
            exact ⟨l, List.mem_cons_of_mem _ hl, hwl⟩)

variable (H)

/-- A block of another batch or another scoop misses the bytes of nonce `q` at scoop `s`. -/
theorem scoop_misses {total q s j k : ℕ} (plotID cur : UInt64) (hq : q < total)
    (hs : s < 4096) (hk : k < 4096) (hj : j ≤ total / onceHandle)
    (hne : ¬ (k = s ∧ onceHandle * j ≤ q ∧ q < onceHandle * j + batchSize total j)) :
    Misses (batchWrite H plotID total j cur k).index (batchWrite H plotID total j cur k).data
      (64 * total * s + 64 * q) (64 * total * s + 64 * q + 64) := by
  have hb := batch_bound hj
  rw [Misses, length_batchWrite H plotID total j cur hk]
  simp only [batchWrite, onceHandle] at hb hne ⊢
  rcases Nat.lt_trichotomy k s with hks | rfl | hks
  · have : total * k + total ≤ total * s := by nlinarith
    left; nlinarith
  · have : ¬ (400 * j ≤ q ∧ q < 400 * j + batchSize total j) := fun h => hne ⟨rfl, h⟩
    omega
  · have : total * s + total ≤ total * k := by nlinarith
    right; nlinarith

/-- The block of batch `q / onceHandle` and scoop `s` puts scoop `s` of nonce `q`'s cell there. -/
theorem scoop_puts {total q s j : ℕ} (plotID nonce : UInt64) (hs : s < 4096)
    (hq : onceHandle * j ≤ q ∧ q < onceHandle * j + batchSize total j) :
    Puts (batchWrite H plotID total j (nonce + UInt64.ofNat (onceHandle * j)) s).index
      (batchWrite H plotID total j (nonce + UInt64.ofNat (onceHandle * j)) s).data
      (64 * total * s + 64 * q) (64 * total * s + 64 * q + 64)
      (scoopPair (genCellForP H (nonce + UInt64.ofNat q) plotID) s) := by
  obtain ⟨p, rfl⟩ : ∃ p, q = onceHandle * j + p := ⟨q - onceHandle * j, by omega⟩
  have hp : p < batchSize total j := by omega
  refine ⟨by simp [batchWrite]; ring_nf; omega, ?_, ?_⟩
  · rw [length_batchWrite H plotID total j _ hs]
    simp only [batchWrite, onceHandle]
    nlinarith
  · have hlo : 64 * total * s + 64 * (onceHandle * j + p) -
        (batchWrite H plotID total j (nonce + UInt64.ofNat (onceHandle * j)) s).index = 64 * p := by
      simp only [batchWrite, onceHandle]; omega
    rw [hlo, show 64 * total * s + 64 * (onceHandle * j + p) + 64 -
        (batchWrite H plotID total j (nonce + UInt64.ofNat (onceHandle * j)) s).index =
          64 * p + 64 by simp only [batchWrite, onceHandle]; omega,
      scoopData_cells, slice_flatMap_range _ 64 _ p (fun i _ => length_scoopPair (by simp) hs) hp,
      UInt64.add_assoc, ← UInt64.ofNat_add]

/-- Plot layout agrees with seal verification: the 64 bytes the plotter leaves at the place the
miner reads nonce `nonce + q` at scoop `s` are scoop `s` of the cell the verifier computes. -/
theorem plotFile_scoop_eq_genCell (plotID nonce : UInt64) (total : ℕ) :
    (∀ n p, genCell H n p = rearrange (genCellForP H n p)) ∧
      ∀ q s, q < total → s < 4096 →
        slice (plotFile H plotID nonce total) (64 * total * s + 64 * q)
            (64 * total * s + 64 * q + 64) =
          slice (genCell H (nonce + UInt64.ofNat q) plotID) (64 * s) (64 * s + 64) := by
  refine ⟨genCell_eq_rearrange H, fun q s hq hs => ?_⟩
  have hj : q / onceHandle ≤ total / onceHandle := Nat.div_le_div_right hq.le
  have hqj : onceHandle * (q / onceHandle) ≤ q ∧ q < onceHandle * (q / onceHandle) +
      batchSize total (q / onceHandle) := by
    unfold batchSize onceHandle at *
    split <;> omega
  rw [genCell_eq_rearrange, slice_rearrange (by simp) hs, ← scoopPair, plotFile, createFile_eq]
  have hmem : ∀ w ∈ (fileBatches H plotID total (total / onceHandle + 1) 0 nonce).flatten,
      ∃ j' k, j' ≤ total / onceHandle ∧ k < 4096 ∧
        w = batchWrite H plotID total j' (nonce + UInt64.ofNat (onceHandle * j')) k := by
    intro w hw
    exact mem_fileBatches (total / onceHandle + 1) 0 (by omega) (by simpa using hw)
  refine slice_foldl_writeAt WaitWrite.index WaitWrite.data
    (scoopPair (genCellForP H (nonce + UInt64.ofNat q) plotID) s) _ _ _ _ (fun w hw => ?_)
    (fun w hw => ?_) ?_
  · obtain ⟨j', k, hj', hk, rfl⟩ := hmem w hw
    have hb := batch_bound hj'
    rw [length_batchWrite H plotID total j' _ hk, List.length_replicate]
    simp only [batchWrite, onceHandle] at hb ⊢
    nlinarith
  · obtain ⟨j', k, hj', hk, rfl⟩ := hmem w hw
    by_cases hput : k = s ∧ onceHandle * j' ≤ q ∧ q < onceHandle * j' + batchSize total j'
    · obtain ⟨rfl, hput⟩ := hput
      exact Or.inr (scoop_puts H plotID nonce hs hput)
    · exact Or.inl (scoop_misses H plotID _ hq hs hk hj' hput)
  · have hin : batchWrite H plotID total (q / onceHandle)
        (nonce + UInt64.ofNat (onceHandle * (q / onceHandle))) s ∈
          (fileBatches H plotID total (total / onceHandle + 1) 0
            (nonce + UInt64.ofNat (onceHandle * 0))).flatten :=
      batchWrite_mem_fileBatches plotID nonce (by omega) hs (total / onceHandle + 1) 0
        (Nat.zero_le _) (by omega) (by omega)
    exact ⟨_, by simpa using hin, scoop_puts H plotID nonce hs hqj⟩

theorem plotFile_scoop_eq_genCell_zero :
    0 < 1 ∧ 0 < 4096 ∧
      slice (plotFile Hash256.zero 0 0 1) (64 * 1 * 0 + 64 * 0) (64 * 1 * 0 + 64 * 0 + 64) =
        slice (genCell Hash256.zero (0 + UInt64.ofNat 0) 0) (64 * 0) (64 * 0 + 64) :=
  ⟨by decide, by decide, (plotFile_scoop_eq_genCell Hash256.zero 0 0 1).2 0 0 (by decide) (by decide)⟩

end GoXdn.Poc
