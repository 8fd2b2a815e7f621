import Mathlib
import GoXdn.Consensus.Mine
import GoXdn.Poc.Plot

/-!
# The plot scan spins on an empty plot

The miner reads back every name the plotter writes (`parseName_makeName`). A file named with a
positive count is done within `total + 1` passes (`scanFile_ends`), but the loop reparses the name
whenever `total` is zero and breaks only after a judged index, so a count of zero starts it over
at every pass. The plotter writes that count for every file of less than 256 KB, and the miner
then scans it forever (`scanFile_spins_on_small_plots`).
-/

namespace GoXdn.Consensus

open GoStd Buffer Poc

theorem split_makeName (plotID nonce : UInt64) (singCount : ℤ) :
    split (makeName plotID nonce singCount) '_' =
      [decimal plotID.toNat, decimal nonce.toNat, decimalInt singCount] := by
  have hsep : (∀ c ∈ decimal plotID.toNat, c ≠ '_') ∧ (∀ c ∈ decimal nonce.toNat, c ≠ '_') := by
    constructor <;> intro c hc h <;> have := isDigit_of_mem_decimal hc <;> rw [h] at this <;>
      exact absurd this (by decide)
  have hint : '_' ∉ decimalInt singCount := not_mem_decimalInt_of_not_isDigit (by decide) (by decide) _
  have hjoin : makeName plotID nonce singCount =
      ['_'].intercalate [decimal plotID.toNat, decimal nonce.toNat, decimalInt singCount] := by
    simp [makeName, List.intercalate]
  rw [split, hjoin, List.splitOn_intercalate]
  · intro l hl
    simp only [List.mem_cons, List.not_mem_nil, or_false] at hl
    rcases hl with rfl | rfl | rfl
    · exact fun h => hsep.1 _ h rfl
    · exact fun h => hsep.2 _ h rfl
    · exact hint
  · simp

/-- The miner parses back the plot ID, the first nonce and the count of every name the plotter
gives a file of its plot ID. -/
theorem parseName_makeName (plotID nonce : UInt64) {singCount : ℤ}
    (hc : -2 ^ 63 ≤ singCount ∧ singCount < 2 ^ 63) :
    parseName plotID (makeName plotID nonce singCount) = some (plotID, nonce, singCount) := by
  rw [parseName, split_makeName]
  simp [parseUint_decimal, atoi_decimalInt hc]

theorem singCountOf_eq_zero {sing : ℤ} (hsing : 0 ≤ sing ∧ sing < 256 * 1024) :
    singCountOf sing = 0 :=
  Int.tdiv_eq_zero_of_lt hsing.1 hsing.2

variable (H : Hash256) (env : MineEnv) (file : Option (List UInt8)) (name : List Char)

theorem loadData_zero_ne_none (scoopID : ℕ) (data : List UInt8) :
    loadData file scoopID 0 data ≠ none := by
  cases file with
  | none => exact Option.some_ne_none _
  | some bytes =>
    rw [loadData, if_neg (by decide)]
    exact Option.some_ne_none _

/-- With a count of zero a pass reparses the name and starts over, with the search unchanged. -/
theorem scanStep_of_zero {pubID nonce : UInt64} (hp : parseName env.addrPlotID name = some (pubID, nonce, 0))
    {s : FileScan} (hs : s.total = 0) :
    ∃ s', scanStep H env file name s = .next s' ∧ s'.total = 0 ∧ s'.search = s.search := by
  rw [scanStep, if_pos hs, hp]
  dsimp only
  rcases hl : loadData file env.scoopID 0 s.data with _ | data
  · exact absurd hl (loadData_zero_ne_none file _ _)
  · exact ⟨_, rfl, rfl, rfl⟩

theorem scanFile_spins {pubID nonce : UInt64}
    (hp : parseName env.addrPlotID name = some (pubID, nonce, 0)) :
    ∀ fuel (s : FileScan), s.total = 0 → scanFile H env file name fuel s = none
  | 0, _, _ => rfl
  | fuel + 1, s, hs => by
    obtain ⟨s', hstep, hs', -⟩ := scanStep_of_zero H env file name hp hs
    rw [scanFile, hstep]
    exact scanFile_spins hp fuel s' hs'

/-- A file the plotter writes with fewer than 256 KB per file holds no whole cell and is named
with the count `0`: the miner's loop over it never ends, at any number of passes. -/
theorem scanFile_spins_on_small_plots (nonce : UInt64) {sing : ℤ} (hsing : 0 ≤ sing ∧ sing < 256 * 1024)
    (search : Search) (fuel : ℕ) :
    scanFile H env file (makeName env.addrPlotID nonce (singCountOf sing)) fuel (.start search) = none := by
  rw [singCountOf_eq_zero hsing]
  exact scanFile_spins H env file _ (parseName_makeName _ _ (by norm_num)) fuel _ rfl

theorem scanFile_spins_on_small_plots_sample :
    (0 ≤ (1000 : ℤ) ∧ (1000 : ℤ) < 256 * 1024) ∧
      scanFile Hash256.zero ⟨[], 1, 0, 7, 0, 100, 0, fun _ => 0⟩ none
        (makeName 7 0 (singCountOf 1000)) 1000 (.start ⟨9999999999, 0, 0, 0⟩) = none :=
  ⟨by norm_num, scanFile_spins_on_small_plots Hash256.zero ⟨[], 1, 0, 7, 0, 100, 0, fun _ => 0⟩ none 0
    (by norm_num) _ 1000⟩

/-! ### A positive count -/

theorem advance_eq_next {t s' : FileScan} (h : advance t = .next s') :
    s'.total = t.total ∧ s'.index = t.index + 1 ∧ t.index + 1 ≠ t.total := by
  unfold advance at h
  split_ifs at h with hlast
  cases h
  exact ⟨rfl, rfl, hlast⟩

/-- Past the name, a pass that does not end the loop takes the next index, short of the count. -/
theorem scanStep_eq_next {s s' : FileScan} (hs : s.total ≠ 0) (h : scanStep H env file name s = .next s') :
    s'.total = s.total ∧ s'.index = s.index + 1 ∧ s.index + 1 ≠ s.total := by
  rw [scanStep, if_neg hs] at h
  dsimp only at h
  split_ifs at h
  · split at h
    · cases h
    · cases h
    · have hadv := advance_eq_next h
      exact hadv
  · exact advance_eq_next h

/-- From index `i < total` the loop is done within `total - i` passes. -/
theorem scanFile_of_index :
    ∀ (k : ℕ) (s : FileScan), 0 ≤ s.index → s.index < s.total → s.total - s.index ≤ k →
      scanFile H env file name k s ≠ none
  | 0, s, h0, hlt, hk => absurd hk (by omega)
  | k + 1, s, h0, hlt, hk => by
    rw [scanFile]
    rcases hstep : scanStep H env file name s with s' | m | m | _
    · obtain ⟨ht, hi, hne⟩ := scanStep_eq_next H env file name (by omega) hstep
      exact scanFile_of_index k s' (by omega) (by omega) (by omega)
    all_goals exact Option.some_ne_none _

/-- A file named with a positive count is done within `total + 1` passes: broken off, sealed or
faulted, never still scanning. -/
theorem scanFile_ends {pubID nonce : UInt64} {total : ℤ}
    (hp : parseName env.addrPlotID name = some (pubID, nonce, total)) (hpos : 0 < total)
    (search : Search) : scanFile H env file name (total.toNat + 1) (.start search) ≠ none := by
  rw [scanFile, scanStep, if_pos (show (FileScan.start search).total = 0 from rfl), hp]
  dsimp only
  rcases hl : loadData file env.scoopID total (FileScan.start search).data with _ | data
  · exact Option.some_ne_none _
  · exact scanFile_of_index H env file name _ ⟨total, 0, pubID, nonce, data, search⟩ le_rfl hpos
      (by dsimp only; omega)

end GoXdn.Consensus
