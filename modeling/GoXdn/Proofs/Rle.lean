import Mathlib
import GoXdn.Compression.Rle

/-!
# The run-length round trip

`Decompress` gives back each chunk `compressChunk` wrote (`Decompress_chunk`), except a run of
zeros whose length plus two is one of the three token bytes: a run of 251, 252 or 253 zeros is
written `0xfe 0xfd`, `0xfe 0xfe` or `0xfe 0xff`, which `Decompress` reads as the empty hash, the
empty-list hash or an escaped `0xfe`. So the round trip holds for every input with no run of
251 zeros (`Decompress_Compress_of_zeros`), and 251 zeros come back as the 32 bytes of the
empty hash (`Decompress_Compress_251_zeros`).
-/

namespace GoXdn.Compression

open GoStd

variable (K : Hash256)

section Decompress

@[simp]
theorem Decompress_nil : Decompress K [] = .ok [] := rfl

theorem Decompress_token (c : UInt8) (rest : List UInt8) :
    Decompress K (token :: c :: rest) = (tokenBytes K c ++ ·) <$> Decompress K rest := by
  simp [Decompress]

theorem Decompress_of_ne {b : UInt8} (hb : b ≠ token) (rest : List UInt8) :
    Decompress K (b :: rest) = (b :: ·) <$> Decompress K rest := by
  rw [Decompress.eq_def]
  simp only [if_neg hb]

theorem tokenBytes_of_run {j : ℕ} (h₂ : 2 ≤ j) (h₂₅₀ : j ≤ 250) :
    tokenBytes K (UInt8.ofNat (j + 2)) = List.replicate j 0 := by
  have hj : (UInt8.ofNat (j + 2)).toNat = j + 2 := by
    rw [UInt8.toNat_ofNat', Nat.mod_eq_of_lt (by omega)]
  have hne : ∀ t : UInt8, t.toNat ≠ j + 2 → UInt8.ofNat (j + 2) ≠ t := fun t ht h => by
    rw [h] at hj
    exact ht hj
  rw [tokenBytes, if_neg (hne _ (by simp [emptyShaToken]; omega)),
    if_neg (hne _ (by simp [emptyListShaToken]; omega)), if_neg (hne _ (by simp [tokenToken]; omega))]
  congr 1
  rw [UInt8.toNat_sub_of_le _ _ (UInt8.le_iff_toNat_le.2 (by simp; omega)), hj]
  simp

end Decompress

/-! ### Runs of zeros -/

/-- The zero loop from index `j` stops at the first non-zero byte, at the end, or at 255. -/
theorem zeroRun_spec : ∀ (l : List UInt8) (j : ℕ), j ≤ 255 →
    ∃ k, zeroRun j l = j + k ∧ j + k ≤ 255 ∧ l.take k = List.replicate k 0
  | [], j, _ => ⟨0, rfl, by omega, rfl⟩
  | b :: bs, j, hj => by
    rw [zeroRun]
    split_ifs with h
    · obtain ⟨k, hk, hk₂, hk₃⟩ := zeroRun_spec bs (j + 1) (by omega)
      refine ⟨k + 1, by omega, by omega, ?_⟩
      rw [List.take_succ_cons, hk₃, h.2, List.replicate_succ]
    · exact ⟨0, rfl, by omega, rfl⟩

/-- A prefix of zeros the loop can reach is counted. -/
theorem le_zeroRun : ∀ (l : List UInt8) (j m : ℕ), m ≤ l.length → l.take m = List.replicate m 0 →
    j + m ≤ 255 → j + m ≤ zeroRun j l
  | [], j, m, hm, _, _ => by simp at hm; simp [zeroRun, hm]
  | b :: bs, j, 0, _, _, _ => by
    obtain ⟨k, hk, -⟩ := zeroRun_spec (b :: bs) j (by omega)
    omega
  | b :: bs, j, m + 1, hm, hz, hj => by
    rw [List.take_succ_cons, List.replicate_succ, List.cons.injEq] at hz
    rw [zeroRun, if_pos ⟨by omega, hz.1⟩]
    have := le_zeroRun bs (j + 1) m (by simpa using hm) hz.2 (by omega)
    omega

/-! ### Chunks -/

theorem zeroRun_length {l : List UInt8} {k : ℕ} (hz : l.take k = List.replicate k 0) :
    k ≤ l.length := by
  have := congrArg List.length hz
  simp only [List.length_take, List.length_replicate] at this
  omega

/-- `compressChunk` consumes at least one byte and no more than there are. -/
theorem compressChunk_snd (d : UInt8) (rest : List UInt8) :
    1 ≤ (compressChunk K d rest).2 ∧ (compressChunk K d rest).2 ≤ rest.length + 1 := by
  unfold compressChunk
  split_ifs with h₁ h₂ h₃ h₄
  · simp
  · obtain ⟨hd, hr⟩ := h₂
    rcases rest with _ | ⟨x, rest'⟩
    · simp at hr
    have hx : x = 0 := by simpa using hr
    obtain ⟨k, hk, -, hz⟩ := zeroRun_spec (d :: x :: rest') 0 (by omega)
    have h2 := le_zeroRun (d :: x :: rest') 0 2 (by simp) (by simp [hd, hx]) (by omega)
    have hlen := zeroRun_length hz
    simp only [List.length_cons] at hlen ⊢
    omega
  · simp only [List.length_cons] at h₃ ⊢
    omega
  · simp only [List.length_cons] at h₄ ⊢
    omega
  · simp

/-- Each chunk but a run of 251 zeros or more is decompressed back to the bytes it consumed. -/
theorem Decompress_chunk (d : UInt8) (rest more : List UInt8)
    (hz : ¬ List.replicate 251 0 <+: d :: rest) :
    Decompress K ((compressChunk K d rest).1 ++ more) =
      ((d :: rest).take (compressChunk K d rest).2 ++ ·) <$> Decompress K more := by
  unfold compressChunk
  split_ifs with h₁ h₂ h₃ h₄
  · subst h₁
    simp only [List.cons_append, List.nil_append, Decompress_token]
    simp [tokenBytes, emptyShaToken, emptyListShaToken, tokenToken]
  · obtain ⟨hd, hr⟩ := h₂
    rcases rest with _ | ⟨x, rest'⟩
    · simp at hr
    have hx : x = 0 := by simpa using hr
    obtain ⟨k, hk, hk₂, htake⟩ := zeroRun_spec (d :: x :: rest') 0 (by omega)
    have h2 := le_zeroRun (d :: x :: rest') 0 2 (by simp) (by simp [hd, hx]) (by omega)
    rw [Nat.zero_add] at hk hk₂
    rw [hk] at h2
    have h250 : k ≤ 250 := by
      by_contra hbig
      apply hz
      have h251 : (d :: x :: rest').take 251 = List.replicate 251 0 := by
        rw [← min_eq_left (show 251 ≤ k by omega), ← List.take_take, htake, List.take_replicate,
          min_eq_left (show 251 ≤ k by omega)]
      rw [← h251]
      exact List.take_prefix _ _
    simp only [hk, List.cons_append, List.nil_append, Decompress_token,
      tokenBytes_of_run K h2 h250, htake]
  · simp only [List.cons_append, List.nil_append, Decompress_token, h₃.2.2]
    simp [tokenBytes]
  · simp only [List.cons_append, List.nil_append, Decompress_token, h₄.2.2]
    simp [tokenBytes, emptyShaToken, emptyListShaToken]
  · simp [Decompress_of_ne K h₁]

/-! ### The round trip -/

theorem Decompress_compressLoop : ∀ (fuel : ℕ) (dat : List UInt8), dat.length ≤ fuel →
    ¬ List.replicate 251 0 <:+: dat → Decompress K (compressLoop K fuel dat) = .ok dat
  | 0, dat, h, _ => by
    rw [List.eq_nil_of_length_eq_zero (Nat.le_zero.1 h)]
    rfl
  | fuel + 1, [], _, _ => rfl
  | fuel + 1, d :: rest, h, hz => by
    obtain ⟨h1, hn⟩ := compressChunk_snd K d rest
    have hpre : ¬ List.replicate 251 0 <+: d :: rest := fun hp => hz hp.isInfix
    have hrest : ¬ List.replicate 251 0 <:+: (d :: rest).drop (compressChunk K d rest).2 :=
      fun hi => hz (hi.trans (List.drop_suffix _ _).isInfix)
    have ih := Decompress_compressLoop fuel ((d :: rest).drop (compressChunk K d rest).2)
      (by simp only [List.length_drop, List.length_cons] at h ⊢; omega) hrest
    simp only [compressLoop]
    rw [Decompress_chunk K d rest _ hpre, ih]
    simp [List.take_append_drop]

/-- The round trip holds for every input without a run of 251 zero bytes. -/
theorem Decompress_Compress_of_zeros {x : List UInt8} (hz : ¬ List.replicate 251 0 <:+: x) :
    Decompress K (Compress K x) = .ok x :=
  Decompress_compressLoop K x.length x le_rfl hz

theorem zeroRun_replicate {m : ℕ} (hm : m ≤ 255) : zeroRun 0 (List.replicate m 0) = m := by
  obtain ⟨k, hk, -, htake⟩ := zeroRun_spec (List.replicate m 0) 0 (by omega)
  have hle := zeroRun_length htake
  have hge := le_zeroRun (List.replicate m 0) 0 m (by simp) (by simp) (by omega)
  simp only [List.length_replicate] at hle
  omega

/-- A run of 251 zeros is written `0xfe 0xfd`, which is read back as the empty hash. -/
theorem Decompress_Compress_251_zeros :
    Decompress K (Compress K (List.replicate 251 0)) = .ok (K.sum []) ∧
      K.sum [] ≠ List.replicate 251 0 := by
  have hne : K.sum [] ≠ List.replicate 251 0 := fun h => by
    have hlen := congrArg List.length h
    rw [Hash256.length_sum, List.length_replicate] at hlen
    omega
  refine ⟨?_, hne⟩
  have hchunk : compressChunk K 0 (List.replicate 250 0) = ([token, emptyShaToken], 251) := by
    have hrun : zeroRun 0 (0 :: List.replicate 250 0) = 251 := zeroRun_replicate (m := 251) (by omega)
    rw [compressChunk, if_neg (by decide), if_pos ⟨rfl, rfl⟩]
    simp only [hrun]
    rfl
  have hc : Compress K (List.replicate 251 0) = [token, emptyShaToken] := by
    rw [Compress, List.length_replicate, List.replicate_succ, compressLoop, hchunk]
    simp only [List.drop_succ_cons, List.drop_replicate, Nat.sub_self, List.replicate_zero]
    rfl
  rw [hc, Decompress_token]
  simp [tokenBytes, empty]

end GoXdn.Compression
