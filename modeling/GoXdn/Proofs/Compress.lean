import Mathlib
import GoXdn.Lib.Compress

/-!
# Decompression inverts compression, and only encodings decompress

The bitset of a string has a bit exactly at its non-zero bytes (`bit_nonZeroBitset`), and a byte
string is fixed by its bits and length (`eq_of_bit_eq`). The decoder reads the encoding of the
bitset first, from the start of the same input, and then hands the bytes after it out to the set
bits. So on `bitsetEncodeBytes d ++ rest` it returns `d` and the length of the encoding
(`bitsetDecodePartialBytes_complete`); and whatever it accepts, the prefix it reads is the
encoding of what it returns (`bitsetDecodePartialBytes_sound`), since a set bit beyond the target,
a missing byte or a zero byte is refused.
-/

namespace GoXdn.Bitutil

lemma except_bind_eq_ok {ε α β : Type} {x : Except ε α} {f : α → Except ε β} {b : β} :
    x >>= f = .ok b ↔ ∃ a, x = .ok a ∧ f a = .ok b := by
  cases x <;> simp [bind, Except.bind]

lemma foldlM_range_succ {ε σ : Type} (f : σ → ℕ → Except ε σ) (init : σ) (k : ℕ) :
    (List.range (k + 1)).foldlM f init = (List.range k).foldlM f init >>= fun s => f s k := by
  rw [List.range_succ, List.foldlM_append]
  simp only [List.foldlM_cons, List.foldlM_nil, bind_pure]

/-! ### Bits -/

/-- A byte string is fixed by its length and its bits. -/
lemma eq_of_bit_eq {a b : List UInt8} (hlen : a.length = b.length) (h : ∀ j, bit a j = bit b j) : a = b := by
  refine List.ext_getElem hlen fun i ha hb => ?_
  rw [← UInt8.toNat_inj]
  refine Nat.eq_of_testBit_eq fun t => ?_
  rcases Nat.lt_or_ge t 8 with ht | ht
  · have hj := h (8 * i + (7 - t))
    have hdiv : (8 * i + (7 - t)) / 8 = i := by omega
    have hmod : 7 - (8 * i + (7 - t)) % 8 = t := by omega
    simp only [bit, hdiv, hmod, List.getD_eq_getElem?_getD, List.getElem?_eq_getElem ha,
      List.getElem?_eq_getElem hb, Option.getD_some] at hj
    exact hj
  · rw [Nat.testBit_eq_false_of_lt (lt_of_lt_of_le a[i].toNat_lt (Nat.pow_le_pow_right (by omega) ht)),
      Nat.testBit_eq_false_of_lt (lt_of_lt_of_le b[i].toNat_lt (Nat.pow_le_pow_right (by omega) ht))]

lemma eq_replicate_of_bit_eq_false {v : List UInt8} (h : ∀ j, bit v j = false) :
    v = List.replicate v.length 0 :=
  eq_of_bit_eq (List.length_replicate).symm fun j => by rw [h, bit_replicate_zero]

lemma bit_eq_false_of_ge {v : List UInt8} {j : ℕ} (hj : 8 * v.length ≤ j) : bit v j = false := by
  rw [bit, List.getD_eq_getElem?_getD, List.getElem?_eq_none (by omega)]
  simp

lemma bit_nonZeroBitset (data : List UInt8) (j : ℕ) :
    bit (nonZeroBitset data) j = decide (j < data.length ∧ data.getD j 0 ≠ 0) := by
  have hloop : ∀ k ≤ data.length,
      bit ((List.range k).foldl (fun bitset i => if data.getD i 0 ≠ 0 then setBit bitset i else bitset)
        (List.replicate ((data.length + 7) / 8) 0)) j = decide (j < k ∧ data.getD j 0 ≠ 0) := by
    intro k
    induction k with
    | zero =>
      intro _
      rw [List.range_zero, List.foldl_nil, bit_replicate_zero]
      simp
    | succ k ih =>
      intro hk
      rw [List.range_succ, List.foldl_append, List.foldl_cons, List.foldl_nil]
      split_ifs with hne
      · have hlen : k / 8 < ((List.range k).foldl (fun bitset i => if data.getD i 0 ≠ 0 then setBit bitset i else bitset)
            (List.replicate ((data.length + 7) / 8) 0)).length := by
          rw [length_foldl_setBit, List.length_replicate]
          omega
        rw [setBit, bit_modify_or hlen, ih (by omega)]
        by_cases hjk : j = k
        · subst hjk
          simp only [decide_true, Bool.or_true]
          exact (decide_eq_true ⟨by omega, hne⟩).symm
        · simp only [hjk, decide_false, Bool.or_false]
          exact decide_eq_decide.mpr (and_congr_left fun _ => by omega)
      · rw [ih (by omega)]
        refine decide_eq_decide.mpr ⟨fun h => ⟨by omega, h.2⟩, fun h => ⟨?_, h.2⟩⟩
        rcases Nat.lt_succ_iff_lt_or_eq.mp h.1 with hlt | rfl
        · exact hlt
        · exact absurd h.2 hne
  rw [nonZeroBitset, hloop _ le_rfl]

lemma nonZeroBytes_eq_nil_iff (data : List UInt8) : nonZeroBytes data = [] ↔ ∀ x ∈ data, x = 0 := by
  simp [nonZeroBytes, List.filter_eq_nil_iff]

/-- Only strings of zeros encode to nothing. -/
lemma bitsetEncodeBytes_eq_nil_iff (data : List UInt8) : bitsetEncodeBytes data = [] ↔ ∀ x ∈ data, x = 0 := by
  rw [bitsetEncodeBytes]
  split_ifs with h0 h1 hb hnz
  · simp [List.eq_nil_of_length_eq_zero h0]
  · obtain ⟨b, rfl⟩ := List.length_eq_one_iff.mp h1
    simpa using hb
  · obtain ⟨b, rfl⟩ := List.length_eq_one_iff.mp h1
    simpa using hb
  · simpa using (nonZeroBytes_eq_nil_iff data).mp hnz
  · rw [← nonZeroBytes_eq_nil_iff]
    simp [hnz]

lemma bitsetEncodeBytes_replicate (n : ℕ) : bitsetEncodeBytes (List.replicate n 0) = [] :=
  (bitsetEncodeBytes_eq_nil_iff _).mpr fun _ hx => List.eq_of_mem_replicate hx

/-! ### The distribution loop -/

lemma decodeStep_eq (data bitset : List UInt8) (acc : List UInt8 × ℕ) (i : ℕ) :
    decodeStep data bitset acc i =
      if bit bitset i then
        if acc.2 ≥ data.length then .error .missingData
        else if i ≥ acc.1.length then .error .exceededTarget
        else if data.getD acc.2 0 = 0 then .error .zeroContent
        else .ok (acc.1.set i (data.getD acc.2 0), acc.2 + 1)
      else .ok acc := by
  have hbit : (bitset.getD (i / 8) 0 &&& 1 <<< (7 - i % 8).toUInt8 ≠ 0) ↔ bit bitset i = true :=
    and_shiftLeft_ne_zero _ (by omega)
  unfold decodeStep
  by_cases h : bit bitset i = true
  · rw [if_pos (hbit.mpr h), if_pos h]
  · rw [if_neg (mt hbit.mp h), if_neg h]

/-- The first `k` bytes of `d` in place, zeros after: the output after `k` rounds. -/
def fill (d : List UInt8) (k : ℕ) : List UInt8 :=
  (List.range d.length).map fun i => if i < k then d.getD i 0 else 0

lemma length_fill (d : List UInt8) (k : ℕ) : (fill d k).length = d.length := by
  simp [fill]

lemma getElem_fill (d : List UInt8) (k i : ℕ) (hi : i < (fill d k).length) :
    (fill d k)[i] = if i < k then d.getD i 0 else 0 := by
  simp [fill]

lemma fill_zero (d : List UInt8) : fill d 0 = List.replicate d.length 0 := by
  simp [fill]

lemma fill_of_le {d : List UInt8} {k : ℕ} (hk : d.length ≤ k) : fill d k = d := by
  refine List.ext_getElem (length_fill d k) fun i hi hd => ?_
  rw [getElem_fill, if_pos (by omega), List.getD_eq_getElem?_getD, List.getElem?_eq_getElem hd,
    Option.getD_some]

lemma fill_succ (d : List UInt8) (k : ℕ) : fill d (k + 1) = (fill d k).set k (d.getD k 0) := by
  refine List.ext_getElem (by simp [length_fill]) fun i hi hs => ?_
  rw [List.getElem_set, getElem_fill, getElem_fill]
  by_cases hik : k = i
  · subst hik
    simp
  · rw [if_neg hik]
    exact if_congr (by omega) rfl rfl

lemma fill_succ_of_not {d : List UInt8} {k : ℕ} (h : ¬ (k < d.length ∧ d.getD k 0 ≠ 0)) :
    fill d (k + 1) = fill d k := by
  refine List.ext_getElem (by simp [length_fill]) fun i hi hs => ?_
  rw [getElem_fill, getElem_fill]
  by_cases hik : i = k
  · subst hik
    rw [length_fill] at hi
    rw [if_pos (by omega), if_neg (by omega)]
    exact not_not.mp fun hne => h ⟨hi, hne⟩
  · exact if_congr (by omega) rfl rfl

lemma nonZeroBytes_take_succ (d : List UInt8) (k : ℕ) :
    nonZeroBytes (d.take (k + 1)) =
      nonZeroBytes (d.take k) ++ if k < d.length ∧ d.getD k 0 ≠ 0 then [d.getD k 0] else [] := by
  rw [List.take_add_one, nonZeroBytes, nonZeroBytes, List.filter_append]
  congr 1
  by_cases hk : k < d.length
  · rw [List.getElem?_eq_getElem hk, List.getD_eq_getElem?_getD, List.getElem?_eq_getElem hk, Option.getD_some]
    by_cases hz : d[k] = 0 <;> simp [hz, hk]
  · rw [List.getElem?_eq_none (by omega)]
    simp [hk]

/-- The pointer after `k` rounds is at `d[k]` among the non-zero bytes. -/
lemma nonZeroBytes_at_pointer {d : List UInt8} {k : ℕ} (hk : k < d.length ∧ d.getD k 0 ≠ 0) :
    (nonZeroBytes (d.take k)).length < (nonZeroBytes d).length ∧
      (nonZeroBytes d).getD (nonZeroBytes (d.take k)).length 0 = d.getD k 0 := by
  have hsplit : nonZeroBytes d = nonZeroBytes (d.take k) ++ d.getD k 0 :: nonZeroBytes (d.drop (k + 1)) := by
    conv_lhs => rw [← List.take_append_drop (k + 1) d]
    rw [nonZeroBytes, List.filter_append, ← nonZeroBytes, ← nonZeroBytes, nonZeroBytes_take_succ, if_pos hk]
    simp
  rw [hsplit]
  simp

lemma getD_pointer {pre nz rest : List UInt8} {c : ℕ} (hc : c < nz.length) :
    (pre ++ nz ++ rest).getD (pre.length + c) 0 = nz.getD c 0 := by
  rw [List.getD_eq_getElem?_getD, List.getD_eq_getElem?_getD, List.append_assoc,
    List.getElem?_append_right (by omega), Nat.add_sub_cancel_left, List.getElem?_append_left hc]

/-- On the non-zero bytes of `d` after any prefix, the rounds over the bits of `d`'s bitset put
`d`'s bytes in place one by one. -/
lemma decodeLoop_complete (d pre rest : List UInt8) :
    ∀ k, (List.range k).foldlM (decodeStep (pre ++ nonZeroBytes d ++ rest) (nonZeroBitset d))
        (List.replicate d.length 0, pre.length) =
      .ok (fill d k, pre.length + (nonZeroBytes (d.take k)).length)
  | 0 => by
    rw [List.range_zero, List.foldlM_nil, fill_zero, List.take_zero]
    rfl
  | k + 1 => by
    rw [foldlM_range_succ, decodeLoop_complete d pre rest k]
    simp only [bind, Except.bind]
    rw [decodeStep_eq, bit_nonZeroBitset, nonZeroBytes_take_succ]
    by_cases hk : k < d.length ∧ d.getD k 0 ≠ 0
    · obtain ⟨hlt, hget⟩ := nonZeroBytes_at_pointer hk
      have hlen : pre.length + (nonZeroBytes (d.take k)).length < (pre ++ nonZeroBytes d ++ rest).length := by
        simp only [List.length_append]
        omega
      dsimp only
      rw [if_pos (decide_eq_true hk), if_neg (by omega), if_neg (by rw [length_fill]; omega), getD_pointer hlt,
        hget, if_neg hk.2, if_pos hk, fill_succ, List.length_append, List.length_singleton, Nat.add_assoc]
    · rw [if_neg (by simpa using hk), if_neg hk, List.append_nil, fill_succ_of_not hk]

lemma nonZeroBytes_set_of_zeros {dec : List UInt8} {k : ℕ} {v : UInt8} (hk : k < dec.length)
    (hz : ∀ i ≥ k, dec.getD i 0 = 0) (hv : v ≠ 0) :
    nonZeroBytes (dec.set k v) = nonZeroBytes dec ++ [v] := by
  have hdrop : ∀ j ≥ k, nonZeroBytes (dec.drop j) = [] := by
    intro j hj
    rw [nonZeroBytes_eq_nil_iff]
    intro x hx
    obtain ⟨m, hm, rfl⟩ := List.mem_iff_getElem.mp hx
    have := hz (j + m) (by omega)
    rw [List.getD_eq_getElem?_getD, List.getElem?_eq_getElem (by simp at hm; omega), Option.getD_some] at this
    rw [List.getElem_drop]
    exact this
  have htake : nonZeroBytes dec = nonZeroBytes (dec.take k) := by
    conv_lhs => rw [← List.take_append_drop k dec]
    rw [nonZeroBytes, List.filter_append, ← nonZeroBytes, ← nonZeroBytes, hdrop k le_rfl, List.append_nil]
  calc nonZeroBytes (dec.set k v)
      = nonZeroBytes (dec.take k) ++ v :: nonZeroBytes (dec.drop (k + 1)) := by
        rw [List.set_eq_take_append_cons_drop, if_pos hk, nonZeroBytes, List.filter_append, List.filter_cons,
          if_pos (decide_eq_true hv), ← nonZeroBytes, ← nonZeroBytes]
    _ = nonZeroBytes dec ++ [v] := by rw [hdrop (k + 1) (by omega), htake]

/-- Whatever input the rounds accept, after `k` of them the output's non-zero slots are the
set bits below `k`, all within the target, filled in order with the bytes read. -/
lemma decodeLoop_sound (data bitset : List UInt8) (target p₁ : ℕ) (hp₁ : p₁ ≤ data.length) :
    ∀ k dec ptr, (List.range k).foldlM (decodeStep data bitset) (List.replicate target 0, p₁) = .ok (dec, ptr) →
      dec.length = target ∧ (∀ i, dec.getD i 0 ≠ 0 ↔ i < k ∧ bit bitset i = true) ∧
        (∀ i < k, bit bitset i = true → i < target) ∧ ptr ≤ data.length ∧
        data.take ptr = data.take p₁ ++ nonZeroBytes dec
  | 0, dec, ptr, h => by
    rw [List.range_zero, List.foldlM_nil] at h
    cases h
    refine ⟨List.length_replicate, fun i => ?_, fun i hi => absurd hi (Nat.not_lt_zero i), hp₁, ?_⟩
    · simp [List.getD_eq_getElem?_getD, List.getElem?_replicate]
      split <;> simp
    · rw [(nonZeroBytes_eq_nil_iff _).mpr (fun x hx => List.eq_of_mem_replicate hx), List.append_nil]
  | k + 1, dec, ptr, h => by
    rw [foldlM_range_succ, except_bind_eq_ok] at h
    obtain ⟨⟨dec', ptr'⟩, h', hstep⟩ := h
    obtain ⟨hlen, hslots, hbits, hptr, htake⟩ := decodeLoop_sound data bitset target p₁ hp₁ k dec' ptr' h'
    rw [decodeStep_eq] at hstep
    by_cases hb : bit bitset k = true
    · rw [if_pos hb] at hstep
      dsimp only at hstep
      split_ifs at hstep with h₁ h₂ h₃
      cases hstep
      have hzero : ∀ i ≥ k, dec'.getD i 0 = 0 := fun i hi => not_not.mp fun hne => by
        have := (hslots i).mp hne
        omega
      refine ⟨by rw [List.length_set, hlen], fun i => ?_, fun i hi hbi => ?_, by omega, ?_⟩
      · rw [List.getD_eq_getElem?_getD, List.getElem?_set]
        by_cases hik : k = i
        · subst hik
          rw [if_pos rfl, if_pos (by omega), Option.getD_some]
          exact ⟨fun _ => ⟨by omega, hb⟩, fun _ => h₃⟩
        · rw [if_neg hik, ← List.getD_eq_getElem?_getD, hslots i]
          exact and_congr_left fun _ => by omega
      · rcases Nat.lt_succ_iff_lt_or_eq.mp hi with hi | rfl
        · exact hbits i hi hbi
        · omega
      · rw [List.take_add_one, List.getElem?_eq_getElem (by omega), Option.toList_some, htake,
          nonZeroBytes_set_of_zeros (by omega) hzero h₃, List.append_assoc, List.getD_eq_getElem?_getD,
          List.getElem?_eq_getElem (by omega), Option.getD_some]
    · rw [if_neg hb] at hstep
      cases hstep
      refine ⟨hlen, fun i => ?_, fun i hi hbi => hbits i (by
        rcases Nat.lt_succ_iff_lt_or_eq.mp hi with hi | rfl
        · exact hi
        · exact absurd hbi hb) hbi, hptr, htake⟩
      rw [hslots i]
      constructor
      · exact fun h => ⟨by omega, h.2⟩
      · rintro ⟨hi, hbi⟩
        rcases Nat.lt_succ_iff_lt_or_eq.mp hi with hi | rfl
        · exact ⟨hi, hbi⟩
        · exact absurd hbi hb

/-! ### The levels -/

lemma bitsetDecodePartialBytes_zero (data : List UInt8) : bitsetDecodePartialBytes data 0 = .ok ([], 0) := by
  rw [bitsetDecodePartialBytes, if_pos rfl]

lemma bitsetDecodePartialBytes_nil {target : ℕ} (h : target ≠ 0) :
    bitsetDecodePartialBytes [] target = .ok (List.replicate target 0, 0) := by
  rw [bitsetDecodePartialBytes, if_neg h, if_pos rfl]

lemma bitsetDecodePartialBytes_one (b : UInt8) (rest : List UInt8) :
    bitsetDecodePartialBytes (b :: rest) 1 = .ok ([b], if b ≠ 0 then 1 else 0) := by
  rw [bitsetDecodePartialBytes, if_neg one_ne_zero, if_neg (List.cons_ne_nil _ _), if_pos rfl]
  rfl

lemma bitsetDecodePartialBytes_of_two_le {data : List UInt8} {target : ℕ} (hd : data ≠ []) (h : 2 ≤ target) :
    bitsetDecodePartialBytes data target =
      bitsetDecodePartialBytes data ((target + 7) / 8) >>= fun r =>
        (List.range (8 * r.1.length)).foldlM (decodeStep data r.1) (List.replicate target 0, r.2) := by
  rw [bitsetDecodePartialBytes, if_neg (by omega), if_neg hd, if_neg (by omega)]

lemma bitsetEncodeBytes_singleton (b : UInt8) : bitsetEncodeBytes [b] = if b = 0 then [] else [b] := by
  rw [bitsetEncodeBytes, if_neg (by simp), if_pos List.length_singleton, List.headD_cons]

lemma bitsetEncodeBytes_of_two_le {data : List UInt8} (h : 2 ≤ data.length) :
    bitsetEncodeBytes data =
      if nonZeroBytes data = [] then [] else bitsetEncodeBytes (nonZeroBitset data) ++ nonZeroBytes data := by
  conv_lhs => rw [bitsetEncodeBytes]
  rw [if_neg (by omega), if_neg (by omega)]

/-- The decoder reads an encoding back, whatever follows it. -/
theorem bitsetDecodePartialBytes_complete (d : List UInt8) :
    ∀ rest : List UInt8, (bitsetEncodeBytes d = [] → rest = []) →
      bitsetDecodePartialBytes (bitsetEncodeBytes d ++ rest) d.length = .ok (d, (bitsetEncodeBytes d).length) := by
  fun_induction bitsetEncodeBytes d with
  | case1 d h0 =>
    intro rest hrest
    rw [hrest rfl, List.eq_nil_of_length_eq_zero h0]
    exact bitsetDecodePartialBytes_zero _
  | case2 d h0 h1 hb =>
    intro rest hrest
    obtain ⟨b, rfl⟩ := List.length_eq_one_iff.mp h1
    rw [List.headD_cons] at hb
    subst hb
    rw [hrest rfl]
    exact bitsetDecodePartialBytes_nil one_ne_zero
  | case3 d h0 h1 hb =>
    intro rest _
    obtain ⟨b, rfl⟩ := List.length_eq_one_iff.mp h1
    rw [List.headD_cons] at hb
    rw [List.singleton_append, List.length_singleton, bitsetDecodePartialBytes_one, if_pos hb]
  | case4 d h0 h1 hnz =>
    intro rest hrest
    have hd : d = List.replicate d.length 0 := List.eq_replicate_iff.mpr ⟨rfl, (nonZeroBytes_eq_nil_iff d).mp hnz⟩
    rw [hrest rfl, List.nil_append, bitsetDecodePartialBytes_nil h0, ← hd]
    rfl
  | case5 d h0 h1 hnz ih =>
    intro rest _
    have hbs : bitsetEncodeBytes (nonZeroBitset d) ≠ [] := by
      rw [Ne, bitsetEncodeBytes_eq_nil_iff]
      intro hzero
      obtain ⟨x, hx, hx0⟩ : ∃ x ∈ d, x ≠ 0 := by
        simpa [nonZeroBytes_eq_nil_iff] using hnz
      obtain ⟨j, hj, rfl⟩ := List.mem_iff_getElem.mp hx
      have hbit := bit_nonZeroBitset d j
      rw [eq_replicate_of_bit_eq_false (v := nonZeroBitset d) (fun j => by
        rw [List.eq_replicate_iff.mpr ⟨rfl, hzero⟩, bit_replicate_zero]), bit_replicate_zero] at hbit
      rw [List.getD_eq_getElem?_getD, List.getElem?_eq_getElem hj, Option.getD_some] at hbit
      exact absurd (decide_eq_false_iff_not.mp hbit.symm) (not_not.mpr ⟨hj, hx0⟩)
    have hne : bitsetEncodeBytes (nonZeroBitset d) ++ nonZeroBytes d ++ rest ≠ [] := by simp [hbs]
    rw [bitsetDecodePartialBytes_of_two_le hne (by omega), List.append_assoc, ← length_nonZeroBitset,
      ih (nonZeroBytes d ++ rest) (fun h => absurd h hbs)]
    simp only [bind, Except.bind]
    rw [← List.append_assoc, decodeLoop_complete, fill_of_le (by rw [length_nonZeroBitset]; omega),
      List.take_of_length_le (by rw [length_nonZeroBitset]; omega), List.length_append]

/-- Whatever the decoder accepts, the input it reads is the encoding of its output. -/
theorem bitsetDecodePartialBytes_sound (data : List UInt8) (target : ℕ) :
    ∀ d p, bitsetDecodePartialBytes data target = .ok (d, p) →
      d.length = target ∧ p ≤ data.length ∧ data.take p = bitsetEncodeBytes d := by
  fun_induction bitsetDecodePartialBytes data target with
  | case1 =>
    intro d p h
    cases h
    exact ⟨rfl, Nat.zero_le _, by rw [List.take_zero]; exact (bitsetEncodeBytes_replicate 0).symm⟩
  | case2 target h0 hnil =>
    intro d p h
    cases h
    exact ⟨List.length_replicate, Nat.zero_le _, by rw [List.take_zero, bitsetEncodeBytes_replicate]⟩
  | case3 hnil _ =>
    intro d p h
    obtain ⟨b, rest, rfl⟩ := List.exists_cons_of_ne_nil hnil
    simp only [List.headD_cons] at h
    cases h
    by_cases hb : b = 0
    · simp [hb, bitsetEncodeBytes_singleton]
    · simp [hb, bitsetEncodeBytes_singleton]
  | case4 target h0 hnil h1 ih =>
    intro d p h
    rw [except_bind_eq_ok] at h
    obtain ⟨⟨bitset, p₁⟩, hrec, hloop⟩ := h
    obtain ⟨hblen, hp₁, htake₁⟩ := ih bitset p₁ hrec
    obtain ⟨hlen, hslots, hbits, hptr, htake⟩ := decodeLoop_sound data bitset target p₁ hp₁ _ d p hloop
    have hbs : bitset = nonZeroBitset d := by
      refine eq_of_bit_eq (by rw [length_nonZeroBitset, hlen, hblen]) fun j => ?_
      rw [bit_nonZeroBitset]
      by_cases hj : bit bitset j = true
      · have hjlt : j < 8 * bitset.length := by
          by_contra hge
          rw [bit_eq_false_of_ge (by omega)] at hj
          exact Bool.false_ne_true hj
        rw [hj]
        exact (decide_eq_true ⟨hlen ▸ hbits j hjlt hj, (hslots j).mpr ⟨hjlt, hj⟩⟩).symm
      · rw [Bool.not_eq_true] at hj
        rw [hj]
        exact (decide_eq_false fun hd => absurd ((hslots j).mp hd.2).2 (by rw [hj]; decide)).symm
    refine ⟨hlen, hptr, ?_⟩
    rw [htake, htake₁, hbs, bitsetEncodeBytes_of_two_le (show 2 ≤ d.length by omega)]
    split_ifs with hnz
    · have hzero : ∀ j, bit (nonZeroBitset d) j = false := fun j => by
        rw [bit_nonZeroBitset]
        refine decide_eq_false fun hd => hd.2 ?_
        rw [List.getD_eq_getElem?_getD, List.getElem?_eq_getElem hd.1, Option.getD_some]
        exact (nonZeroBytes_eq_nil_iff d).mp hnz _ (List.getElem_mem hd.1)
      rw [eq_replicate_of_bit_eq_false hzero, bitsetEncodeBytes_replicate, hnz, List.append_nil]
    · rfl

/-! ### Round trips -/

theorem bitsetDecodeBytes_eq_ok_iff (c : List UInt8) (n : ℕ) (d : List UInt8) :
    bitsetDecodeBytes c n = .ok d ↔ d.length = n ∧ c = bitsetEncodeBytes d := by
  constructor
  · intro h
    unfold bitsetDecodeBytes at h
    rw [except_bind_eq_ok] at h
    obtain ⟨⟨out, size⟩, hpart, hsize⟩ := h
    dsimp only at hsize
    split_ifs at hsize with hne
    cases hsize
    obtain ⟨hlen, -, htake⟩ := bitsetDecodePartialBytes_sound c n _ size hpart
    rw [not_not.mp hne, List.take_length] at htake
    exact ⟨hlen, htake⟩
  · rintro ⟨rfl, rfl⟩
    have h := bitsetDecodePartialBytes_complete d [] (fun _ => rfl)
    rw [List.append_nil] at h
    unfold bitsetDecodeBytes
    rw [h]
    simp only [bind, Except.bind]
    rw [if_neg (not_not.mpr rfl)]

theorem DecompressBytes_CompressBytes (d : List UInt8) : DecompressBytes (CompressBytes d) d.length = .ok d := by
  unfold CompressBytes DecompressBytes
  dsimp only
  by_cases hshort : (bitsetEncodeBytes d).length < d.length
  · rw [if_pos hshort, if_neg (by omega), if_neg (by omega), (bitsetDecodeBytes_eq_ok_iff _ _ _).mpr ⟨rfl, rfl⟩]
  · rw [if_neg hshort, if_neg (lt_irrefl _), if_pos rfl]

theorem compress_round_trip :
    (∀ d, DecompressBytes (CompressBytes d) d.length = .ok d) ∧
      ∀ (n : ℕ) (c d : List UInt8), bitsetDecodeBytes c n = .ok d ↔ d.length = n ∧ c = bitsetEncodeBytes d :=
  ⟨DecompressBytes_CompressBytes, fun n c d => bitsetDecodeBytes_eq_ok_iff c n d⟩

end GoXdn.Bitutil
