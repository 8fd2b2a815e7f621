import Mathlib
import GoXdn.Proofs.Bloom

/-!
# The matcher answers log filters exactly

A session of `Matcher.Start` sends, in increasing order and each once, the blocks of
`[begin, end]` whose header bloom passes the filter (`Start_eq_matches`). It does so provided every
retrieval is answered with the section generator's vector, the section size is a positive
multiple of 8, and `end + sectionSize < 2 ^ 64`. The last two conditions matter: a section size
of `0` divides by zero, and a range that ends at `2 ^ 64 - 1` makes the result loop wrap `i` past
the top and read beyond the section's vector (`Start_panics`).

The proof follows the pipeline. A stage ANDs, ORs and ANDs vectors bit by bit (`subMatch_spec`),
so the chain leaves bit `j` set exactly when block `j` of the section passes every group
(`chain_spec`). The result loop, with its skip over zero bytes, sends the blocks of the section in
the range whose bit is set (`emit_eq`), and the sections' blocks in order make up the range
(`flatMap_sections`).
-/

namespace GoXdn.Bloombits

open GoXdn.Core GoStd Bitutil

/-! ## Blocks of a range -/

/-- The blocks of `[i, last]` that `p` keeps, in order. -/
def blocks (p : ℕ → Bool) (i last : ℕ) : List ℕ := (List.range' i (last + 1 - i)).filter p

section Blocks

variable {p q : ℕ → Bool} {i last : ℕ}

theorem blocks_of_lt (h : last < i) : blocks p i last = [] := by
  rw [blocks, show last + 1 - i = 0 by omega, List.range'_zero, List.filter_nil]

theorem blocks_of_le (h : i ≤ last) :
    blocks p i last = (if p i then [i] else []) ++ blocks p (i + 1) last := by
  rw [blocks, blocks, show last + 1 - i = (last + 1 - (i + 1)) + 1 by omega, List.range'_succ,
    List.filter_cons]
  split <;> rfl

theorem blocks_congr (h : ∀ x, i ≤ x → x ≤ last → p x = q x) : blocks p i last = blocks q i last :=
  List.filter_congr fun x hx => by
    rw [List.mem_range'_1] at hx
    exact h x hx.1 (by omega)

theorem blocks_eq_nil (h : ∀ x, i ≤ x → x ≤ last → p x = false) : blocks p i last = [] :=
  List.filter_eq_nil_iff.mpr fun x hx => by
    rw [List.mem_range'_1] at hx
    simp [h x hx.1 (by omega)]

/-- Blocks on which `p` is false can be stepped over. -/
theorem blocks_skip (k : ℕ) (h : ∀ x, i ≤ x → x < i + k → p x = false) :
    blocks p i last = blocks p (i + k) last := by
  induction k with
  | zero => rfl
  | succ k ih =>
    rw [ih fun x h1 h2 => h x h1 (by omega)]
    by_cases hk : i + k ≤ last
    · rw [blocks_of_le hk, h (i + k) (by omega) (by omega), if_neg Bool.false_ne_true, List.nil_append,
        Nat.add_assoc]
    · rw [blocks_of_lt (by omega), blocks_of_lt (by omega)]

/-- The blocks of `[a, c]` are those up to `b`, then those after. -/
theorem blocks_split (p : ℕ → Bool) {a b c : ℕ} (h : b ≤ c) :
    blocks p a c = blocks p a b ++ blocks p (max a (b + 1)) c := by
  by_cases hab : a ≤ b + 1
  · have hrange := @List.range'_append a (b + 1 - a) (c + 1 - (b + 1)) 1
    rw [show a + 1 * (b + 1 - a) = b + 1 by omega,
      show b + 1 - a + (c + 1 - (b + 1)) = c + 1 - a by omega] at hrange
    rw [max_eq_right hab, blocks, blocks, blocks, ← List.filter_append, hrange]
  · have hnil : blocks p a b = [] := blocks_of_lt (by omega)
    rw [hnil, List.nil_append, max_eq_left (by omega)]

end Blocks

/-! ## The result loop -/

section Emit

variable {v : List UInt8} {S last : UInt64}

theorem toNat_add_of_lt {a b : UInt64} (h : a.toNat + b.toNat < 2 ^ 64) :
    (a + b).toNat = a.toNat + b.toNat := by
  rw [UInt64.toNat_add, Nat.mod_eq_of_lt h]

/-- The byte the loop reads at block `x` holds the block's bit, at `7 - x % 8` since the section
starts on a byte. -/
theorem bit_sub_start (hS : S.toNat % 8 = 0) {x : ℕ} (hx : S.toNat ≤ x) :
    bit v (x - S.toNat) = (v.getD ((x - S.toNat) / 8) 0).toNat.testBit (7 - x % 8) := by
  rw [bit, show (x - S.toNat) % 8 = x % 8 by omega]

theorem emit_eq (hS : S.toNat % 8 = 0) (hlast : last.toNat + 8 < 2 ^ 64)
    (hv : last.toNat < S.toNat + 8 * v.length) :
    ∀ (fuel : ℕ) (i : UInt64), S.toNat ≤ i.toNat → last.toNat + 1 - i.toNat < fuel →
      Matcher.emit v S last fuel i =
        .ok ((blocks (fun x => bit v (x - S.toNat)) i.toNat last.toNat).map Nat.toUInt64)
  | 0, _, _, hfuel => absurd hfuel (Nat.not_lt_zero _)
  | fuel + 1, i, hi, hfuel => by
    rw [Matcher.emit]
    by_cases hle : i ≤ last
    · rw [if_pos hle]
      rw [UInt64.le_iff_toNat_le] at hle
      have hidx : ((i - S) / 8).toNat = (i.toNat - S.toNat) / 8 := by
        rw [UInt64.toNat_div, UInt64.toNat_sub_of_le _ _ (UInt64.le_iff_toNat_le.mpr hi)]
        rfl
      have hin : (i.toNat - S.toNat) / 8 < v.length := by omega
      rw [hidx, List.getElem?_eq_getElem hin]
      dsimp only
      have hbit := bit_sub_start (v := v) hS hi
      rw [List.getD_eq_getElem _ _ hin] at hbit
      have hmod : (i % 8).toNat = i.toNat % 8 := UInt64.toNat_mod _ _
      have hsucc : (i + 1).toNat = i.toNat + 1 := toNat_add_of_lt (by simp; omega)
      by_cases hzero : v[(i.toNat - S.toNat) / 8] = 0
      · rw [if_pos hzero]
        have hskip : ∀ k, (∀ x, i.toNat ≤ x → x < i.toNat + k →
            (x - S.toNat) / 8 = (i.toNat - S.toNat) / 8) →
            blocks (fun x => bit v (x - S.toNat)) i.toNat last.toNat =
              blocks (fun x => bit v (x - S.toNat)) (i.toNat + k) last.toNat := fun k hk =>
          blocks_skip k fun x h1 h2 => by
            rw [bit_sub_start hS (by omega), hk x h1 h2, List.getD_eq_getElem _ _ hin, hzero]
            simp
        by_cases h8 : i % 8 = 0
        · have h8' : i.toNat % 8 = 0 := by rw [← hmod, h8]; rfl
          have hnext : (i + 7 + 1).toNat = i.toNat + 8 := by
            rw [toNat_add_of_lt, toNat_add_of_lt] <;> simp <;> omega
          rw [if_pos h8, hskip 8 fun x h1 h2 => by omega, ← hnext]
          exact emit_eq hS hlast hv fuel _ (by omega) (by omega)
        · rw [if_neg h8, hskip 1 fun x h1 h2 => by omega, ← hsucc]
          exact emit_eq hS hlast hv fuel _ (by omega) (by omega)
      · rw [if_neg hzero]
        have hk : (7 - i % 8).toNat = 7 - i.toNat % 8 := by
          rw [UInt64.toNat_sub_of_le _ _ (UInt64.le_iff_toNat_le.mpr (by simp [hmod]; omega)), hmod]
          rfl
        have htest : (v[(i.toNat - S.toNat) / 8] &&& (1 <<< (7 - i % 8).toNat.toUInt8) ≠ 0) ↔
            bit v (i.toNat - S.toNat) = true := by
          rw [and_shiftLeft_ne_zero _ (by omega), hk, hbit]
        by_cases hset : bit v (i.toNat - S.toNat) = true
        · rw [if_pos (htest.mpr hset), blocks_of_le hle, if_pos hset,
            emit_eq hS hlast hv fuel _ (by omega) (by omega), hsucc]
          simp
        · rw [if_neg (mt htest.mp hset), blocks_of_le hle, if_neg hset, List.nil_append, ← hsucc]
          exact emit_eq hS hlast hv fuel _ (by omega) (by omega)
    · rw [if_neg hle, blocks_of_lt (by rw [UInt64.le_iff_toNat_le] at hle; omega)]
      rfl

end Emit

/-! ## A section's blocks -/

/-- The blocks `Start` sends for a section whose vector holds `p` of its blocks. -/
theorem sendSection_eq (m : Matcher) {begin end_ : UInt64} {res : PartialMatches} {p : ℕ → Bool}
    (hsize : 0 < m.sectionSize.toNat) (h8 : m.sectionSize.toNat % 8 = 0)
    (hend : end_.toNat + m.sectionSize.toNat < 2 ^ 64)
    (hsec : res.sectionIndex.toNat * m.sectionSize.toNat ≤ end_.toNat)
    (hlen : res.bitset.length = m.sectionSize.toNat / 8)
    (hbit : ∀ j < m.sectionSize.toNat,
      bit res.bitset j = p (res.sectionIndex.toNat * m.sectionSize.toNat + j)) :
    m.sendSection begin end_ res =
      .ok ((blocks p (max begin.toNat (res.sectionIndex.toNat * m.sectionSize.toNat))
        (min end_.toNat (res.sectionIndex.toNat * m.sectionSize.toNat + m.sectionSize.toNat - 1))).map
          Nat.toUInt64) := by
  have hS : (res.sectionIndex * m.sectionSize).toNat = res.sectionIndex.toNat * m.sectionSize.toNat := by
    rw [UInt64.toNat_mul, Nat.mod_eq_of_lt (by omega)]
  have htop : (res.sectionIndex * m.sectionSize + m.sectionSize).toNat =
      res.sectionIndex.toNat * m.sectionSize.toNat + m.sectionSize.toNat := by
    rw [toNat_add_of_lt (by omega), hS]
  have hend' : (res.sectionIndex * m.sectionSize + m.sectionSize - 1).toNat =
      res.sectionIndex.toNat * m.sectionSize.toNat + m.sectionSize.toNat - 1 := by
    rw [UInt64.toNat_sub_of_le _ _ (UInt64.le_iff_toNat_le.mpr (by simp [htop]; omega)), htop]
    rfl
  have hfirst : (if begin > res.sectionIndex * m.sectionSize then begin
      else res.sectionIndex * m.sectionSize).toNat =
        max begin.toNat (res.sectionIndex.toNat * m.sectionSize.toNat) := by
    split_ifs with h
    · rw [gt_iff_lt, UInt64.lt_iff_toNat_lt, hS] at h
      omega
    · rw [gt_iff_lt, UInt64.lt_iff_toNat_lt, hS] at h
      rw [hS]
      omega
  have hlast : (if end_ < res.sectionIndex * m.sectionSize + m.sectionSize - 1 then end_
      else res.sectionIndex * m.sectionSize + m.sectionSize - 1).toNat =
        min end_.toNat (res.sectionIndex.toNat * m.sectionSize.toNat + m.sectionSize.toNat - 1) := by
    split_ifs with h
    · rw [UInt64.lt_iff_toNat_lt, hend'] at h
      omega
    · rw [UInt64.lt_iff_toNat_lt, hend'] at h
      rw [hend']
      omega
  unfold Matcher.sendSection
  dsimp only
  rw [emit_eq (by rw [hS]; exact Nat.mod_eq_zero_of_dvd (dvd_mul_of_dvd_right (Nat.dvd_of_mod_eq_zero h8) _))
      (by rw [hlast]; omega) (by rw [hlast, hS, hlen]; omega) _ _
      (by rw [hfirst, hS]; omega) (by rw [hfirst, hlast]; omega),
    hfirst, hlast, hS]
  congr 2
  apply blocks_congr
  intro x h1 h2
  rw [hbit _ (by omega), Nat.add_sub_cancel' (by omega)]

/-! ## The stages -/

/-- Bit `j` of a group's `orVector`: some clause has bit `j` set in the vectors of all its bits. -/
def groupBit (fetch : ℕ → UInt64 → List UInt8) (s : UInt64) (bloom : List (List ℕ)) (j : ℕ) :
    Bool :=
  bloom.any fun bits => bits.all fun b => bit (fetch b s) j

section Stages

variable {n : ℕ} {fetch : ℕ → UInt64 → List UInt8} {s : UInt64}

theorem foldl_andStep {bits : List ℕ} (hlen : ∀ b ∈ bits, (fetch b s).length = n) :
    ∀ v : List UInt8, v.length = n → ∃ w, bits.foldl (Matcher.andStep n fetch s) (some v) = some w ∧
      w.length = n ∧ ∀ j, bit w j = (bit v j && bits.all fun b => bit (fetch b s) j) := by
  induction bits with
  | nil => exact fun v hv => ⟨v, rfl, hv, fun j => by simp⟩
  | cons b bits ih =>
    intro v hv
    have hb := hlen b (List.mem_cons_self ..)
    obtain ⟨w, hw, hwlen, hwbit⟩ := ih (fun b' hb' => hlen b' (List.mem_cons_of_mem _ hb'))
      (ANDBytes v (fetch b s)) ((length_ANDBytes _ _).trans hv)
    refine ⟨w, hw, hwlen, fun j => ?_⟩
    rw [hwbit, bit_ANDBytes (hv.trans hb.symm), List.all_cons, Bool.and_assoc]

theorem andVector_spec {bits : List ℕ} (hne : bits ≠ []) (hlen : ∀ b ∈ bits, (fetch b s).length = n) :
    ∃ w, Matcher.andVector n fetch s bits = some w ∧ w.length = n ∧
      ∀ j, bit w j = bits.all fun b => bit (fetch b s) j := by
  obtain ⟨b, bits, rfl⟩ := List.exists_cons_of_ne_nil hne
  have hb := hlen b (List.mem_cons_self ..)
  have hfirst : Matcher.andStep n fetch s none b = some (fetch b s) := by
    rw [Matcher.andStep, copy_of_length_eq (by rw [hb, List.length_replicate])]
  obtain ⟨w, hw, hwlen, hwbit⟩ :=
    foldl_andStep (fun b' hb' => hlen b' (List.mem_cons_of_mem _ hb')) (fetch b s) hb
  refine ⟨w, by rw [Matcher.andVector, List.foldl_cons, hfirst, hw], hwlen, fun j => ?_⟩
  rw [hwbit, List.all_cons]

theorem foldl_orStep {bloom : List (List ℕ)} (hne : ∀ bits ∈ bloom, bits ≠ [])
    (hlen : ∀ bits ∈ bloom, ∀ b ∈ bits, (fetch b s).length = n) :
    ∀ v : List UInt8, v.length = n → ∃ w, bloom.foldl (Matcher.orStep n fetch s) (some v) = some w ∧
      w.length = n ∧ ∀ j, bit w j = (bit v j || groupBit fetch s bloom j) := by
  induction bloom with
  | nil => exact fun v hv => ⟨v, rfl, hv, fun j => by simp [groupBit]⟩
  | cons bits bloom ih =>
    intro v hv
    obtain ⟨a, ha, halen, habit⟩ :=
      andVector_spec (hne bits (List.mem_cons_self ..)) (hlen bits (List.mem_cons_self ..))
    obtain ⟨w, hw, hwlen, hwbit⟩ := ih (fun c hc => hne c (List.mem_cons_of_mem _ hc))
      (fun c hc => hlen c (List.mem_cons_of_mem _ hc)) (ORBytes v a) ((length_ORBytes _ _).trans hv)
    refine ⟨w, by rw [List.foldl_cons, Matcher.orStep, ha]; exact hw, hwlen, fun j => ?_⟩
    rw [hwbit, bit_ORBytes (hv.trans halen.symm), habit, groupBit, groupBit, List.any_cons,
      Bool.or_assoc]

theorem orVector_spec {bloom : List (List ℕ)} (hne : ∀ bits ∈ bloom, bits ≠ [])
    (hlen : ∀ bits ∈ bloom, ∀ b ∈ bits, (fetch b s).length = n) :
    ((Matcher.orVector n fetch s bloom).getD (List.replicate n 0)).length = n ∧
      ∀ j, bit ((Matcher.orVector n fetch s bloom).getD (List.replicate n 0)) j =
        groupBit fetch s bloom j := by
  cases bloom with
  | nil => exact ⟨List.length_replicate, fun j => bit_replicate_zero n j⟩
  | cons bits bloom =>
    obtain ⟨a, ha, halen, habit⟩ :=
      andVector_spec (hne bits (List.mem_cons_self ..)) (hlen bits (List.mem_cons_self ..))
    obtain ⟨w, hw, hwlen, hwbit⟩ := foldl_orStep (fun c hc => hne c (List.mem_cons_of_mem _ hc))
      (fun c hc => hlen c (List.mem_cons_of_mem _ hc)) a halen
    have hor : Matcher.orVector n fetch s (bits :: bloom) = some w := by
      rw [Matcher.orVector, List.foldl_cons, Matcher.orStep, ha]
      exact hw
    refine ⟨by rw [hor, Option.getD_some, hwlen], fun j => ?_⟩
    rw [hor, Option.getD_some, hwbit, habit, groupBit, groupBit, List.any_cons]

end Stages

/-- One stage: the section's vector ANDed with the group's `orVector`, passed on if a bit is
left. -/
theorem subMatch_spec (m : Matcher) {fetch : ℕ → UInt64 → List UInt8} {bloom : List (List ℕ)}
    {subres : PartialMatches} (hne : ∀ bits ∈ bloom, bits ≠ [])
    (hlen : ∀ bits ∈ bloom, ∀ b ∈ bits,
      (fetch b subres.sectionIndex).length = (m.sectionSize / 8).toNat)
    (hsub : subres.bitset.length = (m.sectionSize / 8).toNat) :
    ∃ w, w.length = (m.sectionSize / 8).toNat ∧
      (∀ j, bit w j = (groupBit fetch subres.sectionIndex bloom j && bit subres.bitset j)) ∧
      m.subMatch fetch bloom subres = if TestBytes w then some ⟨subres.sectionIndex, w⟩ else none := by
  obtain ⟨hlen0, hbit0⟩ := orVector_spec (s := subres.sectionIndex) hne hlen
  refine ⟨_, (length_ANDBytes _ _).trans hlen0, fun j => ?_, rfl⟩
  rw [bit_ANDBytes (hlen0.trans hsub.symm), hbit0]

/-- The chain of stages: the section's vector ANDed with every group's `orVector`; if a stage
drops the section, that AND has no bit set. -/
theorem foldlM_subMatch (m : Matcher) (fetch : ℕ → UInt64 → List UInt8) :
    ∀ (fs : List (List (List ℕ))) (subres : PartialMatches),
      (∀ bloom ∈ fs, ∀ bits ∈ bloom, bits ≠ []) →
      (∀ bloom ∈ fs, ∀ bits ∈ bloom, ∀ b ∈ bits,
        (fetch b subres.sectionIndex).length = (m.sectionSize / 8).toNat) →
      subres.bitset.length = (m.sectionSize / 8).toNat →
      ∃ w, w.length = (m.sectionSize / 8).toNat ∧
        (∀ j, bit w j = (fs.all (fun bloom => groupBit fetch subres.sectionIndex bloom j) &&
          bit subres.bitset j)) ∧
        (fs.foldlM (fun subres bloom => m.subMatch fetch bloom subres) subres =
            some ⟨subres.sectionIndex, w⟩ ∨
          (fs.foldlM (fun subres bloom => m.subMatch fetch bloom subres) subres = none ∧
            ∀ j, bit w j = false))
  | [], subres, _, _, hsub => ⟨subres.bitset, hsub, fun j => by simp, .inl rfl⟩
  | bloom :: fs, subres, hne, hlen, hsub => by
    obtain ⟨w₁, hlen₁, hbit₁, hstage⟩ := subMatch_spec m (hne bloom (List.mem_cons_self ..))
      (hlen bloom (List.mem_cons_self ..)) hsub
    rw [List.foldlM_cons, hstage]
    by_cases htest : TestBytes w₁ = true
    · rw [if_pos htest]
      obtain ⟨w, hwlen, hbit, hout⟩ := foldlM_subMatch m fetch fs ⟨subres.sectionIndex, w₁⟩
        (fun b hb => hne b (List.mem_cons_of_mem _ hb)) (fun b hb => hlen b (List.mem_cons_of_mem _ hb))
        hlen₁
      refine ⟨w, hwlen, fun j => ?_, hout⟩
      rw [hbit, hbit₁, List.all_cons]
      cases groupBit fetch subres.sectionIndex bloom j <;> simp
    · rw [if_neg htest]
      have hclear := bit_of_TestBytes_eq_false (Bool.eq_false_iff.mpr htest)
      refine ⟨w₁, hlen₁, fun j => ?_, .inr ⟨rfl, hclear⟩⟩
      have := hbit₁ j
      rw [hclear j] at this ⊢
      rw [List.all_cons]
      cases hg : groupBit fetch subres.sectionIndex bloom j
      · simp
      · rw [hg, Bool.true_and] at this
        rw [← this, Bool.and_false]

/-! ## The filter -/

section Filter

variable (K : Hash256)

/-- Header `n` passes the filter: every group that is neither empty nor holds a `nil` clause has a
clause that `BloomLookup` finds in the header's bloom. -/
def Passes (blooms : ℕ → Bloom) (filters : List (List (Option (List UInt8)))) (n : ℕ) : Bool :=
  filters.all fun group => group.isEmpty || group.any Option.isNone ||
    group.any fun clause => clause.any (BloomLookup K (blooms n))

theorem length_calcBloomIndexes (c : List UInt8) : (calcBloomIndexes K c).length = 3 := by
  simp [calcBloomIndexes]

theorem all_bloomBit_eq (bloom : Bloom) (c : List UInt8) :
    (calcBloomIndexes K c).all (bloomBit bloom) = BloomLookup K bloom c := by
  rw [Bool.eq_iff_iff, List.all_eq_true, BloomLookup_iff]

/-- A group as `NewMatcher` converts it: its clauses' bloom bits, or nothing if a clause is
`nil`. -/
theorem mapM_clauses (bloom : Bloom) : ∀ g : List (Option (List UInt8)),
    (∃ bits, g.mapM (fun c => c.map (calcBloomIndexes K)) = some bits ∧ g.any Option.isNone = false ∧
      (∀ b ∈ bits, b ≠ []) ∧
      bits.any (fun b => b.all (bloomBit bloom)) = g.any fun c => c.any (BloomLookup K bloom)) ∨
    (g.mapM (fun c => c.map (calcBloomIndexes K)) = none ∧ g.any Option.isNone = true)
  | [] => .inl ⟨[], rfl, rfl, fun _ h => absurd h List.not_mem_nil, rfl⟩
  | none :: _ => .inr ⟨rfl, rfl⟩
  | some c :: g => by
    rcases mapM_clauses bloom g with ⟨bits, hm, hn, hne, ha⟩ | ⟨hm, hn⟩
    · refine .inl ⟨calcBloomIndexes K c :: bits, by rw [List.mapM_cons, hm]; rfl,
        by simpa using hn, fun b hb => ?_, ?_⟩
      · rcases List.mem_cons.mp hb with rfl | hb
        · exact List.ne_nil_of_length_pos (by rw [length_calcBloomIndexes]; decide)
        · exact hne b hb
      · rw [List.any_cons, List.any_cons, ha, all_bloomBit_eq]
        rfl
    · exact .inr ⟨by rw [List.mapM_cons, hm]; rfl, by simpa using hn⟩

/-- The groups `NewMatcher` keeps say what `Passes` says of the groups given. -/
theorem filters_all (bloom : Bloom) (size : UInt64) : ∀ filters : List (List (Option (List UInt8))),
    ((NewMatcher K size filters).filters.all fun bits => bits.any fun b => b.all (bloomBit bloom)) =
      (filters.all fun group => group.isEmpty || group.any Option.isNone ||
        group.any fun clause => clause.any (BloomLookup K bloom)) ∧
    ∀ bits ∈ (NewMatcher K size filters).filters, ∀ b ∈ bits, b ≠ []
  | [] => ⟨rfl, fun _ h => absurd h List.not_mem_nil⟩
  | [] :: filters => by
    obtain ⟨ih, ihne⟩ := filters_all bloom size filters
    simp only [NewMatcher] at ih ihne ⊢
    rw [List.filterMap_cons_none (by simp), List.all_cons, ih]
    exact ⟨by simp, ihne⟩
  | (c :: g) :: filters => by
    obtain ⟨ih, ihne⟩ := filters_all bloom size filters
    simp only [NewMatcher] at ih ihne ⊢
    rcases mapM_clauses K bloom (c :: g) with ⟨bits, hm, hn, hne, ha⟩ | ⟨hm, hn⟩
    · rw [List.filterMap_cons_some (by simpa using hm), List.all_cons, List.all_cons, ih, ha, hn]
      refine ⟨by simp, fun b hb => ?_⟩
      rcases List.mem_cons.mp hb with rfl | hb
      · exact hne
      · exact ihne b hb
    · rw [List.filterMap_cons_none (by simpa using hm), List.all_cons, ih, hn]
      exact ⟨by simp, ihne⟩

end Filter

/-! ## A session -/

theorem all_any_all_congr {L : List (List (List ℕ))} {f g : ℕ → Bool}
    (h : ∀ bloom ∈ L, ∀ bits ∈ bloom, ∀ b ∈ bits, f b = g b) :
    (L.all fun bloom => bloom.any fun bits => bits.all f) =
      L.all fun bloom => bloom.any fun bits => bits.all g := by
  rw [Bool.eq_iff_iff]
  simp only [List.all_eq_true, List.any_eq_true]
  constructor
  · intro H bloom hbloom
    obtain ⟨bits, hbits, hall⟩ := H bloom hbloom
    exact ⟨bits, hbits, fun b hb => h bloom hbloom bits hbits b hb ▸ hall b hb⟩
  · intro H bloom hbloom
    obtain ⟨bits, hbits, hall⟩ := H bloom hbloom
    exact ⟨bits, hbits, fun b hb => (h bloom hbloom bits hbits b hb).symm ▸ hall b hb⟩

/-- A section through the chain, when the retrievals are answered with the generator's
vectors: bit `j` of what leaves it is whether block `j` of the section passes the filter. -/
theorem chain_section (K : Hash256) (blooms : ℕ → Bloom) (filters : List (List (Option (List UInt8))))
    {size : UInt64} {fetch : ℕ → UInt64 → List UInt8} (h8 : size.toNat % 8 = 0)
    (hfetch : ∀ (s : UInt64), ∀ bloom ∈ (NewMatcher K size filters).filters, ∀ bits ∈ bloom,
      ∀ b ∈ bits, sectionBitset blooms size.toNat s.toNat b = .ok (fetch b s))
    (s : UInt64) :
    ∃ w, w.length = size.toNat / 8 ∧
      (∀ j < size.toNat, bit w j = Passes K blooms filters (s.toNat * size.toNat + j)) ∧
      ((NewMatcher K size filters).chain fetch ⟨s, List.replicate (size / 8).toNat 0xff⟩ = some ⟨s, w⟩ ∨
        ((NewMatcher K size filters).chain fetch ⟨s, List.replicate (size / 8).toNat 0xff⟩ = none ∧
          ∀ j, bit w j = false)) := by
  have hn : (size / 8).toNat = size.toNat / 8 := UInt64.toNat_div _ _
  have hspec := fun bloom hbloom bits hbits b hb =>
    sectionBitset_spec blooms h8 (hfetch s bloom hbloom bits hbits b hb)
  obtain ⟨w, hlen, hbit, hout⟩ := foldlM_subMatch (NewMatcher K size filters) fetch
    (NewMatcher K size filters).filters ⟨s, List.replicate (size / 8).toNat 0xff⟩
    (filters_all K (blooms 0) size filters).2
    (fun bloom hbloom bits hbits b hb => by rw [hn]; exact (hspec bloom hbloom bits hbits b hb).1)
    List.length_replicate
  refine ⟨w, hlen.trans hn, fun j hj => ?_, hout⟩
  rw [hbit, bit_replicate_ff (by rw [hn]; omega), Bool.and_true, Passes,
    ← (filters_all K (blooms (s.toNat * size.toNat + j)) size filters).1]
  exact all_any_all_congr fun bloom hbloom bits hbits b hb =>
    (hspec bloom hbloom bits hbits b hb).2 j hj

/-- What the sink sends, section by section: nothing for a section the chain drops. -/
theorem mapM_filterMap_flatten {α β γ ε : Type} (f : α → Option β) (g : β → Except ε (List γ))
    (out : α → List γ) : ∀ l : List α, (∀ a ∈ l, (f a).elim (.ok []) g = .ok (out a)) →
      List.flatten <$> (l.filterMap f).mapM g = .ok (l.flatMap out)
  | [], _ => rfl
  | a :: l, h => by
    have ih := mapM_filterMap_flatten f g out l fun b hb => h b (List.mem_cons_of_mem _ hb)
    have ha := h a (List.mem_cons_self ..)
    rw [List.flatMap_cons]
    cases hfa : f a with
    | none =>
      have hout : [] = out a := Except.ok.inj (by simpa only [hfa, Option.elim] using ha)
      rw [List.filterMap_cons_none hfa, ← hout, List.nil_append]
      exact ih
    | some b =>
      have hgb : g b = .ok (out a) := by simpa only [hfa, Option.elim] using ha
      rw [List.filterMap_cons_some hfa, List.mapM_cons, hgb]
      rcases hr : (l.filterMap f).mapM g with e | xs
      · rw [hr] at ih
        cases ih
      · rw [hr] at ih
        have hxs : xs.flatten = l.flatMap out := Except.ok.inj ih
        rw [← hxs]
        rfl

/-- The sections from `begin`'s to `end`'s, each cut to `[begin, end]`, make up the range. -/
theorem flatMap_sections (p : ℕ → Bool) {size : ℕ} (hsize : 0 < size) (begin end_ : ℕ) :
    (List.range' (begin / size) (end_ / size + 1 - begin / size)).flatMap
        (fun s => blocks p (max begin (s * size)) (min end_ (s * size + size - 1))) =
      blocks p begin end_ := by
  have key : ∀ k s, s + k = end_ / size + 1 →
      (List.range' s k).flatMap (fun s => blocks p (max begin (s * size)) (min end_ (s * size + size - 1))) =
        blocks p (max begin (s * size)) end_ := by
    intro k
    induction k with
    | zero =>
      intro s hs
      have hlt : end_ < s * size :=
        lt_of_not_ge fun h => absurd ((Nat.le_div_iff_mul_le hsize).mpr h) (by omega)
      rw [List.range'_zero, List.flatMap_nil, blocks_of_lt (by omega)]
    | succ k ih =>
      intro s hs
      have hle : s * size ≤ end_ := (Nat.le_div_iff_mul_le hsize).mp (by omega)
      have hsucc : (s + 1) * size = s * size + size := Nat.succ_mul s size
      rw [List.range'_succ, List.flatMap_cons, ih (s + 1) (by omega)]
      by_cases hlast : end_ ≤ s * size + size - 1
      · have hnil : blocks p (max begin ((s + 1) * size)) end_ = [] := blocks_of_lt (by omega)
        rw [min_eq_left hlast, hnil, List.append_nil]
      · rw [min_eq_right (by omega), blocks_split p (a := max begin (s * size))
          (b := s * size + size - 1) (c := end_) (by omega)]
        congr 2
        omega
  by_cases hbe : begin / size ≤ end_ / size + 1
  · rw [key _ _ (by omega), max_eq_left (Nat.div_mul_le_self begin size)]
  · have hgt : end_ < begin := by
      by_contra h
      exact hbe (by have := Nat.div_le_div_right (c := size) (not_lt.mp h); omega)
    rw [show end_ / size + 1 - begin / size = 0 by omega, List.range'_zero, List.flatMap_nil,
      blocks_of_lt hgt]

/-- A session sends, in order and each once, the blocks of `[begin, end]` whose bloom passes the
filter, when every retrieval is answered with the section generator's vector, the section size is
a positive multiple of 8, and `end + sectionSize < 2 ^ 64`. -/
theorem Start_eq_matches (K : Hash256) (blooms : ℕ → Bloom)
    (filters : List (List (Option (List UInt8)))) (size begin end_ : UInt64)
    (fetch : ℕ → UInt64 → List UInt8) (hsize : 0 < size.toNat) (h8 : size.toNat % 8 = 0)
    (hend : end_.toNat + size.toNat < 2 ^ 64)
    (hfetch : ∀ (s : UInt64), ∀ bloom ∈ (NewMatcher K size filters).filters, ∀ bits ∈ bloom,
      ∀ b ∈ bits, sectionBitset blooms size.toNat s.toNat b = .ok (fetch b s)) :
    (NewMatcher K size filters).Start fetch begin end_ =
      .ok (((List.range' begin.toNat (end_.toNat + 1 - begin.toNat)).filter
        (Passes K blooms filters)).map Nat.toUInt64) := by
  have hne : size ≠ 0 := fun h => by
    rw [h] at hsize
    exact absurd hsize (by decide)
  have hdiv : ∀ x : UInt64, (x / size).toNat = x.toNat / size.toNat := fun x => UInt64.toNat_div _ _
  have hm : (NewMatcher K size filters).sectionSize = size := rfl
  rw [Matcher.Start, hm, if_neg hne, Matcher.run, Matcher.source, hm, List.filterMap_map,
    mapM_filterMap_flatten _ _ (fun s => (blocks (Passes K blooms filters) (max begin.toNat (s * size.toNat))
      (min end_.toNat (s * size.toNat + size.toNat - 1))).map Nat.toUInt64), ← List.map_flatMap,
    hdiv, hdiv, flatMap_sections _ hsize]
  · rfl
  intro s hs
  rw [hdiv, hdiv, List.mem_range'_1] at hs
  have hs_le : s * size.toNat ≤ end_.toNat := (Nat.le_div_iff_mul_le hsize).mp (by omega)
  have hs64 : s.toUInt64.toNat = s := by
    have : s ≤ end_.toNat := le_trans (Nat.le_mul_of_pos_right s hsize) hs_le
    have := end_.toNat_lt
    simp only [Nat.toUInt64_eq, UInt64.toNat_ofNat']
    omega
  obtain ⟨w, hlen, hbit, hout⟩ := chain_section K blooms filters h8 hfetch s.toUInt64
  rw [hs64] at hbit
  rcases hout with hsome | ⟨hnone, hclear⟩
  · simp only [Function.comp, hsome, Option.elim]
    rw [sendSection_eq _ hsize h8 hend (by rw [hs64]; exact hs_le) hlen (by rw [hs64]; exact hbit), hs64]
    rfl
  · simp only [Function.comp, hnone, Option.elim]
    rw [blocks_eq_nil fun x h1 h2 => ?_, List.map_nil]
    have hx := hbit (x - s * size.toNat) (by omega)
    rw [hclear, Nat.add_sub_cancel' (by omega)] at hx
    exact hx.symm

/-- A bloom with only bloom bit `0` set, the bit every key sets under the zero hash. -/
def sampleBloom : Bloom :=
  ⟨List.replicate 255 0 ++ [1], by rw [List.length_append, List.length_replicate]; rfl⟩

theorem Start_eq_matches_sample :
    0 < (8 : UInt64).toNat ∧
      (NewMatcher Hash256.zero 8 [[some []]]).Start
          (fun b s => (sectionBitset (fun _ => sampleBloom) (8 : UInt64).toNat s.toNat b).toOption.getD [])
          3 5 =
        .ok (((List.range' (3 : UInt64).toNat ((5 : UInt64).toNat + 1 - (3 : UInt64).toNat)).filter
          (Passes Hash256.zero (fun _ => sampleBloom) [[some []]])).map Nat.toUInt64) :=
  ⟨by decide, Start_eq_matches Hash256.zero (fun _ => sampleBloom) [[some []]] 8 3 5 _ (by decide)
    (by decide) (by decide) fun s bloom hbloom bits hbits b hb => by
      have hfilters : (NewMatcher Hash256.zero 8 [[some []]]).filters = [[[0, 0, 0]]] := rfl
      rw [hfilters, List.mem_singleton] at hbloom
      subst hbloom
      rw [List.mem_singleton] at hbits
      subst hbits
      have hb0 : b = 0 := by simpa using hb
      subst hb0
      obtain ⟨v, hv⟩ := sectionBitset_ok (fun _ => sampleBloom) (s := s.toNat)
        (show (8 : UInt64).toNat % 8 = 0 by decide) (show 0 < (8 : UInt64).toNat by decide) (by decide)
      show _ = Except.ok ((sectionBitset (fun _ => sampleBloom) (8 : UInt64).toNat s.toNat 0).toOption.getD [])
      rw [hv]
      rfl⟩

set_option maxRecDepth 20000 in
/-- Without the conditions the session panics: a section size of `0` divides by zero, and a range
ending at `2 ^ 64 - 1` makes the result loop wrap past the last block and read beyond the section's
vector. -/
theorem Start_panics :
    (NewMatcher Hash256.zero 0 []).Start (fun _ _ => []) 0 0 = .error "integer divide by zero" ∧
      (NewMatcher Hash256.zero 8 []).Start (fun _ _ => []) (2 ^ 64 - 8) (2 ^ 64 - 1) =
        .error "index out of range" :=
  ⟨by decide, by decide⟩

end GoXdn.Bloombits
