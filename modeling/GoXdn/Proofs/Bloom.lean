import Mathlib
import GoXdn.Bloombits.Generator
import GoXdn.Bloombits.Matcher

/-!
# What the bloom-bits index stores

Bit `i` of a bloom, as `AddBloom` reads it (byte `255 - i/8`, mask `1 << (i%8)`), is bit `i` of
the bloom as a big-endian number (`testBit_Big`). `bloom9` sets exactly the bits
`calcBloomIndexes` computes (`testBit_bloom9`), so `BloomLookup` asks that those three bits be set
(`BloomLookup_iff`).

After the `size` headers of a section, the generator's vector of bloom bit `i` has bit `j` set
exactly when header `j` of the section has bloom bit `i` set (`sectionBitset_spec`). `Bitset`
bounds the bit index by the section count, not by `BloomBitLength`: a generator of fewer than
`BloomBitLength` headers refuses the bloom bits from its size up (`sectionBitset_refuses`).
-/

namespace GoXdn.Bloombits

open GoXdn.Core GoStd Bitutil

/-- Bit `i` of a bloom as `AddBloom` reads it: byte `255 - i/8`, mask `1 << (i%8)`. -/
def bloomBit (bloom : Bloom) (i : ℕ) : Bool :=
  (bloom.bytes.getD (BloomByteLength - 1 - i / 8) 0).toNat.testBit (i % 8)

theorem testBit_beNat : ∀ (b : List UInt8) {i : ℕ}, i < 8 * b.length →
    (beNat b).testBit i = (b.getD (b.length - 1 - i / 8) 0).toNat.testBit (i % 8)
  | [], _, h => absurd h (by simp)
  | x :: b, i, h => by
    have hlt : beNat b < 2 ^ (8 * b.length) := by
      rw [pow_mul]
      exact beNat_lt b
    rw [beNat_cons, show (256 : ℕ) ^ b.length = 2 ^ (8 * b.length) by rw [pow_mul]; rfl,
      mul_comm, Nat.testBit_two_pow_mul_add _ hlt]
    rw [List.length_cons] at h ⊢
    split_ifs with hi
    · rw [testBit_beNat b hi, show b.length + 1 - 1 - i / 8 = (b.length - 1 - i / 8) + 1 by omega,
        List.getD_cons_succ]
    · rw [show b.length + 1 - 1 - i / 8 = 0 by omega, List.getD_cons_zero]
      congr 1
      omega

theorem testBit_Big (bloom : Bloom) {i : ℕ} (hi : i < BloomBitLength) :
    bloom.Big.testBit i = bloomBit bloom i := by
  rw [Bloom.Big, testBit_beNat _ (by rw [bloom.length_bytes]; exact hi), bloom.length_bytes, bloomBit]

section Lookup

variable (K : Hash256)

/-- `bloom9` and `calcBloomIndexes` read a byte pair the same way: the high byte's low three
bits above the low byte. -/
theorem bloomIndex_eq (hi lo : ℕ) (hlo : lo < 256) :
    (lo + (hi <<< 8)) &&& 2047 = ((hi <<< 8) &&& 2047) + lo := by
  rw [show (2047 : ℕ) = 2 ^ 11 - 1 from rfl, Nat.and_two_pow_sub_one_eq_mod,
    Nat.and_two_pow_sub_one_eq_mod, Nat.shiftLeft_eq]
  omega

theorem calcBloomIndexes_lt (c : List UInt8) : ∀ i ∈ calcBloomIndexes K c, i < BloomBitLength := by
  intro i hi
  simp only [calcBloomIndexes, List.mem_map, List.mem_range] at hi
  obtain ⟨k, -, rfl⟩ := hi
  have hlo := (((K.sum c).getD (2 * k + 1) 0)).toNat_lt
  rw [show (2047 : ℕ) = 2 ^ 11 - 1 from rfl, Nat.and_two_pow_sub_one_eq_mod, Nat.shiftLeft_eq,
    BloomBitLength, BloomByteLength]
  omega

theorem calcBloomIndexes_eq (c : List UInt8) :
    calcBloomIndexes K c =
      [(((K.sum c).getD 0 0).toNat <<< 8 &&& 2047) + ((K.sum c).getD 1 0).toNat,
        (((K.sum c).getD 2 0).toNat <<< 8 &&& 2047) + ((K.sum c).getD 3 0).toNat,
        (((K.sum c).getD 4 0).toNat <<< 8 &&& 2047) + ((K.sum c).getD 5 0).toNat] := rfl

theorem testBit_bloom9 (c : List UInt8) (i : ℕ) :
    (bloom9 K c).testBit i = decide (i ∈ calcBloomIndexes K c) := by
  have h : ∀ k, ((K.sum c).getD k 0).toNat < 256 := fun k => ((K.sum c).getD k 0).toNat_lt
  rw [calcBloomIndexes_eq]
  simp only [bloom9, List.foldl_cons, List.foldl_nil, bloomIndex_eq _ _ (h _), Nat.testBit_or,
    Nat.one_shiftLeft, Nat.testBit_two_pow, Nat.zero_testBit, Bool.false_or, Nat.zero_add,
    Nat.reduceAdd]
  rw [Bool.eq_iff_iff]
  simp only [Bool.or_eq_true, decide_eq_true_eq, List.mem_cons, List.not_mem_nil, or_false]
  constructor <;> intro h <;> omega

/-- `BloomLookup` finds a key when the three bloom bits of the key are all set. -/
theorem BloomLookup_iff (bloom : Bloom) (c : List UInt8) :
    BloomLookup K bloom c = true ↔ ∀ i ∈ calcBloomIndexes K c, bloomBit bloom i = true := by
  rw [BloomLookup, beq_iff_eq]
  constructor
  · intro h i hi
    have hbit := congrArg (fun x => x.testBit i) h
    simp only [Nat.testBit_and, testBit_bloom9, hi, decide_true, Bool.and_true] at hbit
    rwa [testBit_Big bloom (calcBloomIndexes_lt K c i hi)] at hbit
  · intro h
    apply Nat.eq_of_testBit_eq
    intro i
    rw [Nat.testBit_and, testBit_bloom9]
    by_cases hi : i ∈ calcBloomIndexes K c
    · rw [testBit_Big bloom (calcBloomIndexes_lt K c i hi), h i hi, Bool.true_and]
    · simp [hi]

end Lookup

namespace Generator

/-- The generator after the section's first headers `bs`: a vector of `size / 8` bytes for every
bloom bit, whose bit `j` is that bloom bit of header `j` while `j` is among the headers in, and
clear after. -/
structure Holds (g : Generator) (size : ℕ) (bs : List Bloom) : Prop where
  sections : g.sections = size
  nextBit : g.nextBit = bs.length
  length_blooms : g.blooms.length = BloomBitLength
  length_vec : ∀ v ∈ g.blooms, v.length = size / 8
  bit_vec : ∀ (i : ℕ) (hi : i < g.blooms.length) (j : ℕ), bit g.blooms[i] j = bs[j]?.any (bloomBit · i)

theorem newGenerator_holds {size : ℕ} (h8 : size % 8 = 0) :
    ∃ g, NewGenerator size = .ok g ∧ g.Holds size [] := by
  refine ⟨_, if_neg (not_not.mpr h8), ⟨rfl, rfl, List.length_replicate, ?_, ?_⟩⟩
  · intro v hv
    rw [List.eq_of_mem_replicate hv, List.length_replicate]
  · intro i hi j
    rw [List.getElem_replicate, bit_replicate_zero]
    rfl

variable {g : Generator} {size : ℕ} {bs : List Bloom}

/-- The test `AddBloom` makes on the bloom reads `bloomBit`. -/
theorem addBloom_test (bloom : Bloom) (i : ℕ) :
    (bloom.bytes.getD (BloomByteLength - 1 - i / 8) 0 &&& (1 <<< (i % 8).toUInt8) ≠ 0) ↔
      bloomBit bloom i = true :=
  and_shiftLeft_ne_zero _ (Nat.mod_lt i (by decide))

theorem Holds.addBloom (h : g.Holds size bs) (h8 : size % 8 = 0) (hlt : bs.length < size)
    (bloom : Bloom) : ∃ g', g.AddBloom bs.length bloom = .ok g' ∧ g'.Holds size (bs ++ [bloom]) := by
  have hbyte : ∀ v ∈ g.blooms, g.nextBit / 8 < v.length := fun v hv => by
    rw [h.length_vec v hv, h.nextBit]
    omega
  unfold AddBloom
  rw [if_neg (by rw [h.nextBit, h.sections]; omega), if_neg (by rw [h.nextBit]; exact not_not.mpr rfl)]
  refine ⟨_, rfl, ⟨h.sections, by simp [h.nextBit], by simp [h.length_blooms], ?_, ?_⟩⟩
  · intro v hv
    obtain ⟨i, hi, rfl⟩ := List.getElem_of_mem hv
    simp only [List.getElem_mapIdx]
    split_ifs
    · rw [List.length_modify, h.length_vec _ (List.getElem_mem _)]
    · exact h.length_vec _ (List.getElem_mem _)
  · intro i hi j
    have hi' : i < g.blooms.length := by simpa using hi
    simp only [List.getElem_mapIdx]
    have hnew : (bs ++ [bloom])[j]?.any (bloomBit · i) =
        (bs[j]?.any (bloomBit · i) || (decide (j = bs.length) && bloomBit bloom i)) := by
      rcases lt_trichotomy j bs.length with hj | rfl | hj
      · simp [List.getElem?_append_left hj, hj.ne]
      · simp
      · simp [List.getElem?_eq_none (by simpa using hj : (bs ++ [bloom]).length ≤ j),
          List.getElem?_eq_none hj.le, hj.ne']
    rw [hnew, ← h.bit_vec i hi' j]
    split_ifs with htest
    · rw [bit_modify_or (hbyte _ (List.getElem_mem _))]
      simp only [h.nextBit, (addBloom_test bloom i).mp htest, Bool.and_true]
    · rw [Bool.eq_false_iff.mpr (mt (addBloom_test bloom i).mpr htest), Bool.and_false, Bool.or_false]

theorem Holds.addBlooms (h8 : size % 8 = 0) :
    ∀ (rest bs : List Bloom) (g : Generator), g.Holds size bs → bs.length + rest.length ≤ size →
      ∃ g', g.addBlooms bs.length rest = .ok g' ∧ g'.Holds size (bs ++ rest)
  | [], bs, g, h, _ => ⟨g, rfl, by rwa [List.append_nil]⟩
  | bloom :: rest, bs, g, h, hle => by
    rw [List.length_cons] at hle
    obtain ⟨g₁, hadd, h₁⟩ := h.addBloom h8 (by omega) bloom
    obtain ⟨g', hrun, h'⟩ := Holds.addBlooms h8 rest (bs ++ [bloom]) g₁ h₁
      (by rw [List.length_append, List.length_singleton]; omega)
    refine ⟨g', ?_, by simpa using h'⟩
    rw [List.length_append, List.length_singleton] at hrun
    rw [Generator.addBlooms, hadd]
    exact hrun

end Generator

theorem length_sectionBlooms (blooms : ℕ → Bloom) (size s : ℕ) :
    (sectionBlooms blooms size s).length = size := by
  rw [sectionBlooms, List.length_map, List.length_range]

/-- The generator of a section, once its `size` headers are in. -/
theorem sectionGenerator (blooms : ℕ → Bloom) {size : ℕ} (h8 : size % 8 = 0) (s : ℕ) :
    ∃ g₀ g, NewGenerator size = .ok g₀ ∧ g₀.addBlooms 0 (sectionBlooms blooms size s) = .ok g ∧
      g.Holds size (sectionBlooms blooms size s) := by
  obtain ⟨g₀, hnew, h₀⟩ := Generator.newGenerator_holds h8
  obtain ⟨g, hrun, hg⟩ := h₀.addBlooms h8 (sectionBlooms blooms size s) [] g₀
    (by simp [sectionBlooms])
  exact ⟨g₀, g, hnew, hrun, by simpa using hg⟩

/-- A vector the generator gives for a section: `size / 8` bytes, bit `j` the bloom bit of the
section's `j`-th header. -/
theorem sectionBitset_spec (blooms : ℕ → Bloom) {size s b : ℕ} {v : List UInt8}
    (h8 : size % 8 = 0) (h : sectionBitset blooms size s b = .ok v) :
    v.length = size / 8 ∧ ∀ j < size, bit v j = bloomBit (blooms (s * size + j)) b := by
  obtain ⟨g₀, g, hnew, hrun, hg⟩ := sectionGenerator blooms h8 s
  simp only [sectionBitset, hnew, hrun, bind, Except.bind, Generator.Bitset] at h
  split_ifs at h
  split at h
  · rename_i w hw
    cases h
    obtain ⟨hb, rfl⟩ := List.getElem?_eq_some_iff.mp hw
    refine ⟨hg.length_vec _ (List.getElem_mem _), fun j hj => ?_⟩
    rw [hg.bit_vec b hb j]
    simp [sectionBlooms, hj]
  · cases h

/-- The generator answers every bloom bit below the section count. -/
theorem sectionBitset_ok (blooms : ℕ → Bloom) {size s b : ℕ} (h8 : size % 8 = 0) (hb : b < size)
    (hbl : b < BloomBitLength) : ∃ v, sectionBitset blooms size s b = .ok v := by
  obtain ⟨g₀, g, hnew, hrun, hg⟩ := sectionGenerator blooms h8 s
  have hfull : g.nextBit = g.sections := by
    rw [hg.nextBit, hg.sections, length_sectionBlooms]
  simp only [sectionBitset, hnew, hrun, bind, Except.bind, Generator.Bitset]
  rw [if_neg (not_not.mpr hfull), if_neg (by rw [hg.sections]; omega),
    List.getElem?_eq_getElem (by rw [hg.length_blooms]; exact hbl)]
  exact ⟨_, rfl⟩

/-- `Bitset` bounds the bit index by the section count: a section of fewer than
`BloomBitLength` headers cannot give the vector of bloom bit `size`. -/
theorem sectionBitset_refuses (blooms : ℕ → Bloom) {size : ℕ} (h8 : size % 8 = 0) (s : ℕ) :
    sectionBitset blooms size s size = .error errSectionOutOfBounds := by
  obtain ⟨g₀, g, hnew, hrun, hg⟩ := sectionGenerator blooms h8 s
  have hfull : g.nextBit = g.sections := by
    rw [hg.nextBit, hg.sections, length_sectionBlooms]
  simp only [sectionBitset, hnew, hrun, bind, Except.bind, Generator.Bitset]
  rw [if_neg (not_not.mpr hfull), if_pos (le_of_eq hg.sections)]

end GoXdn.Bloombits
