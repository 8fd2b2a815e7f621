import Mathlib
import GoXdn.Vm.Instructions
import GoXdn.Lib.Bitutil

/-!
# The jump-destination analysis is exact

`codeBitmap` marks the immediate bytes of every `PUSHn` of the code's linear decoding, eight at a
time with `set8` and then one at a time with `set`, and never indexes past its buffer: the four
spare bytes hold what a `PUSH32` at the end of the code marks (`codeBitmapLoop_spec`). So below the
code's length `codeSegment` holds exactly at the instruction starts (`mem_startsFrom_iff`), and
`destinations.has` accepts exactly the `JUMPDEST` bytes at instruction starts, below `2 ^ 62`
(`jumpdestHas_eq`); code is shorter than that, so the bound refuses no byte of it.
-/

namespace GoXdn.Vm

open Bitutil

/-! ### The linear decoding -/

/-- The immediate bytes of an opcode: `n` for `PUSHn`, none for the others. -/
def immediateSize (op : UInt8) : ℕ := if 0x60 ≤ op ∧ op ≤ 0x7f then (op - 0x5f).toNat else 0

/-- The instruction starts of the linear decoding from `pc`, in `fuel` instructions at most. -/
def startsFrom (code : List UInt8) : ℕ → ℕ → List ℕ
  | 0, _ => []
  | fuel + 1, pc =>
    if pc < code.length then pc :: startsFrom code fuel (pc + 1 + immediateSize (code.getD pc 0))
    else []

/-- The instruction starts of the code: an instruction takes one byte at least, so
`len(code) + 1` instructions reach its end. -/
def instrStarts (code : List UInt8) : List ℕ := startsFrom code (code.length + 1) 0

/-- Position `q` is an immediate byte of an instruction the decoding from `pc` reads. -/
def immediateFrom (code : List UInt8) (fuel pc q : ℕ) : Bool :=
  (startsFrom code fuel pc).any fun s => decide (s < q ∧ q ≤ s + immediateSize (code.getD s 0))

section Decoding

variable {code : List UInt8}

theorem le_of_mem_startsFrom : ∀ {fuel pc s : ℕ}, s ∈ startsFrom code fuel pc → pc ≤ s
  | 0, _, _, h => absurd h List.not_mem_nil
  | fuel + 1, pc, s, h => by
    rw [startsFrom] at h
    split at h
    · rcases List.mem_cons.mp h with rfl | h
      · exact le_rfl
      · have := le_of_mem_startsFrom h
        omega
    · exact absurd h List.not_mem_nil

theorem immediateFrom_succ {fuel pc : ℕ} (hpc : pc < code.length) (q : ℕ) :
    immediateFrom code (fuel + 1) pc q =
      (decide (pc < q ∧ q ≤ pc + immediateSize (code.getD pc 0)) ||
        immediateFrom code fuel (pc + 1 + immediateSize (code.getD pc 0)) q) := by
  rw [immediateFrom, startsFrom, if_pos hpc, List.any_cons, immediateFrom]

theorem immediateFrom_of_le {fuel pc : ℕ} (hpc : code.length ≤ pc) (q : ℕ) :
    immediateFrom code fuel pc q = false := by
  cases fuel with
  | zero => rfl
  | succ fuel => rw [immediateFrom, startsFrom, if_neg (by omega), List.any_nil]

/-- No decoding from `pc` reads a position before `pc + 1` as an immediate byte. -/
theorem immediateFrom_eq_false_of_le {fuel pc q : ℕ} (hq : q ≤ pc) :
    immediateFrom code fuel pc q = false := by
  rw [immediateFrom, List.any_eq_false]
  intro s hs
  have := le_of_mem_startsFrom hs
  simp only [decide_eq_true_eq, not_and, not_le]
  omega

/-- Below the code's end a position the decoding reaches is an instruction start or an immediate
byte, and not both. -/
theorem mem_startsFrom_iff {p : ℕ} (hp : p < code.length) :
    ∀ {fuel pc : ℕ}, pc ≤ p → code.length ≤ pc + fuel →
      (p ∈ startsFrom code fuel pc ↔ immediateFrom code fuel pc p = false)
  | 0, pc, hpc, hfuel => absurd hfuel (by omega)
  | fuel + 1, pc, hpc, hfuel => by
    have hlt : pc < code.length := by omega
    rw [immediateFrom_succ hlt, startsFrom, if_pos hlt, List.mem_cons, Bool.or_eq_false_iff,
      decide_eq_false_iff_not]
    set next := pc + 1 + immediateSize (code.getD pc 0)
    by_cases hp0 : p = pc
    · subst hp0
      simp only [true_or, lt_irrefl, false_and, not_false_eq_true, true_and, true_iff]
      exact immediateFrom_eq_false_of_le (by omega)
    by_cases hin : p ≤ pc + immediateSize (code.getD pc 0)
    · have hnot : p ∉ startsFrom code fuel next := fun h => absurd (le_of_mem_startsFrom h) (by omega)
      constructor
      · rintro (h | h)
        · exact absurd h hp0
        · exact absurd h hnot
      · rintro ⟨h, -⟩
        exact absurd ⟨by omega, hin⟩ h
    · simp only [hp0, false_or, hin, and_false, not_false_eq_true, true_and]
      exact mem_startsFrom_iff hp (by omega) (by omega)

end Decoding

/-! ### Marking bits -/

theorem bitvecSet_spec {bits : List UInt8} {pos : ℕ} (h : pos / 8 < bits.length) :
    ∃ bits', bitvecSet bits pos = some bits' ∧ bits'.length = bits.length ∧
      ∀ q, bit bits' q = (bit bits q || decide (q = pos)) := by
  have hmask : ∀ s t : Fin 8,
      ((0x80 : UInt8) >>> UInt8.ofNat s).toNat.testBit (7 - t) = decide ((t : ℕ) = s) := by
    decide
  refine ⟨_, if_pos h, List.length_modify .., fun q => ?_⟩
  rw [bit_modify_or_mask h, hmask ⟨pos % 8, by omega⟩ ⟨q % 8, by omega⟩]
  simp only [← Bool.decide_and]
  exact congrArg _ (decide_eq_decide.mpr (by omega))

theorem bitvecSet8_spec {bits : List UInt8} {pos : ℕ} (h : pos / 8 + 1 < bits.length) :
    ∃ bits', bitvecSet8 bits pos = some bits' ∧ bits'.length = bits.length ∧
      ∀ q, bit bits' q = (bit bits q || decide (pos ≤ q ∧ q < pos + 8)) := by
  have hlow : ∀ s t : Fin 8,
      ((0xFF : UInt8) >>> UInt8.ofNat s).toNat.testBit (7 - t) = decide ((s : ℕ) ≤ t) := by
    decide
  have hhigh : ∀ s t : Fin 8,
      (~~~((0xFF : UInt8) >>> UInt8.ofNat s)).toNat.testBit (7 - t) = decide ((t : ℕ) < s) := by
    decide
  refine ⟨_, if_pos h, by simp only [List.length_modify], fun q => ?_⟩
  rw [bit_modify_or_mask (by rw [List.length_modify]; exact h),
    bit_modify_or_mask (by omega), hlow ⟨pos % 8, by omega⟩ ⟨q % 8, by omega⟩,
    hhigh ⟨pos % 8, by omega⟩ ⟨q % 8, by omega⟩]
  simp only [← Bool.decide_and, Bool.or_assoc, ← Bool.decide_or]
  exact congrArg _ (decide_eq_decide.mpr (by omega))

/-- The `set8` loop of a `PUSHn`: `m` calls mark the `8 * m` positions from `p`. -/
theorem foldlM_set8_spec (p : ℕ) :
    ∀ (m : ℕ) (bits : List UInt8), (p + 8 * m) / 8 < bits.length →
      ∃ bits', (List.range m).foldlM (fun b i => bitvecSet8 b (p + 8 * i)) bits = some bits' ∧
        bits'.length = bits.length ∧ ∀ q, bit bits' q = (bit bits q || decide (p ≤ q ∧ q < p + 8 * m))
  | 0, bits, _ => ⟨bits, rfl, rfl, fun q => by simp⟩
  | m + 1, bits, h => by
    obtain ⟨b₁, h₁, hlen₁, hbit₁⟩ := foldlM_set8_spec p m bits (by omega)
    obtain ⟨b₂, h₂, hlen₂, hbit₂⟩ := @bitvecSet8_spec b₁ (p + 8 * m) (by omega)
    refine ⟨b₂, ?_, hlen₂.trans hlen₁, fun q => ?_⟩
    · rw [List.range_succ, List.foldlM_append, h₁]
      simpa using h₂
    · rw [hbit₂, hbit₁, Bool.or_assoc, ← Bool.decide_or]
      exact congrArg _ (decide_eq_decide.mpr (by omega))

/-- The `set` loop of a `PUSHn`: `r` calls mark the `r` positions from `p`. -/
theorem foldlM_set_spec (p : ℕ) :
    ∀ (r : ℕ) (bits : List UInt8), (p + r) / 8 < bits.length →
      ∃ bits', (List.range r).foldlM (fun b i => bitvecSet b (p + i)) bits = some bits' ∧
        bits'.length = bits.length ∧ ∀ q, bit bits' q = (bit bits q || decide (p ≤ q ∧ q < p + r))
  | 0, bits, _ => ⟨bits, rfl, rfl, fun q => by simp⟩
  | r + 1, bits, h => by
    obtain ⟨b₁, h₁, hlen₁, hbit₁⟩ := foldlM_set_spec p r bits (by omega)
    obtain ⟨b₂, h₂, hlen₂, hbit₂⟩ := @bitvecSet_spec b₁ (p + r) (by omega)
    refine ⟨b₂, ?_, hlen₂.trans hlen₁, fun q => ?_⟩
    · rw [List.range_succ, List.foldlM_append, h₁]
      simpa using h₂
    · rw [hbit₂, hbit₁, Bool.or_assoc, ← Bool.decide_or]
      exact congrArg _ (decide_eq_decide.mpr (by omega))

/-! ### The bitmap -/

theorem immediateSize_of_push {op : UInt8} (h : 0x60 ≤ op ∧ op ≤ 0x7f) :
    immediateSize op = (op - 0x60 + 1).toNat ∧ (op - 0x60 + 1).toNat ≤ 32 := by
  rw [immediateSize, if_pos h]
  obtain ⟨h₁, h₂⟩ := h
  rw [UInt8.le_iff_toNat_le] at h₁ h₂
  simp only [UInt8.reduceToNat] at h₁ h₂
  rw [UInt8.toNat_sub_of_le _ _ (by simp [UInt8.le_iff_toNat_le]; omega), UInt8.toNat_add,
    UInt8.toNat_sub_of_le _ _ (by simp [UInt8.le_iff_toNat_le]; omega)]
  simp only [UInt8.reduceToNat]
  omega

/-- The loop marks, on top of what is marked, the immediate bytes of the decoding from `pc`, and
every byte it writes is inside a buffer of `len(code) / 8 + 5` bytes. -/
theorem codeBitmapLoop_spec (code : List UInt8) :
    ∀ (fuel pc : ℕ) (bits : List UInt8), code.length / 8 + 5 ≤ bits.length →
      ∃ bits', codeBitmapLoop code fuel pc bits = some bits' ∧ bits'.length = bits.length ∧
        ∀ q, bit bits' q = (bit bits q || immediateFrom code fuel pc q)
  | 0, pc, bits, _ => ⟨bits, rfl, rfl, fun q => by simp [immediateFrom, startsFrom]⟩
  | fuel + 1, pc, bits, hlen => by
    by_cases hpc : pc < code.length
    · rw [codeBitmapLoop, if_pos hpc]
      dsimp only
      by_cases hpush : 0x60 ≤ code.getD pc 0 ∧ code.getD pc 0 ≤ 0x7f
      · rw [if_pos hpush]
        obtain ⟨hsize, hle⟩ := immediateSize_of_push hpush
        set n := (code.getD pc 0 - 0x60 + 1).toNat
        obtain ⟨b₁, h₁, hlen₁, hbit₁⟩ := foldlM_set8_spec (pc + 1) (n / 8) bits (by omega)
        obtain ⟨b₂, h₂, hlen₂, hbit₂⟩ :=
          foldlM_set_spec (pc + 1 + 8 * (n / 8)) (n % 8) b₁ (by omega)
        obtain ⟨b₃, h₃, hlen₃, hbit₃⟩ :=
          codeBitmapLoop_spec code fuel (pc + 1 + 8 * (n / 8) + n % 8) b₂ (by omega)
        refine ⟨b₃, ?_, by rw [hlen₃, hlen₂, hlen₁], fun q => ?_⟩
        · simp only [bind, Option.bind, h₁, h₂, h₃]
        · rw [hbit₃, hbit₂, hbit₁, immediateFrom_succ hpc, hsize,
            show pc + 1 + 8 * (n / 8) + n % 8 = pc + 1 + n by omega]
          simp only [Bool.or_assoc, ← Bool.decide_or]
          congr 2
          exact decide_eq_decide.mpr (by omega)
      · rw [if_neg hpush]
        obtain ⟨b₁, h₁, hlen₁, hbit₁⟩ := codeBitmapLoop_spec code fuel (pc + 1) bits hlen
        refine ⟨b₁, h₁, hlen₁, fun q => ?_⟩
        rw [hbit₁, immediateFrom_succ hpc, immediateSize, if_neg hpush, Nat.add_zero]
        congr 1
        rw [decide_eq_false (by omega), Bool.false_or]
    · rw [codeBitmapLoop, if_neg hpc]
      exact ⟨bits, rfl, rfl, fun q => by rw [immediateFrom_of_le (by omega), Bool.or_false]⟩

theorem codeSegment_eq {bits : List UInt8} {pos : ℕ} (h : pos / 8 < bits.length) :
    codeSegment bits pos = some (!bit bits pos) := by
  have htest : ∀ b : UInt8, ∀ s : Fin 8,
      ((b &&& ((0x80 : UInt8) >>> UInt8.ofNat s)) == 0) = !b.toNat.testBit (7 - s) := by
    intro b s
    have hs : (UInt8.ofNat s).toNat % 8 = s := by simp
    have h80 : (0x80 : ℕ) >>> (s : ℕ) = 2 ^ (7 - (s : ℕ)) := by
      rw [Nat.shiftRight_eq_div_pow, show (0x80 : ℕ) = 2 ^ (7 - (s : ℕ)) * 2 ^ (s : ℕ) by
        rw [← pow_add, Nat.sub_add_cancel (by omega)]; rfl]
      simp
    rw [Bool.eq_iff_iff, beq_iff_eq, ← UInt8.toNat_inj, UInt8.toNat_and, UInt8.toNat_shiftRight, hs]
    simp only [UInt8.reduceToNat, h80, Nat.and_two_pow]
    cases b.toNat.testBit (7 - s) <;> simp
  rw [codeSegment, List.getElem?_eq_getElem h, Option.map_some, bit, List.getD_eq_getElem _ _ h]
  exact congrArg some (htest _ ⟨pos % 8, by omega⟩)

theorem codeBitmap_spec (code : List UInt8) :
    ∃ bits, codeBitmap code = some bits ∧ bits.length = code.length / 8 + 5 ∧
      ∀ q, bit bits q = immediateFrom code (code.length + 1) 0 q := by
  obtain ⟨bits, h, hlen, hbit⟩ := codeBitmapLoop_spec code (code.length + 1) 0
    (List.replicate (code.length / 8 + 1 + 4) 0) (by simp)
  refine ⟨bits, h, by rw [hlen, List.length_replicate], fun q => ?_⟩
  rw [hbit, bit_replicate_zero, Bool.false_or]

/-- Below the code's end `codeSegment` of the bitmap holds exactly at the instruction starts. -/
theorem codeSegment_codeBitmap {code bits : List UInt8} (h : codeBitmap code = some bits) {p : ℕ}
    (hp : p < code.length) : codeSegment bits p = some (decide (p ∈ instrStarts code)) := by
  obtain ⟨bits', h', hlen, hbit⟩ := codeBitmap_spec code
  obtain rfl : bits = bits' := Option.some.inj (h.symm.trans h')
  have hiff := mem_startsFrom_iff hp (Nat.zero_le _) (by omega : code.length ≤ 0 + (code.length + 1))
  rw [codeSegment_eq (by omega), hbit, instrStarts]
  by_cases hm : p ∈ startsFrom code (code.length + 1) 0
  · rw [decide_eq_true hm, hiff.mp hm]
    rfl
  · have himm : immediateFrom code (code.length + 1) 0 p = true := by simpa using mt hiff.mpr hm
    rw [decide_eq_false hm, himm]
    rfl

theorem jumpdestHas_eq (code : List UInt8) (dest : ℕ) :
    jumpdestHas code dest = some (decide (dest < 2 ^ 62 ∧ dest < code.length ∧
      code.getD dest 0 = 0x5b ∧ dest ∈ instrStarts code)) := by
  obtain ⟨bits, h, -, -⟩ := codeBitmap_spec code
  unfold jumpdestHas
  by_cases hout : 2 ^ 62 ≤ dest ∨ code.length ≤ dest
  · rw [if_pos hout]
    exact congrArg some (decide_eq_false (by omega)).symm
  · rw [if_neg hout, h]
    simp only [bind, Option.bind]
    by_cases hj : code.getD dest 0 = 0x5b
    · rw [if_pos hj, codeSegment_codeBitmap h (by omega)]
      exact congrArg some (decide_eq_decide.mpr ⟨fun hm => ⟨by omega, by omega, hj, hm⟩, fun h => h.2.2.2⟩)
    · rw [if_neg hj]
      exact congrArg some (decide_eq_false (by tauto)).symm

/-- The analysis behind a jump never panics. -/
theorem jumpdestHas_isSome (code : List UInt8) (dest : ℕ) : ∃ b, jumpdestHas code dest = some b :=
  ⟨_, jumpdestHas_eq code dest⟩

/-- The analysis never indexes past its bitmap, `codeSegment` holds below the code's end exactly at
the instruction starts, and `has` accepts exactly a `JUMPDEST` at an instruction start below
`2 ^ 62`. -/
theorem jumpdest_analysis_exact (code : List UInt8) :
    ∃ bits, codeBitmap code = some bits ∧
      (∀ p < code.length, codeSegment bits p = some (decide (p ∈ instrStarts code))) ∧
      ∀ dest, jumpdestHas code dest = some (decide (dest < 2 ^ 62 ∧ dest < code.length ∧
        code.getD dest 0 = 0x5b ∧ dest ∈ instrStarts code)) := by
  obtain ⟨bits, h, -, -⟩ := codeBitmap_spec code
  exact ⟨bits, h, fun p hp => codeSegment_codeBitmap h hp, jumpdestHas_eq code⟩

/-- For code shorter than `2 ^ 62` bytes, as all code is, the guard of `has` on the destination's
bit length refuses nothing the code holds: `has` accepts exactly a `JUMPDEST` at an instruction
start. -/
theorem jumpdest_analysis_exact_of_short {code : List UInt8} (hlen : code.length < 2 ^ 62) :
    ∃ bits, codeBitmap code = some bits ∧
      (∀ p < code.length, codeSegment bits p = some (decide (p ∈ instrStarts code))) ∧
      ∀ dest, jumpdestHas code dest = some (decide (dest < code.length ∧
        code.getD dest 0 = 0x5b ∧ dest ∈ instrStarts code)) := by
  obtain ⟨bits, h, hseg, hhas⟩ := jumpdest_analysis_exact code
  refine ⟨bits, h, hseg, fun dest => ?_⟩
  have hguard : (dest < 2 ^ 62 ∧ dest < code.length ∧ code.getD dest 0 = 0x5b ∧
      dest ∈ instrStarts code) ↔
      (dest < code.length ∧ code.getD dest 0 = 0x5b ∧ dest ∈ instrStarts code) :=
    ⟨And.right, fun hd => ⟨by omega, hd⟩⟩
  rw [hhas dest, decide_eq_decide.2 hguard]

/-- `PUSH1 0x5b; JUMPDEST`: the first `0x5b` is push data, the second an instruction. -/
theorem jumpdest_analysis_exact_push_data :
    ([0x60, 0x5b, 0x5b] : List UInt8).length < 2 ^ 62 ∧
      ∃ bits, codeBitmap [0x60, 0x5b, 0x5b] = some bits ∧
        (∀ p < 3, codeSegment bits p = some (decide (p ∈ instrStarts [0x60, 0x5b, 0x5b]))) ∧
        ∀ dest, jumpdestHas [0x60, 0x5b, 0x5b] dest = some (decide (dest < 3 ∧
          [0x60, 0x5b, 0x5b].getD dest (0 : UInt8) = 0x5b ∧
          dest ∈ instrStarts [0x60, 0x5b, 0x5b])) :=
  ⟨by decide, jumpdest_analysis_exact_of_short (by decide)⟩

end GoXdn.Vm
