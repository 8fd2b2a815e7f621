import Mathlib
import GoXdn.Proofs.CallFailure

/-!
# Arithmetic on words

The arithmetic, comparison and bitwise operations of `instructions.go` compute on `big.Int`s
and bring the result back to a word with `math.U256`; the signed ones read their operands with
`math.S256`. Each gives the word the Yellow Paper defines (`ypResult`), and every result is a
word (`execute_arith`). The Yellow Paper's cases are not the code's: `SDIV` has no case for
`-2^255 / -1`, whose quotient `2^255` wraps to the same word, `SIGNEXTEND` of a byte index past
30 leaves the operand on the stack instead of writing it back, and `EXP` squares and multiplies
over the exponent's 64-bit words (`mathExp_eq`).
-/

namespace GoXdn.Vm

/-- The word the Yellow Paper gives each arithmetic, comparison and bitwise operation, on its
operands from the top of the stack; the signed ones read their operands in two's complement
(`s256`) and write the result back modulo `2^256` (`u256`). -/
def ypResult : Op → List ℕ → Option ℕ
  | .add, [x, y] => some ((x + y) % 2 ^ 256)
  | .mul, [x, y] => some ((x * y) % 2 ^ 256)
  | .sub, [x, y] => some ((x + 2 ^ 256 - y) % 2 ^ 256)
  | .div, [x, y] => some (if y = 0 then 0 else x / y)
  | .sdiv, [x, y] => some (if y = 0 then 0
      else if s256 x = -2 ^ 255 ∧ s256 y = -1 then 2 ^ 255
      else u256 ((s256 x).sign * (s256 y).sign * ((s256 x).natAbs / (s256 y).natAbs : ℕ)))
  | .mod, [x, y] => some (if y = 0 then 0 else x % y)
  | .smod, [x, y] => some (if y = 0 then 0
      else u256 ((s256 x).sign * ((s256 x).natAbs % (s256 y).natAbs : ℕ)))
  | .addmod, [x, y, z] => some (if z = 0 then 0 else (x + y) % z)
  | .mulmod, [x, y, z] => some (if z = 0 then 0 else (x * y) % z)
  | .exp, [x, y] => some (x ^ y % 2 ^ 256)
  | .signextend, [b, x] => some (if b < 31 then
      if x.testBit (8 * b + 7) then x % 2 ^ (8 * b + 8) + (2 ^ 256 - 2 ^ (8 * b + 8))
      else x % 2 ^ (8 * b + 8)
    else x)
  | .lt, [x, y] => some (if x < y then 1 else 0)
  | .gt, [x, y] => some (if x > y then 1 else 0)
  | .slt, [x, y] => some (if s256 x < s256 y then 1 else 0)
  | .sgt, [x, y] => some (if s256 x > s256 y then 1 else 0)
  | .eq, [x, y] => some (if x = y then 1 else 0)
  | .iszero, [x] => some (if x = 0 then 1 else 0)
  | .and, [x, y] => some (x &&& y)
  | .or, [x, y] => some (x ||| y)
  | .xor, [x, y] => some (x ^^^ y)
  | .not, [x] => some (2 ^ 256 - 1 - x)
  | .byte, [i, x] => some (if i < 32 then x / 2 ^ (8 * (31 - i)) % 2 ^ 8 else 0)
  | _, _ => none

/-- The operations the Yellow Paper's arithmetic, comparison and bitwise sections define. -/
def arithOps : List Op :=
  [.add, .sub, .mul, .div, .sdiv, .mod, .smod, .addmod, .mulmod, .exp, .signextend,
    .lt, .gt, .slt, .sgt, .eq, .iszero, .and, .or, .xor, .not, .byte]

/-! ### `U256` and `S256` -/

theorem u256_natCast (n : ℕ) : u256 n = n % 2 ^ 256 := by
  unfold u256
  omega

theorem u256_lt (z : ℤ) : u256 z < 2 ^ 256 := by
  unfold u256
  have h1 := Int.emod_nonneg z (show (2 : ℤ) ^ 256 ≠ 0 by norm_num)
  have h2 := Int.emod_lt_of_pos z (show (0 : ℤ) < 2 ^ 256 by norm_num)
  omega

theorem s256_eq_zero {x : ℕ} (hx : x < 2 ^ 256) : s256 x = 0 ↔ x = 0 := by
  unfold s256
  split_ifs <;> omega

theorem u256_mul (a b : ℕ) : u256 ((a : ℤ) * b) = a * b % 2 ^ 256 := by
  rw [← Nat.cast_mul, u256_natCast]

theorem u256_of_lt {n : ℕ} (h : n < 2 ^ 256) : u256 n = n := by
  rw [u256_natCast, Nat.mod_eq_of_lt h]

/-! ### The signed operations -/

/-- The sign `opSdiv` gives the quotient of the magnitudes: negative when the product is. -/
theorem natAbs_div_mul_sign (a : ℤ) {b : ℤ} (hb : b ≠ 0) :
    ((a.natAbs / b.natAbs : ℕ) : ℤ) * (if a * b < 0 then -1 else 1) =
      a.sign * b.sign * (a.natAbs / b.natAbs : ℕ) := by
  rcases lt_trichotomy a 0 with ha | rfl | ha <;> rcases lt_or_gt_of_ne hb with hb' | hb'
  · have hab : ¬ a * b < 0 := not_lt.2 (mul_pos_of_neg_of_neg ha hb').le
    simp [hab, Int.sign_eq_neg_one_of_neg ha, Int.sign_eq_neg_one_of_neg hb']
  · have hab : a * b < 0 := mul_neg_of_neg_of_pos ha hb'
    simp [hab, Int.sign_eq_neg_one_of_neg ha, Int.sign_eq_one_of_pos hb']
  · simp
  · simp
  · have hab : a * b < 0 := mul_neg_of_pos_of_neg ha hb'
    simp [hab, Int.sign_eq_one_of_pos ha, Int.sign_eq_neg_one_of_neg hb']
  · have hab : ¬ a * b < 0 := not_lt.2 (mul_pos ha hb').le
    simp [hab, Int.sign_eq_one_of_pos ha, Int.sign_eq_one_of_pos hb']

/-- `opSdiv`: the quotient of the magnitudes with the sign of the product; the Yellow Paper's
case `-2^255 / -1` is the quotient `2^255` of the general case. -/
theorem sdiv_eq {x y : ℕ} (hy : y < 2 ^ 256) :
    (if s256 y = 0 then 0
      else u256 (((s256 x).natAbs / (s256 y).natAbs : ℕ) * (if s256 x * s256 y < 0 then -1 else 1))) =
    (if y = 0 then 0
      else if s256 x = -2 ^ 255 ∧ s256 y = -1 then 2 ^ 255
      else u256 ((s256 x).sign * (s256 y).sign * ((s256 x).natAbs / (s256 y).natAbs : ℕ))) := by
  simp only [s256_eq_zero hy]
  by_cases h0 : y = 0
  · simp [h0]
  rw [if_neg h0, if_neg h0, natAbs_div_mul_sign _ (fun h => h0 ((s256_eq_zero hy).1 h))]
  split_ifs with hmin
  · obtain ⟨hx, hy'⟩ := hmin
    rw [hx, hy']
    rfl
  · rfl

/-- `opSmod`: the remainder of the magnitudes with the sign of the dividend. -/
theorem smod_eq {x y : ℕ} (hy : y < 2 ^ 256) :
    (if s256 y = 0 then 0
      else u256 (((s256 x).natAbs % (s256 y).natAbs : ℕ) * (if s256 x < 0 then -1 else 1))) =
    (if y = 0 then 0 else u256 ((s256 x).sign * ((s256 x).natAbs % (s256 y).natAbs : ℕ))) := by
  simp only [s256_eq_zero hy]
  by_cases h0 : y = 0
  · simp [h0]
  rw [if_neg h0, if_neg h0]
  congr 1
  rcases lt_trichotomy (s256 x) 0 with hx | hx | hx
  · simp [hx, Int.sign_eq_neg_one_of_neg hx, mul_comm]
  · simp [hx]
  · simp [not_lt.2 hx.le, Int.sign_eq_one_of_pos hx]

/-! ### Unsigned arithmetic -/

theorem sub_eq {x y : ℕ} (hy : y < 2 ^ 256) :
    u256 ((x : ℤ) - y) = (x + 2 ^ 256 - y) % 2 ^ 256 := by
  unfold u256
  omega

theorem not_eq {x : ℕ} (hx : x < 2 ^ 256) : u256 (-(x : ℤ) - 1) = 2 ^ 256 - 1 - x := by
  unfold u256
  omega

/-! ### `math.Exp` -/

/-- Square and multiply over `n` bits of the exponent, each product truncated to 256 bits:
`result * base ^ (e mod 2^n)`, truncated. -/
theorem expBits_eq : ∀ (n e r b : ℕ), r < 2 ^ 256 →
    expBits n e r b = r * b ^ (e % 2 ^ n) % 2 ^ 256
  | 0, e, r, b, hr => by rw [expBits, pow_zero, Nat.mod_one, pow_zero, mul_one, Nat.mod_eq_of_lt hr]
  | n + 1, e, r, b, hr => by
    have hr' : (if e % 2 = 1 then u256 ((r : ℤ) * b) else r) < 2 ^ 256 := by
      split_ifs
      · exact u256_lt _
      · exact hr
    rw [expBits, expBits_eq n (e / 2) _ _ hr']
    simp only [u256_mul]
    have he : e % 2 ^ (n + 1) = e % 2 + 2 * (e / 2 % 2 ^ n) := by
      rw [pow_succ', Nat.mod_mul]
    rw [he, pow_add, pow_mul, sq]
    split_ifs with h1
    · have hmod : r * b % 2 ^ 256 * (b * b % 2 ^ 256) ^ (e / 2 % 2 ^ n) ≡
          r * b * (b * b) ^ (e / 2 % 2 ^ n) [MOD 2 ^ 256] :=
        (Nat.mod_modEq _ _).mul ((Nat.mod_modEq _ _).pow _)
      rw [h1, pow_one, ← mul_assoc]
      exact hmod
    · have hmod : r * (b * b % 2 ^ 256) ^ (e / 2 % 2 ^ n) ≡ r * (b * b) ^ (e / 2 % 2 ^ n)
          [MOD 2 ^ 256] := (Nat.ModEq.refl r).mul ((Nat.mod_modEq _ _).pow _)
      rw [show e % 2 = 0 by omega, pow_zero, one_mul]
      exact hmod

/-- `math.Exp`: the power modulo `2^256`; the loop covers the exponent's 64-bit words. -/
theorem mathExp_eq (base e : ℕ) : mathExp base e = base ^ e % 2 ^ 256 := by
  rw [mathExp, expBits_eq _ _ _ _ (by norm_num), one_mul]
  have hlt : e < 2 ^ (64 * ((Nat.size e + 63) / 64)) :=
    lt_of_lt_of_le (Nat.lt_size_self e) (Nat.pow_le_pow_right (by norm_num) (by omega))
  rw [Nat.mod_eq_of_lt hlt]

/-! ### `SIGNEXTEND` and `BYTE` -/

/-- Or-ing a word with ones from bit `k` to bit 255: its low `k` bits under those ones. -/
theorem or_high_ones {x k : ℕ} (hx : x < 2 ^ 256) (hk : k ≤ 256) :
    x ||| (2 ^ 256 - 1 - (2 ^ k - 1)) = 2 ^ k * (2 ^ (256 - k) - 1) + x % 2 ^ k := by
  have hkw : 2 ^ k ≤ 2 ^ 256 := Nat.pow_le_pow_right (by norm_num) hk
  have hmask : 2 ^ 256 - 1 - (2 ^ k - 1) = 2 ^ 256 - ((2 ^ k - 1) + 1) := by
    have := Nat.one_le_two_pow (n := k)
    omega
  apply Nat.eq_of_testBit_eq
  intro i
  rw [hmask, Nat.testBit_or, Nat.testBit_two_pow_sub_succ (by omega),
    Nat.testBit_two_pow_mul_add _ (Nat.mod_lt _ (Nat.two_pow_pos k)), Nat.testBit_two_pow_sub_one,
    Nat.testBit_mod_two_pow, Nat.testBit_two_pow_sub_one]
  by_cases hik : i < k
  · simp [hik]
  by_cases hi : i < 256
  · simp [hik, hi, show i - k < 256 - k by omega]
  · have hxi : x.testBit i = false :=
      Nat.testBit_lt_two_pow (lt_of_lt_of_le hx (Nat.pow_le_pow_right (by norm_num) (by omega)))
    simp [hik, hi, show ¬ i - k < 256 - k by omega, hxi]

/-- The bits of a word up to bit `k`: those below it, and `2^k` if bit `k` is set. -/
theorem mod_two_pow_succ (x k : ℕ) :
    x % 2 ^ (k + 1) = x % 2 ^ k + if x.testBit k then 2 ^ k else 0 := by
  rw [pow_succ, Nat.mod_mul, Nat.testBit_eq_decide_div_mod_eq]
  split_ifs with h
  · rw [decide_eq_true_iff.1 h, mul_one]
  · rw [show x / 2 ^ k % 2 = 0 by simp at h; omega, mul_zero]

/-- `signExtend`: the low `8b + 8` bits, with ones above them when the sign bit is set. -/
theorem signExtend_eq {b x : ℕ} (hb : b < 31) (hx : x < 2 ^ 256) :
    signExtend b x = if x.testBit (8 * b + 7) then x % 2 ^ (8 * b + 8) + (2 ^ 256 - 2 ^ (8 * b + 8))
      else x % 2 ^ (8 * b + 8) := by
  unfold signExtend
  dsimp only
  rw [show b * 8 + 7 = 8 * b + 7 by ring, mod_two_pow_succ]
  have hk : 2 ^ (8 * b + 8) ≤ 2 ^ 256 := Nat.pow_le_pow_right (by norm_num) (by omega)
  have hk' : 2 ^ (8 * b + 8) = 2 * 2 ^ (8 * b + 7) := by rw [← pow_succ', mul_comm]
  split_ifs with ht
  · have hones : 2 ^ (8 * b + 7) * (2 ^ (256 - (8 * b + 7)) - 1) = 2 ^ 256 - 2 ^ (8 * b + 7) := by
      rw [Nat.mul_sub, mul_one, ← pow_add, Nat.add_sub_cancel' (by omega)]
    rw [u256_of_lt (Nat.or_lt_two_pow hx (by omega)), or_high_ones hx (by omega), hones]
    omega
  · rw [Nat.and_two_pow_sub_one_eq_mod, add_zero]

theorem byte_eq (i x : ℕ) :
    (if i < 32 then x / 256 ^ (31 - i) % 256 else 0) =
      if i < 32 then x / 2 ^ (8 * (31 - i)) % 2 ^ 8 else 0 := by
  rw [pow_mul]
  rfl

/-! ### The results are words -/

theorem ite_one_zero_lt (p : Prop) [Decidable p] : (if p then 1 else 0) < 2 ^ 256 := by
  split_ifs <;> norm_num

/-- Every result the Yellow Paper gives on words is a word. -/
theorem ypResult_lt {op : Op} {args : List ℕ} {v : ℕ} (hw : ∀ x ∈ args, x < 2 ^ 256)
    (h : ypResult op args = some v) : v < 2 ^ 256 := by
  unfold ypResult at h
  split at h <;> simp only [Option.some.injEq, reduceCtorEq] at h <;> subst h <;>
    simp only [List.mem_cons, List.not_mem_nil, or_false, forall_eq_or_imp, forall_eq] at hw
  · exact Nat.mod_lt _ (by norm_num)
  · exact Nat.mod_lt _ (by norm_num)
  · exact Nat.mod_lt _ (by norm_num)
  · split_ifs
    · positivity
    · exact (Nat.div_le_self _ _).trans_lt hw.1
  · split_ifs
    · positivity
    · norm_num
    · exact u256_lt _
  · split_ifs
    · positivity
    · exact (Nat.mod_le _ _).trans_lt hw.1
  · split_ifs
    · positivity
    · exact u256_lt _
  · split_ifs with hz
    · positivity
    · exact (Nat.mod_lt _ (Nat.pos_of_ne_zero hz)).trans hw.2.2
  · split_ifs with hz
    · positivity
    · exact (Nat.mod_lt _ (Nat.pos_of_ne_zero hz)).trans hw.2.2
  · exact Nat.mod_lt _ (by norm_num)
  · rename_i b x
    have hlow := Nat.mod_lt x (Nat.two_pow_pos (8 * b + 8))
    split_ifs with hb
    · have hk : 2 ^ (8 * b + 8) ≤ 2 ^ 256 := Nat.pow_le_pow_right (by norm_num) (by omega)
      omega
    · exact hlow.trans_le (Nat.pow_le_pow_right (by norm_num) (by omega))
    · exact hw.2
  · exact ite_one_zero_lt _
  · exact ite_one_zero_lt _
  · exact ite_one_zero_lt _
  · exact ite_one_zero_lt _
  · exact ite_one_zero_lt _
  · exact ite_one_zero_lt _
  · exact Nat.and_lt_two_pow _ hw.2
  · exact Nat.or_lt_two_pow hw.1 hw.2
  · exact Nat.xor_lt_two_pow hw.1 hw.2
  · omega
  · split_ifs
    · exact (Nat.mod_lt _ (by norm_num)).trans (by norm_num)
    · positivity

/-! ### The operations -/

section Execute

variable (env : Env) (evm : Evm) (f : Frame)

/-- On operands of the right arity, each operation of `arithOps` pops them and pushes the word
the Yellow Paper gives. -/
theorem execute_ypResult {op : Op} (hop : op ∈ arithOps) {args : List ℕ} (rest : List ℕ)
    (hlen : args.length = op.stackBounds.1) (hw : ∀ x ∈ args, x < 2 ^ 256) :
    ∃ v, ypResult op args = some v ∧
      execute env evm { f with stack := args ++ rest } op = .ok (evm, { f with stack := v :: rest }, []) := by
  simp only [arithOps, List.mem_cons, List.not_mem_nil, or_false] at hop
  rcases hop with rfl | rfl | rfl | rfl | rfl | rfl | rfl | rfl | rfl | rfl | rfl |
    rfl | rfl | rfl | rfl | rfl | rfl | rfl | rfl | rfl | rfl | rfl
  · obtain ⟨x, y, rfl⟩ := List.length_eq_two.1 hlen
    refine ⟨_, ?_, rfl⟩
    rw [ypResult, ← Nat.cast_add, u256_natCast]
  · obtain ⟨x, y, rfl⟩ := List.length_eq_two.1 hlen
    refine ⟨_, ?_, rfl⟩
    rw [ypResult, sub_eq (hw y (by simp))]
  · obtain ⟨x, y, rfl⟩ := List.length_eq_two.1 hlen
    refine ⟨_, ?_, rfl⟩
    rw [ypResult, u256_mul]
  · obtain ⟨x, y, rfl⟩ := List.length_eq_two.1 hlen
    refine ⟨_, ?_, rfl⟩
    simp only [ypResult, ne_eq, ite_not]
  · obtain ⟨x, y, rfl⟩ := List.length_eq_two.1 hlen
    refine ⟨_, ?_, rfl⟩
    rw [ypResult, sdiv_eq (hw y (by simp))]
  · obtain ⟨x, y, rfl⟩ := List.length_eq_two.1 hlen
    exact ⟨_, rfl, rfl⟩
  · obtain ⟨x, y, rfl⟩ := List.length_eq_two.1 hlen
    refine ⟨_, ?_, rfl⟩
    rw [ypResult, smod_eq (hw y (by simp))]
  · obtain ⟨x, y, z, rfl⟩ := List.length_eq_three.1 hlen
    refine ⟨_, ?_, rfl⟩
    simp only [ypResult, Nat.pos_iff_ne_zero, ne_eq, ite_not]
  · obtain ⟨x, y, z, rfl⟩ := List.length_eq_three.1 hlen
    refine ⟨_, ?_, rfl⟩
    simp only [ypResult, Nat.pos_iff_ne_zero, ne_eq, ite_not]
  · obtain ⟨x, y, rfl⟩ := List.length_eq_two.1 hlen
    refine ⟨_, ?_, rfl⟩
    rw [ypResult, mathExp_eq]
  · obtain ⟨b, x, rfl⟩ := List.length_eq_two.1 hlen
    by_cases hb : b < 31
    · refine ⟨signExtend b x, ?_, ?_⟩
      · rw [ypResult, if_pos hb, signExtend_eq hb (hw x (by simp))]
      · exact if_pos hb
    · refine ⟨x, ?_, ?_⟩
      · rw [ypResult, if_neg hb]
      · exact if_neg hb
  · obtain ⟨x, y, rfl⟩ := List.length_eq_two.1 hlen
    exact ⟨_, rfl, rfl⟩
  · obtain ⟨x, y, rfl⟩ := List.length_eq_two.1 hlen
    exact ⟨_, rfl, rfl⟩
  · obtain ⟨x, y, rfl⟩ := List.length_eq_two.1 hlen
    exact ⟨_, rfl, rfl⟩
  · obtain ⟨x, y, rfl⟩ := List.length_eq_two.1 hlen
    exact ⟨_, rfl, rfl⟩
  · obtain ⟨x, y, rfl⟩ := List.length_eq_two.1 hlen
    exact ⟨_, rfl, rfl⟩
  · obtain ⟨x, rfl⟩ := List.length_eq_one_iff.1 hlen
    refine ⟨_, ?_, rfl⟩
    simp only [ypResult, Nat.pos_iff_ne_zero, ne_eq, ite_not]
  · obtain ⟨x, y, rfl⟩ := List.length_eq_two.1 hlen
    exact ⟨_, rfl, rfl⟩
  · obtain ⟨x, y, rfl⟩ := List.length_eq_two.1 hlen
    exact ⟨_, rfl, rfl⟩
  · obtain ⟨x, y, rfl⟩ := List.length_eq_two.1 hlen
    exact ⟨_, rfl, rfl⟩
  · obtain ⟨x, rfl⟩ := List.length_eq_one_iff.1 hlen
    refine ⟨_, ?_, rfl⟩
    rw [ypResult, not_eq (hw x (by simp))]
  · obtain ⟨i, x, rfl⟩ := List.length_eq_two.1 hlen
    refine ⟨_, ?_, rfl⟩
    rw [ypResult, byte_eq]

/-- The arithmetic, comparison and bitwise operations on stack words: each replaces its operands
by the word the Yellow Paper defines, and that is a word. -/
theorem execute_arith {op : Op} (hop : op ∈ arithOps) (args rest : List ℕ)
    (hlen : args.length = op.stackBounds.1) (hw : ∀ x ∈ args, x < 2 ^ 256) :
    ∃ v, ypResult op args = some v ∧ v < 2 ^ 256 ∧
      execute env evm { f with stack := args ++ rest } op = .ok (evm, { f with stack := v :: rest }, []) := by
  obtain ⟨v, hv, hexec⟩ := execute_ypResult env evm f hop rest hlen hw
  exact ⟨v, hv, ypResult_lt hw hv, hexec⟩

end Execute

/-- A frame of the sample EVM running empty code. -/
def sampleFrame : Frame := ⟨0, [], Memory.new, newContract 10 20 0 100000 20 [] []⟩

/-- `SDIV` of `-2^255` by `-1`, the Yellow Paper's special case. -/
theorem execute_arith_sample :
    ∃ v, ypResult .sdiv [2 ^ 255, 2 ^ 256 - 1] = some v ∧ v < 2 ^ 256 ∧
      execute sampleEnv (sampleEvm []) { sampleFrame with stack := [2 ^ 255, 2 ^ 256 - 1] ++ [] }
        .sdiv = .ok (sampleEvm [], { sampleFrame with stack := [v] }, []) :=
  execute_arith sampleEnv (sampleEvm []) sampleFrame (by decide) _ [] rfl (by decide)

end GoXdn.Vm
