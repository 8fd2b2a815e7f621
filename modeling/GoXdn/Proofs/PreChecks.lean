import Mathlib
import GoXdn.Proofs.Gas
import GoXdn.Proofs.MemoryGas
import GoXdn.Proofs.CallFailure
import GoXdn.Proofs.Analysis

/-!
# The pre-checks of `Interpreter.Run` cover execution

Before an operation runs, `Interpreter.Run` checks the stack against the jump table's
`(pop, push)` counts (`validateStack`), computes the memory size the entry asks for, and grows
the memory to it. Past these checks no operation panics: each finds the operands it pops, leaves
the stack the counts give, at most `1024` items, and reads and writes memory inside its length
(`step_prechecked`). So the interpreter loop never ends in a panic (`loop_no_panic`).
-/

namespace GoXdn.Vm

open GoStd

/-! ### The checks -/

theorem validateStack_eq_none {op : Op} {s : List ℕ} :
    op.validateStack s = none ↔
      op.stackBounds.1 ≤ s.length ∧ s.length + op.stackBounds.2 - op.stackBounds.1 ≤ stackLimit := by
  unfold Op.validateStack
  rcases op.stackBounds with ⟨popped, pushed⟩
  dsimp only
  split_ifs <;> simp <;> omega

theorem validateStack_ne_panic (op : Op) (s : List ℕ) : op.validateStack s ≠ some .panic := by
  unfold Op.validateStack
  rcases op.stackBounds with ⟨popped, pushed⟩
  dsimp only
  split_ifs <;> simp

/-- No byte decodes to `DUP0`: the table's `DUP1` to `DUP16` each copy an item there is. -/
theorem decode_ne_dup_zero : ∀ b : UInt8, Op.decode b ≠ some (.dup 0) := by
  intro b h
  unfold Op.decode at h
  dsimp only at h
  split_ifs at h with h₁ h₂
  · simp at h
  · simp at h
    omega
  · simp at h
  · simp at h
  · split at h <;> simp at h

/-- What `Interpreter.Run` has made sure of when an operation executes: the opcode is one the
jump table decodes, the stack passes `validateStack`, and the memory covers the size the entry's
`memorySize` asks for, which fits in 64 bits. -/
structure PreChecked (op : Op) (f : Frame) : Prop where
  decoded : ∃ b, Op.decode b = some op
  stack : op.validateStack f.stack = none
  memory : ∀ n ∈ op.memorySize f.stack, n < 2 ^ 64 ∧ n ≤ f.mem.store.length

/-! ### Memory inside its length -/

namespace Memory

theorem get_eq_ok {m : Memory} {offset size : ℕ} (h : calcMemSize offset size ≤ m.store.length) :
    ∃ d, m.get offset size = .ok d := by
  unfold calcMemSize at h
  unfold get
  split_ifs with h₀ h₁ h₂
  · exact ⟨_, rfl⟩
  · rw [if_neg h₀] at h
    omega
  · exact ⟨_, rfl⟩
  · exact ⟨_, rfl⟩

theorem set_eq_ok {m : Memory} {offset size : ℕ} (v : List UInt8)
    (h : calcMemSize offset size ≤ m.store.length) : ∃ m', m.set offset size v = .ok m' := by
  unfold calcMemSize at h
  unfold set
  split_ifs with h₀ h₁ h₂
  · split_ifs at h <;> omega
  · exact ⟨_, rfl⟩
  · rw [if_neg h₁] at h
    omega
  · exact ⟨_, rfl⟩

end Memory

theorem calcMemSize_mod {o s : ℕ} (h : calcMemSize o s < 2 ^ 64) :
    calcMemSize (o % 2 ^ 64) (s % 2 ^ 64) = calcMemSize o s := by
  unfold calcMemSize at h ⊢
  split_ifs at h ⊢ <;> omega

/-! ### `execute` -/

/-- What an operation may return past the pre-checks: an error other than a panic, or a frame
whose stack is `popped` items shorter and `pushed` longer. -/
def ExecOk (r : Except VmError (Evm × Frame × List UInt8)) (len popped pushed : ℕ) : Prop :=
  match r with
  | .error e => e ≠ .panic
  | .ok (_, f, _) => f.stack.length + popped = len + pushed

section ExecOk

variable {len popped pushed : ℕ}

theorem execOk_get_bind {m : Memory} {o s : ℕ} {k : List UInt8 → Except VmError (Evm × Frame × List UInt8)}
    (h : calcMemSize o s ≤ m.store.length) (hk : ∀ d, ExecOk (k d) len popped pushed) :
    ExecOk (m.get o s >>= k) len popped pushed := by
  obtain ⟨d, hd⟩ := Memory.get_eq_ok h
  rw [hd]
  exact hk d

theorem execOk_set_bind {m : Memory} {o s : ℕ} {v : List UInt8}
    {k : Memory → Except VmError (Evm × Frame × List UInt8)}
    (h : calcMemSize o s ≤ m.store.length) (hk : ∀ m', ExecOk (k m') len popped pushed) :
    ExecOk (m.set o s v >>= k) len popped pushed := by
  obtain ⟨m', hm'⟩ := Memory.set_eq_ok v h
  rw [hm']
  exact hk m'

end ExecOk

/-- A copy to memory at an offset and length that the memory covers, each taken modulo `2^64`
as `Uint64` takes it. -/
theorem calcMemSize_mod_le {o s L : ℕ} (h : calcMemSize o s < 2 ^ 64 ∧ calcMemSize o s ≤ L) :
    calcMemSize (o % 2 ^ 64) (s % 2 ^ 64) ≤ L := by
  rw [calcMemSize_mod h.1]
  exact h.2

set_option linter.unusedSimpArgs false in
/-- Past the pre-checks, every operation `execute` runs finds its operands, leaves the stack the
jump table's counts give, and reads and writes memory inside its length: it does not panic. -/
theorem execute_prechecked (env : Env) (evm : Evm) {f : Frame} {op : Op} (h : PreChecked op f)
    (hop : op ≠ .call ∧ op ≠ .callcode ∧ op ≠ .delegatecall ∧ op ≠ .staticcall ∧ op ≠ .create) :
    ExecOk (execute env evm f op) f.stack.length op.stackBounds.1 op.stackBounds.2 := by
  have hpop := (validateStack_eq_none.1 h.stack).1
  have hdup : op ≠ .dup 0 := fun h0 => by
    obtain ⟨b, hb⟩ := h.decoded
    exact decode_ne_dup_zero b (h0 ▸ hb)
  have hmem := h.memory
  rcases f with ⟨pc, stack, mem, c⟩
  obtain ⟨args, rest, rfl, hargs⟩ : ∃ args rest, stack = args ++ rest ∧ args.length = op.stackBounds.1 :=
    ⟨stack.take _, stack.drop _, (List.take_append_drop _ _).symm, List.length_take_of_le hpop⟩
  dsimp only at hmem hpop ⊢
  cases op
  case stop | jumpdest | address | origin | caller | callvalue | calldatasize | codesize
      | gasprice | returndatasize | coinbase | timestamp | number | difficulty | gaslimit | pc
      | msize | gas | push =>
    rw [List.length_eq_zero_iff.1 hargs, execute.eq_def]
    simp only [List.cons_append, List.nil_append, ExecOk, Frame.push, pure, Except.pure,
      Op.stackBounds, List.length_cons, List.length_nil]
  case add | mul | sub | div | sdiv | mod | smod | exp | lt | gt | slt | sgt | eq | and | or
      | xor | byte | sstore =>
    obtain ⟨x, y, rfl⟩ := List.length_eq_two.1 hargs
    rw [execute.eq_def]
    simp only [List.cons_append, List.nil_append, ExecOk, Frame.push, pure, Except.pure,
      Op.stackBounds, List.length_cons, List.length_nil]
  case signextend =>
    obtain ⟨x, y, rfl⟩ := List.length_eq_two.1 hargs
    rw [execute.eq_def]
    simp only [List.cons_append, List.nil_append]
    split_ifs <;> simp only [List.cons_append, List.nil_append, ExecOk, Frame.push, pure, Except.pure,
      Op.stackBounds, List.length_cons, List.length_nil, ne_eq, reduceCtorEq, not_false_eq_true]
  case jumpi =>
    obtain ⟨x, y, rfl⟩ := List.length_eq_two.1 hargs
    rw [execute.eq_def]
    simp only [List.cons_append, List.nil_append]
    obtain ⟨b, hb⟩ := jumpdestHas_isSome c.code x
    rw [hb]
    split_ifs
    · cases b <;> simp only [ExecOk, Op.stackBounds, List.length_cons, List.length_nil,
        ne_eq, reduceCtorEq, not_false_eq_true]
    · simp only [ExecOk, Op.stackBounds, List.length_cons, List.length_nil]
  case addmod | mulmod =>
    obtain ⟨x, y, z, rfl⟩ := List.length_eq_three.1 hargs
    rw [execute.eq_def]
    simp only [List.cons_append, List.nil_append, ExecOk, Frame.push, pure, Except.pure,
      Op.stackBounds, List.length_cons, List.length_nil]
  case iszero | not | balance | calldataload | extcodesize | blockhash | sload | pop
      | selfdestruct =>
    obtain ⟨x, rfl⟩ := List.length_eq_one_iff.1 hargs
    rw [execute.eq_def]
    simp only [List.cons_append, List.nil_append, ExecOk, Frame.push, pure, Except.pure,
      Op.stackBounds, List.length_cons, List.length_nil]
  case jump =>
    obtain ⟨x, rfl⟩ := List.length_eq_one_iff.1 hargs
    rw [execute.eq_def]
    simp only [List.cons_append, List.nil_append]
    obtain ⟨b, hb⟩ := jumpdestHas_isSome c.code x
    rw [hb]
    cases b <;> simp only [ExecOk, Op.stackBounds, List.length_cons, List.length_nil, ne_eq,
      reduceCtorEq, not_false_eq_true]
  case sha3 | ret | revert =>
    obtain ⟨x, y, rfl⟩ := List.length_eq_two.1 hargs
    have hm : calcMemSize x y < 2 ^ 64 ∧ calcMemSize x y ≤ mem.store.length := hmem _ rfl
    rw [execute.eq_def]
    simp only [List.cons_append, List.nil_append]
    refine execOk_get_bind hm.2 fun d => ?_
    simp only [ExecOk, Frame.push, pure, Except.pure, Op.stackBounds, List.length_cons]
  case mload =>
    obtain ⟨x, rfl⟩ := List.length_eq_one_iff.1 hargs
    have hm : calcMemSize x 32 < 2 ^ 64 ∧ calcMemSize x 32 ≤ mem.store.length := hmem _ rfl
    rw [execute.eq_def]
    simp only [List.cons_append, List.nil_append]
    refine execOk_get_bind hm.2 fun d => ?_
    simp only [ExecOk, Frame.push, Op.stackBounds, List.length_cons]
  case mstore =>
    obtain ⟨x, y, rfl⟩ := List.length_eq_two.1 hargs
    have hm : calcMemSize x 32 < 2 ^ 64 ∧ calcMemSize x 32 ≤ mem.store.length := hmem _ rfl
    rw [execute.eq_def]
    simp only [List.cons_append, List.nil_append]
    refine execOk_set_bind (by simpa using calcMemSize_mod_le hm) fun m' => ?_
    simp only [ExecOk, Op.stackBounds, List.length_cons]
  case mstore8 =>
    obtain ⟨x, y, rfl⟩ := List.length_eq_two.1 hargs
    have hm : calcMemSize x 1 < 2 ^ 64 ∧ calcMemSize x 1 ≤ mem.store.length := hmem _ rfl
    have hx : x < mem.store.length := by
      unfold calcMemSize at hm
      simp only [one_ne_zero, if_false] at hm
      omega
    rw [execute.eq_def]
    simp only [List.cons_append, List.nil_append, if_pos hx, ExecOk, Op.stackBounds,
      List.length_cons]
  case calldatacopy | codecopy =>
    obtain ⟨x, y, z, rfl⟩ := List.length_eq_three.1 hargs
    have hm : calcMemSize x z < 2 ^ 64 ∧ calcMemSize x z ≤ mem.store.length := hmem _ rfl
    rw [execute.eq_def]
    simp only [List.cons_append, List.nil_append]
    refine execOk_set_bind (calcMemSize_mod_le hm) fun m' => ?_
    simp only [ExecOk, Op.stackBounds, List.length_cons]
  case returndatacopy =>
    obtain ⟨x, y, z, rfl⟩ := List.length_eq_three.1 hargs
    have hm : calcMemSize x z < 2 ^ 64 ∧ calcMemSize x z ≤ mem.store.length := hmem _ rfl
    rw [execute.eq_def]
    simp only [List.cons_append, List.nil_append]
    split_ifs
    · simp only [ExecOk, ne_eq, reduceCtorEq, not_false_eq_true]
    · refine execOk_set_bind (calcMemSize_mod_le hm) fun m' => ?_
      simp only [ExecOk, Op.stackBounds, List.length_cons]
  case extcodecopy =>
    obtain ⟨a, x, y, z, rfl⟩ := List.length_eq_four.1 hargs
    have hm : calcMemSize x z < 2 ^ 64 ∧ calcMemSize x z ≤ mem.store.length := hmem _ rfl
    rw [execute.eq_def]
    simp only [List.cons_append, List.nil_append]
    refine execOk_set_bind (calcMemSize_mod_le hm) fun m' => ?_
    simp only [ExecOk, Op.stackBounds, List.length_cons]
  case log n =>
    rcases args with _ | ⟨x, _ | ⟨y, args⟩⟩
    · simp [Op.stackBounds] at hargs
    · simp [Op.stackBounds] at hargs
    have hm : calcMemSize x y < 2 ^ 64 ∧ calcMemSize x y ≤ mem.store.length := hmem _ rfl
    simp only [Op.stackBounds, List.length_cons, Nat.add_right_cancel_iff] at hargs
    rw [execute.eq_def]
    simp only [List.cons_append, List.nil_append]
    rw [if_pos (by simp only [List.length_append]; omega)]
    refine execOk_get_bind hm.2 fun d => ?_
    simp only [ExecOk, pure, Except.pure, Op.stackBounds, List.length_drop, List.length_append,
      List.length_cons]
    omega
  case dup n =>
    have hn : n ≠ 0 := fun hn => hdup (hn ▸ rfl)
    simp only [Op.stackBounds] at hpop
    rw [execute.eq_def]
    simp only []
    rw [if_pos ⟨Nat.pos_of_ne_zero hn, hpop⟩]
    simp only [ExecOk, Frame.push, Op.stackBounds, List.length_cons]
    omega
  case swap n =>
    simp only [Op.stackBounds] at hpop
    rw [execute.eq_def]
    simp only []
    rw [if_pos (by omega)]
    simp only [ExecOk, Op.stackBounds, List.length_set]
  case call => exact absurd rfl hop.1
  case callcode => exact absurd rfl hop.2.1
  case delegatecall => exact absurd rfl hop.2.2.1
  case staticcall => exact absurd rfl hop.2.2.2.1
  case create => exact absurd rfl hop.2.2.2.2

/-! ### One step -/

/-- What a step may end with past the pre-checks: an error other than a panic, or a frame whose
stack is `popped` items shorter and `pushed` longer. -/
def StepOk (r : Evm × Frame × List UInt8 × Option VmError) (len popped pushed : ℕ) : Prop :=
  match r.2.2.2 with
  | some e => e ≠ .panic
  | none => r.2.1.stack.length + popped = len + pushed

theorem eq_of_length_six {l : List ℕ} (h : l.length = 6) :
    ∃ a b c d e g, l = [a, b, c, d, e, g] := by
  obtain ⟨a, b, c, h₁⟩ := List.length_eq_three.1 (show (l.take 3).length = 3 by simp [h])
  obtain ⟨d, e, g, h₂⟩ := List.length_eq_three.1 (show (l.drop 3).length = 3 by simp [h])
  exact ⟨a, b, c, d, e, g, by rw [← List.take_append_drop 3 l, h₁, h₂]; rfl⟩

theorem eq_of_length_seven {l : List ℕ} (h : l.length = 7) :
    ∃ a b c d e g k, l = [a, b, c, d, e, g, k] := by
  obtain ⟨a, b, c, d, h₁⟩ := List.length_eq_four.1 (show (l.take 4).length = 4 by simp [h])
  obtain ⟨e, g, k, h₂⟩ := List.length_eq_three.1 (show (l.drop 4).length = 3 by simp [h])
  exact ⟨a, b, c, d, e, g, k, by rw [← List.take_append_drop 4 l, h₁, h₂]; rfl⟩

/-- After a call the result is written to a range the memory covers, so only the callee's
outcome is pushed. -/
theorem afterCall_stepOk {len popped pushed : ℕ} (evm : Evm) (f : Frame) (rest : List ℕ)
    (ro rs : ℕ) (res : CallResult)
    (hm : calcMemSize ro rs < 2 ^ 64 ∧ calcMemSize ro rs ≤ f.mem.store.length)
    (hlen : rest.length + 1 + popped = len + pushed) :
    StepOk (afterCall evm f rest ro rs res) len popped pushed := by
  unfold afterCall
  dsimp only
  split
  · rename_i e he
    split_ifs at he
    obtain ⟨m', hm'⟩ := Memory.set_eq_ok res.ret (calcMemSize_mod_le hm)
    rw [hm'] at he
    cases he
  · exact hlen

theorem step_prechecked (env : Env) (fuel : ℕ) (evm : Evm) {f : Frame} {op : Op}
    (h : PreChecked op f) :
    StepOk (step env (fuel + 1) evm f op) f.stack.length op.stackBounds.1 op.stackBounds.2 := by
  by_cases hop : op ≠ .call ∧ op ≠ .callcode ∧ op ≠ .delegatecall ∧ op ≠ .staticcall ∧ op ≠ .create
  · have hexec := execute_prechecked env evm h hop
    unfold GoXdn.Vm.step
    dsimp only
    split
    case h_1 => exact absurd rfl hop.1
    case h_2 => exact absurd rfl hop.2.1
    case h_3 => exact absurd rfl hop.2.2.1
    case h_4 => exact absurd rfl hop.2.2.2.1
    case h_5 => exact absurd rfl hop.2.2.2.2
    case h_6 =>
      split
      all_goals
        rename_i heq
        rw [heq] at hexec
        exact hexec
  simp only [not_and_or, not_not] at hop
  have hpop := (validateStack_eq_none.1 h.stack).1
  have hmem := h.memory
  rcases f with ⟨pc, stack, mem, c⟩
  obtain ⟨args, rest, rfl, hargs⟩ : ∃ args rest, stack = args ++ rest ∧ args.length = op.stackBounds.1 :=
    ⟨stack.take _, stack.drop _, (List.take_append_drop _ _).symm, List.length_take_of_le hpop⟩
  dsimp only at hmem hpop ⊢
  rcases hop with rfl | rfl | rfl | rfl | rfl
  case inl | inr.inl =>
    obtain ⟨g, a, v, io, is, ro, rs, rfl⟩ := eq_of_length_seven hargs
    have hm : max (calcMemSize ro rs) (calcMemSize io is) < 2 ^ 64 ∧
        max (calcMemSize ro rs) (calcMemSize io is) ≤ mem.store.length := hmem _ rfl
    obtain ⟨d, hd⟩ := Memory.get_eq_ok ((le_max_right _ _).trans hm.2)
    unfold GoXdn.Vm.step
    simp only [List.cons_append, List.nil_append, hd]
    exact afterCall_stepOk _ _ _ _ _ _ ⟨(le_max_left _ _).trans_lt hm.1, (le_max_left _ _).trans hm.2⟩
      (by simp [Op.stackBounds])
  case inr.inr.inl | inr.inr.inr.inl =>
    obtain ⟨g, a, io, is, ro, rs, rfl⟩ := eq_of_length_six hargs
    have hm : max (calcMemSize ro rs) (calcMemSize io is) < 2 ^ 64 ∧
        max (calcMemSize ro rs) (calcMemSize io is) ≤ mem.store.length := hmem _ rfl
    obtain ⟨d, hd⟩ := Memory.get_eq_ok ((le_max_right _ _).trans hm.2)
    unfold GoXdn.Vm.step
    simp only [List.cons_append, List.nil_append, hd]
    exact afterCall_stepOk _ _ _ _ _ _ ⟨(le_max_left _ _).trans_lt hm.1, (le_max_left _ _).trans hm.2⟩
      (by simp [Op.stackBounds])
  case inr.inr.inr.inr =>
    obtain ⟨v, o, sz, rfl⟩ := List.length_eq_three.1 hargs
    have hm : calcMemSize o sz < 2 ^ 64 ∧ calcMemSize o sz ≤ mem.store.length := hmem _ rfl
    obtain ⟨d, hd⟩ := Memory.get_eq_ok hm.2
    unfold GoXdn.Vm.step
    simp only [List.cons_append, List.nil_append, hd]
    simp [StepOk, Op.stackBounds]

/-! ### The checks of the loop -/

theorem decode_of_jumpTable {r : Rules} {b : UInt8} {op : Op} (h : Op.jumpTable r b = some op) :
    Op.decode b = some op := by
  unfold Op.jumpTable at h
  split at h
  · rename_i op' hd
    split_ifs at h
    cases h
    exact hd
  · cases h

theorem enforceRestrictions_ne_panic (env : Env) (evm : Evm) (op : Op) (st : List ℕ) :
    enforceRestrictions env evm op st ≠ some .panic := by
  unfold enforceRestrictions
  split_ifs <;> simp

theorem memorySizeOf_ne_panic (op : Op) (st : List ℕ) : memorySizeOf op st ≠ .error .panic := by
  unfold memorySizeOf
  split
  · simp
  · dsimp only
    split_ifs <;> simp

theorem safeMul_toNat {x y : UInt64} (h : ¬(safeMul x y).2 = true) :
    (safeMul x y).1.toNat = x.toNat * y.toNat := by
  unfold safeMul at h ⊢
  split_ifs at h ⊢ with h0
  · rcases h0 with rfl | rfl <;> simp
  · simp only [decide_eq_true_eq, UInt64.not_lt, UInt64.le_iff_toNat_le, UInt64.toNat_div] at h
    have hx : 0 < x.toNat := by
      have : x ≠ 0 := fun hx => h0 (.inl hx)
      rw [Ne, ← UInt64.toNat_inj] at this
      simp only [UInt64.toNat_zero] at this
      omega
    have hle : x.toNat * y.toNat ≤ 2 ^ 64 - 1 :=
      (Nat.mul_le_mul_left _ h).trans (Nat.mul_div_le _ _)
    rw [UInt64.toNat_mul, Nat.mod_eq_of_lt (by omega)]

/-- Rounding up to words never gives fewer bytes; past `2^64 - 32` it gives `2^64`. -/
theorem le_toWordSize_mul (s : UInt64) : s.toNat ≤ (toWordSize s).toNat * 32 := by
  by_cases hs : s.toNat ≤ 2 ^ 64 - 32
  · rw [toWordSize_toNat hs, words]
    omega
  · have hbig : UInt64.ofNat (2 ^ 64 - 1) - 31 < s := by
      rw [UInt64.lt_iff_toNat_lt, UInt64.toNat_sub_of_le _ _ (by decide)]
      simp only [UInt64.toNat_ofNat', UInt64.reduceToNat]
      omega
    rw [toWordSize, if_pos hbig]
    have := s.toNat_lt
    simp only [UInt64.toNat_add, UInt64.toNat_div, UInt64.toNat_ofNat', UInt64.reduceToNat]
    omega

/-- The memory size `Interpreter.Run` computes covers what the entry asks for: the request fits
in 64 bits, and rounding up to words does not overflow. -/
theorem memorySizeOf_covers {op : Op} {st : List ℕ} {ms : UInt64} (h : memorySizeOf op st = .ok ms) :
    ∀ n ∈ op.memorySize st, n < 2 ^ 64 ∧ n ≤ ms.toNat := by
  intro n hn
  unfold memorySizeOf at h
  rw [Option.mem_def.1 hn] at h
  dsimp only at h
  split_ifs at h with ho ho'
  cases h
  have hn64 : n < 2 ^ 64 := by simpa [bigUint64] using ho
  refine ⟨hn64, ?_⟩
  have hs : (bigUint64 n).1.toNat = n := UInt64.toNat_ofNat_of_lt' hn64
  rw [safeMul_toNat ho']
  have := le_toWordSize_mul (bigUint64 n).1
  simp only [UInt64.reduceToNat]
  omega

/-- The gas functions leave the stack as it is, but for the call operations, which put the
gas they hand on in place of the top. -/
theorem gasCost_stack (env : Env) {evm : Evm} {contract : Contract} {st : List ℕ} {mem : Memory}
    {op : Op} {ms : UInt64} {g : GasOut} (h : gasCost env evm contract st mem op ms = .ok g) :
    g.stack = st ∨ (op = .call ∨ op = .callcode ∨ op = .delegatecall ∨ op = .staticcall) ∧
      ∃ v, g.stack = v :: st.drop 1 := by
  cases op
  case call =>
    unfold gasCost gasCall at h
    obtain ⟨cg, hs, -⟩ := gasCallTail_spec env h
    exact .inr ⟨.inl rfl, _, hs⟩
  case callcode =>
    unfold gasCost gasCallCode at h
    obtain ⟨cg, hs, -⟩ := gasCallTail_spec env h
    exact .inr ⟨.inr (.inl rfl), _, hs⟩
  case delegatecall =>
    obtain ⟨cg, hs, -⟩ := gasCallTail_spec env h
    exact .inr ⟨.inr (.inr (.inl rfl)), _, hs⟩
  case staticcall =>
    obtain ⟨cg, hs, -⟩ := gasCallTail_spec env h
    exact .inr ⟨.inr (.inr (.inr rfl)), _, hs⟩
  all_goals
    left
    unfold gasCost at h
    simp only [constGas, gasExp, gasSha3, gasCopy, gasMemory, makeGasLog, gasSStore, gasSuicide,
      bind, Except.bind, pure, Except.pure] at h
    repeat' split at h
    all_goals cases h
    all_goals rfl

/-- Charging the gas keeps the stack's length and the memory size the entry asks for. -/
theorem chargeGas_stack (env : Env) {evm evm' : Evm} {f f' : Frame} {op : Op} {ms : UInt64}
    (h : chargeGas env evm f op ms = .ok (evm', f')) (hv : op.validateStack f.stack = none) :
    f'.stack.length = f.stack.length ∧ op.memorySize f'.stack = op.memorySize f.stack := by
  unfold chargeGas at h
  split at h
  · cases h
    exact ⟨rfl, rfl⟩
  cases hg : gasCost env evm f.contract f.stack f.mem op ms with
  | error => rw [hg] at h; cases h
  | ok g =>
    rw [hg] at h
    simp only at h
    split at h
    · cases h
    · cases h
      rcases gasCost_stack env hg with hs | ⟨hop, v, hs⟩
      · exact ⟨by rw [hs], by rw [hs]⟩
      · have hpop := (validateStack_eq_none.1 hv).1
        rcases hst : f.stack with _ | ⟨x, t⟩
        · rw [hst] at hpop
          rcases hop with rfl | rfl | rfl | rfl <;> simp [Op.stackBounds] at hpop
        · rw [hs, hst]
          rcases hop with rfl | rfl | rfl | rfl <;> exact ⟨rfl, rfl⟩

/-- The frame a turn of the loop runs its operation in has passed the checks: the stack
`validateStack` checked before the gas was charged, and the memory grown to the size it
computed. -/
theorem prechecked_of_turn (env : Env) {r : Rules} {b : UInt8} {op : Op} {evm evm₁ : Evm}
    {f f₁ : Frame} {ms : UInt64} (hop : Op.jumpTable r b = some op)
    (hv : op.validateStack f.stack = none) (hms : memorySizeOf op f.stack = .ok ms)
    (hc : chargeGas env evm f op ms = .ok (evm₁, f₁)) :
    PreChecked op (if 0 < ms then { f₁ with mem := f₁.mem.resize ms.toNat } else f₁) := by
  obtain ⟨hlen, hsize⟩ := chargeGas_stack env hc hv
  have hst : (if 0 < ms then { f₁ with mem := f₁.mem.resize ms.toNat } else f₁).stack = f₁.stack := by
    split_ifs <;> rfl
  refine ⟨⟨b, decode_of_jumpTable hop⟩, ?_, ?_⟩
  · rw [hst, validateStack_eq_none, hlen]
    exact validateStack_eq_none.1 hv
  · intro n hn
    rw [hst, hsize] at hn
    obtain ⟨h64, hle⟩ := memorySizeOf_covers hms n hn
    refine ⟨h64, ?_⟩
    split_ifs with h0
    · rw [length_resize]
      exact hle.trans (le_max_right _ _)
    · rw [UInt64.lt_iff_toNat_lt, UInt64.toNat_zero] at h0
      omega

/-- The interpreter loop never ends in a panic: each turn checks the stack and sizes the memory
before the operation runs, and past these checks no operation panics. -/
theorem loop_no_panic (env : Env) : ∀ (fuel : ℕ) (evm : Evm) (f : Frame),
    (loop env fuel evm f).2.2.2 ≠ some .panic
  | 0, _, _ => by simp [loop]
  | fuel + 1, evm, f => by
    simp only [loop]
    split
    · simp
    next op hop =>
    split
    · rename_i e hv
      simp only [ne_eq, Option.some.injEq]
      rintro rfl
      exact validateStack_ne_panic _ _ hv
    · rename_i e hr
      simp only [ne_eq, Option.some.injEq]
      rintro rfl
      exact enforceRestrictions_ne_panic _ _ _ _ hr
    · rename_i e hm
      simp only [ne_eq, Option.some.injEq]
      rintro rfl
      exact memorySizeOf_ne_panic _ _ hm
    rename_i ms hv _ hms
    split
    · simp
    rename_i evm₁ f₁ hc
    have hpre := prechecked_of_turn env hop hv hms hc
    have hstep : (step env fuel evm₁ (if 0 < ms then { f₁ with mem := f₁.mem.resize ms.toNat }
        else f₁) op).2.2.2 ≠ some .panic := by
      cases fuel with
      | zero => simp [step]
      | succ fuel =>
        have hs := step_prechecked env fuel evm₁ hpre
        unfold StepOk at hs
        split at hs
        · rename_i e he
          rw [he]
          simpa using hs
        · rename_i he
          rw [he]
          simp
    split
    · rename_i e he
      rw [← he]
      exact hstep
    · by_cases hr : op.reverts = true
      · simp [hr]
      by_cases hh : op.halts = true
      · simp [hr, hh]
      simp only [hr, hh, Bool.false_eq_true, if_false]
      exact loop_no_panic env fuel _ _

/-! ### The pre-checks cover execution -/

/-- Past the pre-checks an operation does not panic, and the stack it leaves has the jump
table's counts applied, so at most `1024` items. -/
theorem stepOk_stack_le {len popped pushed : ℕ} {r : Evm × Frame × List UInt8 × Option VmError}
    (h : StepOk r len popped pushed) (hv : len + pushed - popped ≤ stackLimit) (hp : popped ≤ len) :
    r.2.2.2 ≠ some .panic ∧ (r.2.2.2 = none →
      r.2.1.stack.length + popped = len + pushed ∧ r.2.1.stack.length ≤ stackLimit) := by
  unfold StepOk at h
  split at h
  · rename_i e he
    rw [he]
    simpa using h
  · rename_i he
    refine ⟨by rw [he]; simp, fun _ => ⟨h, by omega⟩⟩

/-- For every instruction set, every opcode the jump table decodes, every stack and every
memory: once the stack passes `validateStack` and the memory covers the size the entry's
`memorySize` asks for, the operation finds the operands it pops, leaves the stack the table's
counts give, at most `1024` items, and reads and writes memory inside its length, so it does not
panic; and `Interpreter.Run`'s loop, which makes these checks, never ends in a panic. -/
theorem prechecks_cover_execution (env : Env) :
    (∀ (fuel : ℕ) (evm : Evm) (f : Frame) (op : Op), PreChecked op f →
      (step env (fuel + 1) evm f op).2.2.2 ≠ some .panic ∧
      ((step env (fuel + 1) evm f op).2.2.2 = none →
        (step env (fuel + 1) evm f op).2.1.stack.length + op.stackBounds.1 =
          f.stack.length + op.stackBounds.2 ∧
        (step env (fuel + 1) evm f op).2.1.stack.length ≤ stackLimit)) ∧
    ∀ (fuel : ℕ) (evm : Evm) (f : Frame), (loop env fuel evm f).2.2.2 ≠ some .panic := by
  refine ⟨fun fuel evm f op h => ?_, loop_no_panic env⟩
  obtain ⟨hp, hv⟩ := validateStack_eq_none.1 h.stack
  exact stepOk_stack_le (step_prechecked env fuel evm h) hv hp

/-- `MSTORE` of `5` at offset `0` in a frame of 32 bytes of memory. -/
def mstoreFrame : Frame := ⟨0, [0, 5], ⟨List.replicate 32 0, 0⟩, newContract 10 20 0 100000 20 [] []⟩

theorem prechecks_cover_execution_sample :
    PreChecked .mstore mstoreFrame ∧
      (step sampleEnv 1 (sampleEvm []) mstoreFrame .mstore).2.2.2 ≠ some .panic ∧
      ((step sampleEnv 1 (sampleEvm []) mstoreFrame .mstore).2.2.2 = none →
        (step sampleEnv 1 (sampleEvm []) mstoreFrame .mstore).2.1.stack.length +
            Op.mstore.stackBounds.1 = mstoreFrame.stack.length + Op.mstore.stackBounds.2 ∧
          (step sampleEnv 1 (sampleEvm []) mstoreFrame .mstore).2.1.stack.length ≤ stackLimit) :=
  have h : PreChecked .mstore mstoreFrame :=
    ⟨⟨0x52, rfl⟩, rfl, fun n hn => by
      rw [Option.mem_def] at hn
      cases hn
      decide⟩
  ⟨h, (prechecks_cover_execution sampleEnv).1 0 (sampleEvm []) mstoreFrame .mstore h⟩

end GoXdn.Vm
