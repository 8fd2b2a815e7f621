import Mathlib
import GoXdn.Proofs.Calls

/-!
# A failed message call leaves no trace

When `Call`, `CallCode`, `DelegateCall`, `StaticCall` or `Create` returns an error, the world is
the one it was called in (for `Create`, with the caller's nonce bumped before the snapshot, and
apart from the code-storage error Frontier keeps). The gas is all gone, except on
`errExecutionReverted` and on the two errors raised before anything starts, `ErrDepth` and
`ErrInsufficientBalance`, which hand the whole gas back.
-/

namespace GoXdn.Vm

open GoStd State StateDb

/-- A call that failed with `e` has left the world `w` and no gas, unless it reverted on
purpose, or failed before it started (the depth limit, the balance, or the model's fuel) and
handed back all of `gas`. -/
def Unwound (w : World) (gas : UInt64) (evm' : Evm) (res : CallResult) (e : VmError) : Prop :=
  evm'.stateDb.world = w ∧
    (res.gas = 0 ∨ e = .executionReverted ∨
      (res.gas = gas ∧ (e = .depth ∨ e = .insufficientBalance ∨ e = .outOfFuel)))

lemma unwound_refl (evm : Evm) (gas : UInt64) {e : VmError}
    (he : e = .depth ∨ e = .insufficientBalance ∨ e = .outOfFuel) :
    Unwound evm.stateDb.world gas evm ⟨[], gas, some e⟩ e :=
  ⟨rfl, .inr (.inr ⟨rfl, he⟩)⟩

section Unwind

variable (env : Env) (fuel : ℕ)

/-- The end of `EVM.Create` on an error: back to the snapshot, unless the error is Frontier's
short code-storage gas. -/
lemma createFinish_unwound {s : StateDb} (hs : s.RevisionsBelow) {evm : Evm}
    (h : s.snapshot.1.Within evm.stateDb) (contractAddr : Address) (contract : Contract)
    (ret : List UInt8) (err : Option VmError) (gas : UInt64) {e : VmError}
    (he : (createFinish env evm s.snapshot.2 contractAddr contract ret err).2.1.err = some e)
    (hf : env.rules.isHomestead ∨ e ≠ .codeStoreOutOfGas) :
    Unwound s.world gas (createFinish env evm s.snapshot.2 contractAddr contract ret err).1
      (createFinish env evm s.snapshot.2 contractAddr contract ret err).2.1 e := by
  unfold createFinish at he ⊢
  rcases hp : storeCode env evm contractAddr contract ret err with ⟨evm₁, contract₁, err₁⟩
  have h₁ := (storeCode_within env h contractAddr contract ret err).1
  rw [hp] at h₁ he
  obtain ⟨t, ht, -, hw⟩ := h₁.revert_snapshot hs
  dsimp only at he ⊢
  by_cases hc : (env.rules.isEIP158 ∧ maxCodeSize < ret.length) ∨
      (err₁.isSome ∧ (env.rules.isHomestead ∨ err₁ ≠ some .codeStoreOutOfGas))
  · simp only [if_pos hc, ht] at he ⊢
    refine ⟨hw, ?_⟩
    by_cases hrev : err₁ = some .executionReverted
    · subst hrev
      simp only [reduceCtorEq, and_false, if_false, Option.some.injEq] at he
      exact .inr (.inl he.symm)
    · exact .inl (if_neg hrev)
  · rw [if_neg hc] at he
    subst he
    exact absurd (.inr ⟨rfl, hf.imp id fun hne h => hne (Option.some.inj h)⟩) hc

/-- The run of a message call from its snapshot, on an error: back to the world the snapshot
was taken in, with the gas gone unless the run reverted. -/
lemma run_revert_unwound {evm : Evm} (hs : evm.stateDb.RevisionsBelow) {evm₁ : Evm}
    (h₁ : evm.stateDb.snapshot.1.Within evm₁.stateDb) (contract : Contract) (input : List UInt8)
    (gas : UInt64) {e : VmError}
    (he : (revertOnError (run env fuel evm₁ contract input).1 evm.stateDb.snapshot.2
      (run env fuel evm₁ contract input).2.1 (run env fuel evm₁ contract input).2.2.1
      (run env fuel evm₁ contract input).2.2.2).2.err = some e) :
    Unwound evm.stateDb.world gas
      (revertOnError (run env fuel evm₁ contract input).1 evm.stateDb.snapshot.2
        (run env fuel evm₁ contract input).2.1 (run env fuel evm₁ contract input).2.2.1
        (run env fuel evm₁ contract input).2.2.2).1
      (revertOnError (run env fuel evm₁ contract input).1 evm.stateDb.snapshot.2
        (run env fuel evm₁ contract input).2.1 (run env fuel evm₁ contract input).2.2.1
        (run env fuel evm₁ contract input).2.2.2).2 e := by
  cases herr : (run env fuel evm₁ contract input).2.2.2 with
  | none => rw [herr] at he; cases he
  | some e' =>
    rw [herr] at he
    obtain ⟨hw, hres⟩ := revertOnError_some hs (run_within env fuel hs h₁ contract input)
      (run env fuel evm₁ contract input).2.1 (run env fuel evm₁ contract input).2.2.1 e'
    rw [hres] at he ⊢
    obtain rfl : e' = e := Option.some.inj he
    refine ⟨hw, ?_⟩
    by_cases hrev : e' = .executionReverted
    · exact .inr (.inl hrev)
    · exact .inl (if_neg hrev)

lemma call_unwound (evm : Evm) (hs : evm.stateDb.RevisionsBelow) (caller addr : Address)
    (input : List UInt8) (gas : UInt64) (value : ℕ) {e : VmError}
    (he : (call env fuel evm caller addr input gas value).2.err = some e) :
    Unwound evm.stateDb.world gas (call env fuel evm caller addr input gas value).1
      (call env fuel evm caller addr input gas value).2 e := by
  cases fuel with
  | zero =>
    rw [call] at he ⊢
    cases he
    exact unwound_refl evm gas (.inr (.inr rfl))
  | succ fuel =>
    simp only [call] at he ⊢
    split_ifs at he ⊢
    · cases he; exact unwound_refl evm gas (.inl rfl)
    · cases he; exact unwound_refl evm gas (.inr (.inl rfl))
    · exact run_revert_unwound env fuel hs
        (within_transfer ((Within.refl _).createAccount env.keccak addr) caller addr value) _ _ gas he
    · exact run_revert_unwound env fuel hs (within_transfer (Within.refl _) caller addr value) _ _
        gas he

lemma callCode_unwound (evm : Evm) (hs : evm.stateDb.RevisionsBelow) (caller addr : Address)
    (input : List UInt8) (gas : UInt64) (value : ℕ) {e : VmError}
    (he : (callCode env fuel evm caller addr input gas value).2.err = some e) :
    Unwound evm.stateDb.world gas (callCode env fuel evm caller addr input gas value).1
      (callCode env fuel evm caller addr input gas value).2 e := by
  cases fuel with
  | zero =>
    rw [callCode] at he ⊢
    cases he
    exact unwound_refl evm gas (.inr (.inr rfl))
  | succ fuel =>
    simp only [callCode] at he ⊢
    split_ifs at he ⊢
    · cases he; exact unwound_refl evm gas (.inl rfl)
    · cases he; exact unwound_refl evm gas (.inr (.inl rfl))
    · exact run_revert_unwound env fuel hs (Within.refl _) _ _ gas he

lemma delegateCall_unwound (evm : Evm) (hs : evm.stateDb.RevisionsBelow) (parent : Contract)
    (addr : Address) (input : List UInt8) (gas : UInt64) {e : VmError}
    (he : (delegateCall env fuel evm parent addr input gas).2.err = some e) :
    Unwound evm.stateDb.world gas (delegateCall env fuel evm parent addr input gas).1
      (delegateCall env fuel evm parent addr input gas).2 e := by
  cases fuel with
  | zero =>
    rw [delegateCall] at he ⊢
    cases he
    exact unwound_refl evm gas (.inr (.inr rfl))
  | succ fuel =>
    simp only [delegateCall] at he ⊢
    split_ifs at he ⊢
    · cases he; exact unwound_refl evm gas (.inl rfl)
    · exact run_revert_unwound env fuel hs (Within.refl _) _ _ gas he

lemma staticCall_unwound (evm : Evm) (hs : evm.stateDb.RevisionsBelow) (caller addr : Address)
    (input : List UInt8) (gas : UInt64) {e : VmError}
    (he : (staticCall env fuel evm caller addr input gas).2.err = some e) :
    Unwound evm.stateDb.world gas (staticCall env fuel evm caller addr input gas).1
      (staticCall env fuel evm caller addr input gas).2 e := by
  cases fuel with
  | zero =>
    rw [staticCall] at he ⊢
    cases he
    exact unwound_refl evm gas (.inr (.inr rfl))
  | succ fuel =>
    simp only [staticCall] at he ⊢
    split_ifs at he ⊢
    · cases he; exact unwound_refl evm gas (.inl rfl)
    all_goals
      obtain ⟨hw, hgas⟩ := run_revert_unwound env fuel hs (Within.refl _) _ _ gas he
      exact ⟨hw, hgas⟩

lemma create_unwound (evm : Evm) (hs : evm.stateDb.RevisionsBelow) (caller : Address)
    (code : List UInt8) (gas : UInt64) (value : ℕ) {e : VmError}
    (he : (create env fuel evm caller code gas value).2.1.err = some e)
    (hf : env.rules.isHomestead ∨ e ≠ .codeStoreOutOfGas) :
    Unwound evm.stateDb.world gas (create env fuel evm caller code gas value).1
        (create env fuel evm caller code gas value).2.1 e ∨
      Unwound (evm.stateDb.world.setNonce env.keccak caller (evm.stateDb.getNonce caller + 1)) gas
        (create env fuel evm caller code gas value).1
        (create env fuel evm caller code gas value).2.1 e := by
  cases fuel with
  | zero =>
    rw [create] at he ⊢
    cases he
    exact .inl (unwound_refl evm gas (.inr (.inr rfl)))
  | succ fuel =>
    simp only [create] at he ⊢
    have hn := (Within.refl evm.stateDb).setNonceOf env.keccak caller
      (evm.stateDb.getNonce caller + 1)
    have hs₀ := hn.revisionsBelow hs
    rw [← world_setNonceOf]
    split_ifs at he ⊢
    · cases he; exact .inl (unwound_refl evm gas (.inl rfl))
    · cases he; exact .inl (unwound_refl evm gas (.inr (.inl rfl)))
    · cases he; exact .inr ⟨rfl, .inl rfl⟩
    · refine .inr (createFinish_unwound env hs₀ (run_within env fuel hs₀ ?_ _ _) _ _ _ _ gas he hf)
      exact within_transfer (((Within.refl _).createAccount _ _).setNonceOf _ _ _) _ _ _
    · refine .inr (createFinish_unwound env hs₀ (run_within env fuel hs₀ ?_ _ _) _ _ _ _ gas he hf)
      exact within_transfer ((Within.refl _).createAccount _ _) _ _ _

end Unwind

/-- Every failed call from `evm` leaves no trace: the world is as it was on entry (for `Create`,
possibly with the caller's nonce bumped), and the gas is gone unless the call reverted or failed
before it started. -/
def UnwindsOnFailure (env : Env) (fuel : ℕ) (evm : Evm) : Prop :=
  (∀ caller addr input gas value e,
    (call env fuel evm caller addr input gas value).2.err = some e →
      Unwound evm.stateDb.world gas (call env fuel evm caller addr input gas value).1
        (call env fuel evm caller addr input gas value).2 e) ∧
  (∀ caller addr input gas value e,
    (callCode env fuel evm caller addr input gas value).2.err = some e →
      Unwound evm.stateDb.world gas (callCode env fuel evm caller addr input gas value).1
        (callCode env fuel evm caller addr input gas value).2 e) ∧
  (∀ parent addr input gas e,
    (delegateCall env fuel evm parent addr input gas).2.err = some e →
      Unwound evm.stateDb.world gas (delegateCall env fuel evm parent addr input gas).1
        (delegateCall env fuel evm parent addr input gas).2 e) ∧
  (∀ caller addr input gas e,
    (staticCall env fuel evm caller addr input gas).2.err = some e →
      Unwound evm.stateDb.world gas (staticCall env fuel evm caller addr input gas).1
        (staticCall env fuel evm caller addr input gas).2 e) ∧
  (∀ caller code gas value e,
    (create env fuel evm caller code gas value).2.1.err = some e →
      (env.rules.isHomestead ∨ e ≠ .codeStoreOutOfGas) →
      Unwound evm.stateDb.world gas (create env fuel evm caller code gas value).1
          (create env fuel evm caller code gas value).2.1 e ∨
        Unwound (evm.stateDb.world.setNonce env.keccak caller (evm.stateDb.getNonce caller + 1))
          gas (create env fuel evm caller code gas value).1
          (create env fuel evm caller code gas value).2.1 e)

theorem failed_calls_unwind (env : Env) (fuel : ℕ) (evm : Evm)
    (hs : evm.stateDb.RevisionsBelow) : UnwindsOnFailure env fuel evm :=
  ⟨fun caller addr input gas value _ he => call_unwound env fuel evm hs caller addr input gas value he,
    fun caller addr input gas value _ he =>
      callCode_unwound env fuel evm hs caller addr input gas value he,
    fun parent addr input gas _ he => delegateCall_unwound env fuel evm hs parent addr input gas he,
    fun caller addr input gas _ he => staticCall_unwound env fuel evm hs caller addr input gas he,
    fun caller code gas value _ he hf => create_unwound env fuel evm hs caller code gas value he hf⟩

/-- A Byzantium EVM, with the identity contract standing in for every cryptographic
precompile. -/
def sampleEnv : Env where
  keccak := Hash256.zero
  createAddress caller nonce := 1000 + caller + nonce.toNat
  crypto := ⟨dataCopy, dataCopy, dataCopy, dataCopy, dataCopy, dataCopy, dataCopy⟩
  ctx := ⟨fun _ => 0, 10, 1, 0, 1000000, 1, 0, 0⟩
  rules := ⟨true, true, true, true⟩
  config := ⟨false, false, false⟩

/-- A fresh EVM over accounts 10 and 20, 100 wei each, with `code` at 20. -/
def sampleEvm (code : List UInt8) : Evm where
  stateDb :=
    let account (code : List UInt8) : StateObject :=
      ⟨0, 100, Hash256.zero.sum code, code, fun _ => 0, false, false, false, false⟩
    ⟨fun a => if a = 10 then some (account []) else if a = 20 then some (account code) else none,
      [], 0, 0, 0, 0, fun _ => [], 0, fun _ => none, [], [], 0⟩
  depth := 0
  readOnly := false
  returnData := []

theorem failed_calls_unwind_sample :
    (sampleEvm []).stateDb.RevisionsBelow ∧ UnwindsOnFailure sampleEnv 8 (sampleEvm []) :=
  ⟨fun _ hr => absurd hr List.not_mem_nil,
    failed_calls_unwind sampleEnv 8 (sampleEvm []) fun _ hr => absurd hr List.not_mem_nil⟩

/-- A call of 200 wei from an account holding 100 fails without reverting, and hands back all
its gas. -/
theorem call_insufficient_balance_keeps_gas :
    (call sampleEnv 1 (sampleEvm []) 10 20 [] 5000 200).2.err = some .insufficientBalance ∧
      (call sampleEnv 1 (sampleEvm []) 10 20 [] 5000 200).2.gas = 5000 := by
  with_unfolding_all decide

end GoXdn.Vm
