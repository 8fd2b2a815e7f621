import Mathlib
import GoXdn.Proofs.Calls

/-!
# No call returns more gas than it was given

With gas metering on, every message call hands back at most the gas it was given, and the
interpreter's frame never ends with more gas than it started with. The one place where gas
flows back into a frame is `contract.Gas += returnGas` after a call operation; the gas function
of the operation has already charged the gas it hands on, and for a call with a value the
`CallValueTransferGas` it charged covers the `CallStipend` the callee gets for free.
-/

namespace GoXdn.Vm

open GoStd State StateDb

lemma UInt64.toNat_add_le (a b : UInt64) : (a + b).toNat ≤ a.toNat + b.toNat := by
  rw [UInt64.toNat_add]
  exact Nat.mod_le _ _

lemma safeAdd_toNat {x y : UInt64} (h : ¬(safeAdd x y).2 = true) :
    (safeAdd x y).1.toNat = x.toNat + y.toNat := by
  simp only [safeAdd, decide_eq_true_eq, UInt64.not_lt] at h ⊢
  have hx := UInt64.toNat_lt x
  have hmax : (UInt64.ofNat (2 ^ 64 - 1) - x).toNat = 2 ^ 64 - 1 - x.toNat := by
    rw [UInt64.toNat_sub_of_le _ _ (UInt64.le_iff_toNat_le.2 (by simp; omega))]
    simp
  rw [UInt64.le_iff_toNat_le, hmax] at h
  rw [UInt64.toNat_add, Nat.mod_eq_of_lt (by omega)]

lemma Contract.useGas_gas {c c' : Contract} {g : UInt64} (h : c.useGas g = some c') :
    c'.gas.toNat + g.toNat = c.gas.toNat ∧ c' = { c with gas := c'.gas } := by
  unfold Contract.useGas at h
  split at h
  · cases h
  · rename_i hlt
    cases h
    rw [UInt64.not_lt, UInt64.le_iff_toNat_le] at hlt
    refine ⟨?_, rfl⟩
    rw [UInt64.toNat_sub_of_le _ _ (UInt64.le_iff_toNat_le.2 hlt)]
    omega

lemma Contract.useGas_le {c c' : Contract} {g : UInt64} (h : c.useGas g = some c') :
    c'.gas ≤ c.gas :=
  UInt64.le_iff_toNat_le.2 (by have := (Contract.useGas_gas h).1; omega)

lemma memoryGasPlus_ge {mem mem' : Memory} {memorySize g gas : UInt64}
    (h : memoryGasPlus mem memorySize g = .ok (gas, mem')) : g.toNat ≤ gas.toNat := by
  unfold memoryGasPlus at h
  simp only [bind, Except.bind, pure, Except.pure] at h
  split at h
  · cases h
  · rename_i v _
    split at h
    · cases h
    · rename_i hov
      cases h
      rw [safeAdd_toNat hov]
      omega

/-- The gas a call operation hands the callee out of its frame: the gas word on top of the
stack, and the stipend for a call with a value. -/
def callAllowance : Op → List ℕ → ℕ
  | .call, g :: _ :: value :: _ | .callcode, g :: _ :: value :: _ =>
    (bigUint64 g).1.toNat + if value ≠ 0 then callStipend.toNat else 0
  | .delegatecall, g :: _ | .staticcall, g :: _ => (bigUint64 g).1.toNat
  | _, _ => 0

theorem callAllowance_call (g a v : ℕ) (rest : List ℕ) :
    callAllowance .call (g :: a :: v :: rest) =
      (bigUint64 g).1.toNat + if v ≠ 0 then callStipend.toNat else 0 :=
  rfl

theorem callAllowance_callcode (g a v : ℕ) (rest : List ℕ) :
    callAllowance .callcode (g :: a :: v :: rest) =
      (bigUint64 g).1.toNat + if v ≠ 0 then callStipend.toNat else 0 :=
  rfl

theorem callAllowance_delegatecall (g : ℕ) (rest : List ℕ) :
    callAllowance .delegatecall (g :: rest) = (bigUint64 g).1.toNat :=
  rfl

theorem callAllowance_staticcall (g : ℕ) (rest : List ℕ) :
    callAllowance .staticcall (g :: rest) = (bigUint64 g).1.toNat :=
  rfl

section Charge

variable (env : Env)

/-- The tail of the call gas functions charges the callee's gas on top of `gas`, and puts it on
the stack in place of the requested gas. -/
lemma gasCallTail_spec {contract : Contract} {st : List ℕ} {mem : Memory}
    {gas memorySize : UInt64} {g : GasOut}
    (h : gasCallTail env contract st mem gas memorySize = .ok g) :
    ∃ cg : UInt64, g.stack = cg.toNat :: st.drop 1 ∧ gas.toNat + cg.toNat ≤ g.cost.toNat := by
  unfold gasCallTail at h
  simp only [bind, Except.bind, pure, Except.pure] at h
  split at h
  · cases h
  rename_i v hm
  split at h
  · cases h
  rename_i cg _
  split at h
  · cases h
  rename_i hov
  cases h
  refine ⟨cg, rfl, ?_⟩
  have h₁ := memoryGasPlus_ge hm
  simp only [safeAdd_toNat hov]
  omega

lemma gasTable_calls_le (r : Rules) : r.gasTable.calls.toNat ≤ 700 := by
  unfold Rules.gasTable
  split_ifs <;> decide

lemma bigUint64_toNat (cg : UInt64) : (bigUint64 cg.toNat).1 = cg := by
  simp [bigUint64]

/-- The gas a call with a value is charged covers its stipend. -/
lemma callStipend_le_of_value {base : UInt64} (hb : base.toNat ≤ 25700) :
    callStipend.toNat ≤ (base + callValueTransferGas).toNat := by
  rw [UInt64.toNat_add, Nat.mod_eq_of_lt (by simp [callValueTransferGas]; omega)]
  simp [callStipend, callValueTransferGas]

lemma gasTable_callsNew_le (r : Rules) : (r.gasTable.calls + callNewAccountGas).toNat ≤ 25700 := by
  unfold Rules.gasTable
  split_ifs <;> decide

lemma calls_base_le (r : Rules) (c : Prop) [Decidable c] :
    (if c then r.gasTable.calls + callNewAccountGas else r.gasTable.calls).toNat ≤ 25700 := by
  split_ifs
  · exact gasTable_callsNew_le r
  · exact (gasTable_calls_le r).trans (by norm_num)

/-- A call with a value: the `CallValueTransferGas` charged covers the stipend. -/
lemma stipend_covered {X cg cost : UInt64} (hX : X.toNat ≤ 25700)
    (hc : (X + callValueTransferGas).toNat + cg.toNat ≤ cost.toNat) :
    cg.toNat + callStipend.toNat ≤ cost.toNat := by
  have := callStipend_le_of_value hX
  omega

lemma gasCall_covers {evm : Evm} {contract : Contract} {st : List ℕ} {mem : Memory}
    {memorySize : UInt64} {g : GasOut}
    (h : gasCall env evm contract st mem memorySize = .ok g) :
    callAllowance .call g.stack ≤ g.cost.toNat := by
  unfold gasCall at h
  obtain ⟨cg, hs, hc⟩ := gasCallTail_spec env h
  rw [hs]
  rcases st with _ | ⟨a, _ | ⟨b, _ | ⟨v, rest⟩⟩⟩
  · exact Nat.zero_le _
  · exact Nat.zero_le _
  · exact Nat.zero_le _
  simp only [callAllowance_call, List.drop_succ_cons, List.drop_zero, bigUint64_toNat]
  simp only [List.getD_cons_succ, List.getD_cons_zero] at hc
  by_cases hv : v = 0
  · simp only [hv, ne_eq, not_true_eq_false, if_false] at hc ⊢
    omega
  · simp only [hv, ne_eq, not_false_eq_true, if_true] at hc ⊢
    refine stipend_covered ?_ hc
    by_cases h158 : env.rules.isEIP158 = true
    · rw [if_pos h158]; exact calls_base_le _ _
    · rw [if_neg h158]; exact calls_base_le _ _

lemma gasCallCode_covers {contract : Contract} {st : List ℕ} {mem : Memory}
    {memorySize : UInt64} {g : GasOut}
    (h : gasCallCode env contract st mem memorySize = .ok g) :
    callAllowance .callcode g.stack ≤ g.cost.toNat := by
  unfold gasCallCode at h
  obtain ⟨cg, hs, hc⟩ := gasCallTail_spec env h
  rw [hs]
  rcases st with _ | ⟨a, _ | ⟨b, _ | ⟨v, rest⟩⟩⟩
  · exact Nat.zero_le _
  · exact Nat.zero_le _
  · exact Nat.zero_le _
  simp only [callAllowance_callcode, List.drop_succ_cons, List.drop_zero, bigUint64_toNat]
  simp only [List.getD_cons_succ, List.getD_cons_zero] at hc
  by_cases hv : v = 0
  · simp only [hv, ne_eq, not_true_eq_false, if_false] at hc ⊢
    omega
  · simp only [hv, ne_eq, not_false_eq_true, if_true] at hc ⊢
    exact stipend_covered ((gasTable_calls_le _).trans (by norm_num)) hc

/-- Every gas function charges at least what the operation hands a callee. -/
lemma gasCost_covers {evm : Evm} {contract : Contract} {st : List ℕ} {mem : Memory} {op : Op}
    {memorySize : UInt64} {g : GasOut}
    (h : gasCost env evm contract st mem op memorySize = .ok g) :
    callAllowance op g.stack ≤ g.cost.toNat := by
  cases op
  case call => exact gasCall_covers env h
  case callcode => exact gasCallCode_covers env h
  case delegatecall =>
    obtain ⟨cg, hs, hc⟩ := gasCallTail_spec env h
    rw [hs, callAllowance_delegatecall, bigUint64_toNat]
    omega
  case staticcall =>
    obtain ⟨cg, hs, hc⟩ := gasCallTail_spec env h
    rw [hs, callAllowance_staticcall, bigUint64_toNat]
    omega
  all_goals exact Nat.zero_le _

/-- With gas metering on, a frame is charged at least what its operation hands a callee. -/
lemma chargeGas_covers (hg : env.config.disableGasMetering = false) {evm evm' : Evm}
    {f f' : Frame} {op : Op} {memorySize : UInt64}
    (h : chargeGas env evm f op memorySize = .ok (evm', f')) :
    f'.contract.gas.toNat + callAllowance op f'.stack ≤ f.contract.gas.toNat := by
  unfold chargeGas at h
  rw [if_neg (by simp [hg])] at h
  cases hgc : gasCost env evm f.contract f.stack f.mem op memorySize with
  | error => rw [hgc] at h; cases h
  | ok g =>
    rw [hgc] at h
    have hcov := gasCost_covers env hgc
    simp only at h
    split at h
    · cases h
    · rename_i c hu
      cases h
      have := (Contract.useGas_gas hu).1
      show c.gas.toNat + callAllowance op g.stack ≤ f.contract.gas.toNat
      omega

end Charge

lemma revertOnError_gas (evm : Evm) (snapshot : ℕ) (contract : Contract) (ret : List UInt8)
    (err : Option VmError) : (revertOnError evm snapshot contract ret err).2.gas ≤ contract.gas := by
  unfold revertOnError
  split
  · exact UInt64.le_refl _
  · split
    · exact UInt64.le_refl _
    · split_ifs
      · exact UInt64.le_refl _
      · exact UInt64.zero_le

lemma afterCall_gas (evm : Evm) (f : Frame) (rest : List ℕ) (retOffset retSize : ℕ)
    (res : CallResult) :
    (afterCall evm f rest retOffset retSize res).2.1.contract.gas.toNat ≤
      f.contract.gas.toNat + res.gas.toNat := by
  unfold afterCall
  dsimp only
  split
  · exact Nat.le_add_right _ _
  · exact UInt64.toNat_add_le _ _

/-- `Create` hands on all but a 64th of the frame's gas and gives the rest back after. -/
lemma createGas_le (G : UInt64) (c : Prop) [Decidable c] : (if c then G - G / 64 else G) ≤ G := by
  have hdiv : G / 64 ≤ G := by
    rw [UInt64.le_iff_toNat_le, UInt64.toNat_div]
    exact Nat.div_le_self _ _
  split_ifs
  · rw [UInt64.le_iff_toNat_le, UInt64.toNat_sub_of_le _ _ hdiv]
    exact Nat.sub_le _ _
  · exact UInt64.le_refl G

lemma sub_add_toNat_le {G gas r : UInt64} (h₁ : gas ≤ G) (h₂ : r ≤ gas) :
    (G - gas + r).toNat ≤ G.toNat := by
  rw [UInt64.le_iff_toNat_le] at h₁ h₂
  have := UInt64.toNat_add_le (G - gas) r
  rw [UInt64.toNat_sub_of_le _ _ (UInt64.le_iff_toNat_le.2 h₁)] at this
  omega

section Bound

variable (env : Env)

lemma storeCode_gas (evm : Evm) (contractAddr : Address) (contract : Contract) (ret : List UInt8)
    (err : Option VmError) : (storeCode env evm contractAddr contract ret err).2.1.gas ≤ contract.gas := by
  unfold storeCode
  split_ifs
  · split
    · rename_i c hu
      exact Contract.useGas_le hu
    · exact UInt64.le_refl _
  · exact UInt64.le_refl _

lemma createFinish_gas (evm : Evm) (snapshot : ℕ) (contractAddr : Address) (contract : Contract)
    (ret : List UInt8) (err : Option VmError) :
    (createFinish env evm snapshot contractAddr contract ret err).2.1.gas ≤ contract.gas := by
  unfold createFinish
  have hs := storeCode_gas env evm contractAddr contract ret err
  rcases hp : storeCode env evm contractAddr contract ret err with ⟨evm₁, contract₁, err₁⟩
  rw [hp] at hs
  dsimp only at hs ⊢
  split_ifs
  all_goals try split
  all_goals first | exact hs | exact UInt64.zero_le

/-- Every function of the mutual block, at one fuel, hands back at most the gas it was given;
an operation at most that and what it hands a callee. -/
structure GasSound (fuel : ℕ) : Prop where
  call : ∀ (evm : Evm) (caller addr : Address) (input : List UInt8) (gas : UInt64) (value : ℕ),
    (call env fuel evm caller addr input gas value).2.gas ≤ gas
  callCode : ∀ (evm : Evm) (caller addr : Address) (input : List UInt8) (gas : UInt64)
    (value : ℕ), (callCode env fuel evm caller addr input gas value).2.gas ≤ gas
  delegateCall : ∀ (evm : Evm) (parent : Contract) (addr : Address) (input : List UInt8)
    (gas : UInt64), (delegateCall env fuel evm parent addr input gas).2.gas ≤ gas
  staticCall : ∀ (evm : Evm) (caller addr : Address) (input : List UInt8) (gas : UInt64),
    (staticCall env fuel evm caller addr input gas).2.gas ≤ gas
  create : ∀ (evm : Evm) (caller : Address) (code : List UInt8) (gas : UInt64) (value : ℕ),
    (create env fuel evm caller code gas value).2.1.gas ≤ gas
  run : ∀ (evm : Evm) (contract : Contract) (input : List UInt8),
    (run env fuel evm contract input).2.1.gas ≤ contract.gas
  loop : ∀ (evm : Evm) (f : Frame), (loop env fuel evm f).2.1.contract.gas ≤ f.contract.gas
  step : ∀ (evm : Evm) (f : Frame) (op : Op),
    (step env fuel evm f op).2.1.contract.gas.toNat ≤
      f.contract.gas.toNat + callAllowance op f.stack

lemma gasSound_zero : GasSound env 0 where
  call _ _ _ _ gas _ := by rw [call]; exact UInt64.le_refl gas
  callCode _ _ _ _ gas _ := by rw [callCode]; exact UInt64.le_refl gas
  delegateCall _ _ _ _ gas := by rw [delegateCall]; exact UInt64.le_refl gas
  staticCall _ _ _ _ gas := by rw [staticCall]; exact UInt64.le_refl gas
  create _ _ _ gas _ := by rw [create]; exact UInt64.le_refl gas
  run _ c _ := by rw [run]; exact UInt64.le_refl c.gas
  loop _ f := by rw [loop]; exact UInt64.le_refl f.contract.gas
  step _ _ _ := by rw [step]; exact Nat.le_add_right _ _

section Succ

variable {env} {fuel : ℕ} (ih : GasSound env fuel)
include ih

lemma run_revert_gas (evm : Evm) (snapshot : ℕ) (contract : Contract) (input : List UInt8) :
    (revertOnError (run env fuel evm contract input).1 snapshot
      (run env fuel evm contract input).2.1 (run env fuel evm contract input).2.2.1
      (run env fuel evm contract input).2.2.2).2.gas ≤ contract.gas :=
  UInt64.le_trans (revertOnError_gas _ _ _ _ _) (ih.run evm contract input)

lemma call_gas (evm : Evm) (caller addr : Address) (input : List UInt8) (gas : UInt64)
    (value : ℕ) : (call env (fuel + 1) evm caller addr input gas value).2.gas ≤ gas := by
  simp only [call]
  split_ifs
  all_goals first | exact UInt64.le_refl gas | exact run_revert_gas ih _ _ _ _

lemma callCode_gas (evm : Evm) (caller addr : Address) (input : List UInt8) (gas : UInt64)
    (value : ℕ) : (callCode env (fuel + 1) evm caller addr input gas value).2.gas ≤ gas := by
  simp only [callCode]
  split_ifs
  all_goals first | exact UInt64.le_refl gas | exact run_revert_gas ih _ _ _ _

lemma delegateCall_gas (evm : Evm) (parent : Contract) (addr : Address) (input : List UInt8)
    (gas : UInt64) : (delegateCall env (fuel + 1) evm parent addr input gas).2.gas ≤ gas := by
  simp only [delegateCall]
  split_ifs
  all_goals first | exact UInt64.le_refl gas | exact run_revert_gas ih _ _ _ _

lemma staticCall_gas (evm : Evm) (caller addr : Address) (input : List UInt8) (gas : UInt64) :
    (staticCall env (fuel + 1) evm caller addr input gas).2.gas ≤ gas := by
  simp only [staticCall]
  split_ifs
  all_goals first | exact UInt64.le_refl gas | exact run_revert_gas ih _ _ _ _

lemma create_gas (evm : Evm) (caller : Address) (code : List UInt8) (gas : UInt64)
    (value : ℕ) : (create env (fuel + 1) evm caller code gas value).2.1.gas ≤ gas := by
  simp only [create]
  split_ifs
  all_goals first
    | exact UInt64.le_refl gas
    | exact UInt64.zero_le
    | exact UInt64.le_trans (createFinish_gas env _ _ _ _ _ _) (ih.run _ _ _)

lemma run_gas (evm : Evm) (contract : Contract) (input : List UInt8) :
    (run env (fuel + 1) evm contract input).2.1.gas ≤ contract.gas := by
  simp only [run]
  split
  · split
    · rename_i c hu
      split <;> exact Contract.useGas_le hu
    · exact UInt64.le_refl _
  · split_ifs
    · exact UInt64.le_refl _
    · exact ih.loop _ _

/-- The interpreter loop: each turn charges at least what its operation hands on, so the frame
ends with at most the gas it started with. -/
lemma loop_gas (hg : env.config.disableGasMetering = false) (evm : Evm) (f : Frame) :
    (loop env (fuel + 1) evm f).2.1.contract.gas ≤ f.contract.gas := by
  simp only [loop]
  split
  · exact UInt64.le_refl _
  next op _ =>
  split
  · exact UInt64.le_refl _
  · exact UInt64.le_refl _
  · exact UInt64.le_refl _
  next memorySize _ _ _ =>
  split
  next evm' hc => exact UInt64.le_refl _
  next evm₁ f₁ hc =>
    have hcov := chargeGas_covers env hg hc
    set f₂ := if 0 < memorySize then { f₁ with mem := f₁.mem.resize memorySize.toNat } else f₁
      with hf₂
    have hf₂c : f₂.contract = f₁.contract ∧ f₂.stack = f₁.stack := by
      rw [hf₂]; split_ifs <;> exact ⟨rfl, rfl⟩
    have hle : (step env fuel evm₁ f₂ op).2.1.contract.gas ≤ f.contract.gas := by
      have hstep := ih.step evm₁ f₂ op
      rw [hf₂c.1, hf₂c.2] at hstep
      rw [UInt64.le_iff_toNat_le]
      omega
    split
    · exact hle
    · split_ifs
      all_goals first | exact hle | exact UInt64.le_trans (ih.loop _ _) hle

lemma step_gas (evm : Evm) (f : Frame) (op : Op) :
    (step env (fuel + 1) evm f op).2.1.contract.gas.toNat ≤
      f.contract.gas.toNat + callAllowance op f.stack := by
  unfold GoXdn.Vm.step
  dsimp only
  split
  case h_6 =>
    split
    · rename_i evm' f' res hx
      rw [(execute_effect hx).2.2.2]
      exact Nat.le_add_right _ _
    · exact Nat.le_add_right _ _
  all_goals
    split
    · exact Nat.le_add_right _ _
  · rename_i g addr value _ _ _ _ r hst _ args _
    rw [hst]
    refine (afterCall_gas _ _ _ _ _ _).trans ?_
    have hr := UInt64.le_iff_toNat_le.1 (ih.call evm f.contract.self (bigToAddress addr) args
      (if value ≠ 0 then (bigUint64 g).1 + callStipend else (bigUint64 g).1) value)
    have hp : (if value ≠ 0 then (bigUint64 g).1 + callStipend else (bigUint64 g).1).toNat ≤
        (bigUint64 g).1.toNat + if value ≠ 0 then callStipend.toNat else 0 := by
      split_ifs
      · exact UInt64.toNat_add_le _ _
      · simp
    simp only [callAllowance]
    omega
  · rename_i g addr value _ _ _ _ r hst _ args _
    rw [hst]
    refine (afterCall_gas _ _ _ _ _ _).trans ?_
    have hr := UInt64.le_iff_toNat_le.1 (ih.callCode evm f.contract.self (bigToAddress addr) args
      (if value ≠ 0 then (bigUint64 g).1 + callStipend else (bigUint64 g).1) value)
    have hp : (if value ≠ 0 then (bigUint64 g).1 + callStipend else (bigUint64 g).1).toNat ≤
        (bigUint64 g).1.toNat + if value ≠ 0 then callStipend.toNat else 0 := by
      split_ifs
      · exact UInt64.toNat_add_le _ _
      · simp
    simp only [callAllowance]
    omega
  · rename_i g toAddr _ _ _ _ r hst _ args _
    rw [hst]
    refine (afterCall_gas _ _ _ _ _ _).trans ?_
    have hr := UInt64.le_iff_toNat_le.1
      (ih.delegateCall evm f.contract (bigToAddress toAddr) args (bigUint64 g).1)
    simp only [callAllowance]
    omega
  · rename_i g addr _ _ _ _ r hst _ args _
    rw [hst]
    refine (afterCall_gas _ _ _ _ _ _).trans ?_
    have hr := UInt64.le_iff_toNat_le.1
      (ih.staticCall evm f.contract.self (bigToAddress addr) args (bigUint64 g).1)
    simp only [callAllowance]
    omega
  · rename_i value offset size r hst _ input _
    have hca : callAllowance .create f.stack = 0 := by rw [hst]; rfl
    rw [hca, Nat.add_zero]
    exact sub_add_toNat_le (createGas_le _ _) (ih.create _ _ _ _ _)

end Succ

/-- With gas metering on, no function of the mutual block hands back more gas than it was given,
at any fuel. -/
theorem gasSound (hg : env.config.disableGasMetering = false) : ∀ fuel, GasSound env fuel
  | 0 => gasSound_zero env
  | fuel + 1 =>
    have ih := gasSound hg fuel
    { call := call_gas ih
      callCode := callCode_gas ih
      delegateCall := delegateCall_gas ih
      staticCall := staticCall_gas ih
      create := create_gas ih
      run := run_gas ih
      loop := loop_gas ih hg
      step := step_gas ih }

end Bound

end GoXdn.Vm
