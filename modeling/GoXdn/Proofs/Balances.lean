import Mathlib
import GoXdn.Lib.SumLe
import GoXdn.Proofs.Calls

/-!
# Running code creates no value

Every message call, run and interpreter step keeps the balances non-negative and raises no
total of them: value moves by `Transfer`, and `SELFDESTRUCT` moves the balance of the dying
contract to its beneficiary, or destroys it when the beneficiary is the contract itself. A call
that fails goes back to its snapshot. `Finalise` deletes the self-destructed accounts with what
they hold.
-/

namespace GoXdn.State

open GoStd

namespace World

/-- The balance at `a`: that of its account, `0` where there is none. -/
def bal (w : World) (a : Address) : ℤ := ((w.accounts a).map (·.balance)).getD 0

/-- No balance is negative. -/
def NonNeg (w : World) : Prop := ∀ a, 0 ≤ w.bal a

/-- What running code may do to the balances: keep them non-negative, and raise no total. -/
def Drains (w w' : World) : Prop := w.NonNeg → w'.NonNeg ∧ SumLe w.bal w'.bal

variable (K : Hash256) (w : World) (a : Address)

lemma account_balance : (w.account K a).balance = w.bal a := by
  unfold account bal
  cases w.accounts a <;> rfl

lemma bal_setAccount (acc : Option Account) (b : Address) :
    (w.setAccount a acc).bal b = if b = a then (acc.map (·.balance)).getD 0 else w.bal b := by
  unfold bal
  rw [accounts_setAccount]
  split_ifs <;> rfl

lemma bal_addBalance (x : ℤ) (b : Address) :
    (w.addBalance K a x).bal b = if b = a then w.bal a + x else w.bal b := by
  simp [addBalance, bal_setAccount, account_balance]

lemma bal_subBalance (x : ℤ) (b : Address) :
    (w.subBalance K a x).bal b = if b = a then w.bal a - x else w.bal b := by
  simp [subBalance, bal_setAccount, account_balance]

/-- Writing back the account at `a` with its balance, or with none where none was. -/
lemma bal_setAccount_same {acc : Account} (h : acc.balance = w.bal a) :
    (w.setAccount a (some acc)).bal = w.bal := by
  funext b
  rw [bal_setAccount]
  split_ifs with hb
  · subst hb; exact h
  · rfl

@[simp] lemma bal_setNonce (nonce : UInt64) : (w.setNonce K a nonce).bal = w.bal :=
  bal_setAccount_same w a (account_balance K w a)

@[simp] lemma bal_setCode (code : List UInt8) : (w.setCode K a code).bal = w.bal :=
  bal_setAccount_same w a (account_balance K w a)

@[simp] lemma bal_setState (key value : ℕ) : (w.setState K a key value).bal = w.bal :=
  bal_setAccount_same w a (account_balance K w a)

/-- `CreateAccount` carries the balance over. -/
@[simp] lemma bal_createAccount : (w.createAccount K a).bal = w.bal :=
  bal_setAccount_same w a rfl

lemma bal_suicide (b : Address) : (w.suicide a).bal b = if b = a then 0 else w.bal b := by
  unfold suicide
  split
  · rename_i hnone
    split_ifs with hb
    · subst hb; simp [bal, hnone]
    · rfl
  · rw [bal_setAccount]
    split_ifs <;> rfl

@[simp] lemma bal_addLog (thash : ℕ) (log : Log) : (w.addLog thash log).bal = w.bal := rfl

@[simp] lemma bal_addPreimage (hash : ℕ) (preimage : List UInt8) :
    (w.addPreimage hash preimage).bal = w.bal := by
  unfold addPreimage
  split <;> rfl

@[simp] lemma bal_addRefund (gas : ℕ) : (w.addRefund gas).bal = w.bal := rfl

namespace Drains

variable {K} {w w' w'' : World}

lemma of_bal (h : w'.bal = w.bal) : Drains w w' := fun hn =>
  ⟨fun a => h ▸ hn a, .of_eq h⟩

lemma refl (w : World) : Drains w w := of_bal rfl

lemma trans (h₁ : Drains w w') (h₂ : Drains w' w'') : Drains w w'' := fun hn =>
  have h₁' := h₁ hn
  have h₂' := h₂ h₁'.1
  ⟨h₂'.1, h₁'.2.trans h₂'.2⟩

/-- `Transfer` of a value the sender holds. -/
lemma transfer {s r : Address} {x : ℤ} (hx₀ : 0 ≤ x) (hx : x ≤ w.bal s) :
    Drains w ((w.subBalance K s x).addBalance K r x) := by
  intro hn
  have hbal : ∀ b, ((w.subBalance K s x).addBalance K r x).bal b =
      (if b = r then x else 0) + (if b = s then w.bal s - x else w.bal b) := by
    intro b
    rw [bal_addBalance]
    by_cases hbr : b = r
    · subst hbr
      rw [if_pos rfl, if_pos rfl, bal_subBalance, add_comm]
    · rw [if_neg hbr, if_neg hbr, zero_add, bal_subBalance]
  refine ⟨fun b => ?_, SumLe.of_pair (a := s) (b := r) (fun c hs hr => ?_) ?_⟩
  · rw [hbal]
    have := hn b
    split_ifs <;> omega
  · rw [hbal, if_neg hr, if_neg hs, zero_add]
  · by_cases hsr : s = r
    · subst hsr
      simp only [hbal, if_true]
      omega
    · simp only [hbal, hsr, Ne.symm hsr, if_true, if_false]
      omega

/-- The balance of `s` moved to `b` and `s` emptied; nothing is left of it when `b` is
`s` itself. -/
lemma of_move {s b : Address}
    (hbal : ∀ c, w'.bal c = if c = s then 0 else if c = b then w.bal b + w.bal s else w.bal c) :
    Drains w w' := by
  intro hn
  refine ⟨fun c => ?_, SumLe.of_pair (a := s) (b := b) (fun c hs hb => ?_) ?_⟩
  · rw [hbal]
    split_ifs with h₁ h₂
    · exact le_rfl
    · subst h₂
      have := hn c
      have := hn s
      omega
    · exact hn c
  · rw [hbal, if_neg hs, if_neg hb]
  · have := hn s
    by_cases hsb : s = b
    · subst hsb
      simp only [hbal, if_true]
      omega
    · simp only [hbal, hsb, Ne.symm hsb, if_true, if_false]
      omega

/-- `SELFDESTRUCT`: the balance goes to the beneficiary, then the account is emptied. -/
lemma selfdestruct (b self : Address) :
    Drains w ((w.addBalance K b (w.bal self)).suicide self) :=
  of_move fun c => by rw [bal_suicide, bal_addBalance]

/-- Deleting an account, with what it holds. -/
lemma delete (a : Address) : Drains w (w.setAccount a none) := by
  intro hn
  have hbal : ∀ c, (w.setAccount a none).bal c = if c = a then 0 else w.bal c := by
    intro c
    rw [bal_setAccount]
    rfl
  refine ⟨fun c => ?_, SumLe.of_single (a := a) (fun c hc => ?_) ?_⟩
  · rw [hbal]
    split_ifs
    · exact le_rfl
    · exact hn c
  · rw [hbal, if_neg hc]
  · rw [hbal, if_pos rfl]
    exact hn a

end Drains

end World

namespace StateDb

lemma getBalance_eq_bal (s : StateDb) (a : Address) : s.getBalance a = s.world.bal a := by
  unfold getBalance World.bal
  rw [world_accounts]
  cases s.getStateObject a <;> rfl

variable (K : Hash256) (s : StateDb) (a : Address)

lemma getBalance_addBalance (x : ℤ) (b : Address) :
    (s.addBalance K a x).getBalance b = s.getBalance b + if b = a then x else 0 := by
  rw [getBalance_eq_bal, getBalance_eq_bal, world_addBalance, World.bal_addBalance]
  split_ifs with h
  · rw [h]
  · rw [add_zero]

@[simp] lemma bal_createAccount : (s.createAccount K a).world.bal = s.world.bal := by
  rw [world_createAccount, World.bal_createAccount]

@[simp] lemma bal_setNonceOf (nonce : UInt64) : (s.setNonceOf K a nonce).world.bal = s.world.bal := by
  rw [world_setNonceOf, World.bal_setNonce]

@[simp] lemma bal_setCodeOf (code : List UInt8) : (s.setCodeOf K a code).world.bal = s.world.bal := by
  rw [world_setCodeOf, World.bal_setCode]

@[simp] lemma bal_addRefund (gas : ℕ) : (s.addRefund gas).world.bal = s.world.bal := by
  rw [world_addRefund, World.bal_addRefund]

/-- A fold of steps that may fail, each of which drains. -/
lemma drains_foldl {α : Type*} (f : Option StateDb → α → Option StateDb)
    (hnone : ∀ a, f none a = none)
    (hstep : ∀ x a y, f (some x) a = some y → World.Drains x.world y.world) :
    ∀ (l : List α) (x y : StateDb), l.foldl f (some x) = some y → World.Drains x.world y.world
  | [], x, y, h => by
    cases h
    exact .refl _
  | a :: l, x, y, h => by
    rw [List.foldl_cons] at h
    cases hx : f (some x) a with
    | none =>
      rw [hx] at h
      have hfail : ∀ l : List α, l.foldl f none = none := fun l => by
        induction l with
        | nil => rfl
        | cons b l ih => rw [List.foldl_cons, hnone, ih]
      rw [hfail] at h
      cases h
    | some z =>
      rw [hx] at h
      exact (hstep x a z hx).trans (drains_foldl f hnone hstep l z y h)

/-- `Finalise` deletes self-destructed (and, with the flag, empty) accounts with what they
hold; the journal and the refund it clears are not balances. -/
lemma finalise_drains {t : StateDb} {deleteEmptyObjects : Bool}
    (h : s.finalise K deleteEmptyObjects = some t) : World.Drains s.world t.world := by
  unfold finalise at h
  obtain ⟨u, hu, rfl⟩ := Option.map_eq_some_iff.1 h
  refine World.Drains.trans (drains_foldl _ (fun _ => rfl) ?_ _ s u hu) (.of_bal rfl)
  intro x a y hy
  simp only [bind, Option.bind, pure] at hy
  cases ho : x.stateObjects a with
  | none => simp [ho] at hy
  | some o =>
    simp only [ho] at hy
    split_ifs at hy
    · cases hy
      rw [world_setStateObject, if_pos rfl]
      exact .delete a
    · cases hy
      exact .refl _

end StateDb

end GoXdn.State

namespace GoXdn.Vm

open GoStd State StateDb

/-- What a step of the EVM may do to the balances. -/
def Evm.Drains (e e' : Evm) : Prop := World.Drains e.stateDb.world e'.stateDb.world

namespace Evm.Drains

variable {e e' e'' : Evm}

lemma of_bal (h : e'.stateDb.world.bal = e.stateDb.world.bal) : e.Drains e' := World.Drains.of_bal h

lemma refl (e : Evm) : e.Drains e := World.Drains.refl _

lemma trans (h₁ : e.Drains e') (h₂ : e'.Drains e'') : e.Drains e'' := World.Drains.trans h₁ h₂

/-- The return data is not what `Drains` looks at. -/
lemma withReturnData (h : e.Drains e') (c : Prop) [Decidable c] (d : List UInt8) :
    e.Drains (if c then { e' with returnData := d } else e') := by
  split_ifs
  · exact h
  · exact h

end Evm.Drains

/-- `Transfer` of a value the sender holds. -/
lemma drains_transfer (K : Hash256) (s : StateDb) (sender recipient : Address) (value : ℕ)
    (hv : (value : ℤ) ≤ s.getBalance sender) :
    World.Drains s.world (transfer K s sender recipient value).world := by
  unfold transfer
  rw [world_addBalance, world_subBalance]
  rw [getBalance_eq_bal] at hv
  exact .transfer (Nat.cast_nonneg _) hv

/-- `Transfer` from a state with the balances of `s`, of a value the sender holds in `s`. -/
lemma drains_transfer_of_bal (K : Hash256) {s t : StateDb} (hb : t.world.bal = s.world.bal)
    (sender recipient : Address) (value : ℕ) (hv : (value : ℤ) ≤ s.getBalance sender) :
    World.Drains s.world (transfer K t sender recipient value).world := by
  have hv' : (value : ℤ) ≤ t.getBalance sender := by
    rwa [getBalance_eq_bal, hb, ← getBalance_eq_bal]
  exact (World.Drains.of_bal hb).trans (drains_transfer K t sender recipient value hv')

lemma ExecEffect.drains {K : Hash256} {op : Op} {s t : StateDb} (he : ExecEffect K op s t) :
    World.Drains s.world t.world := by
  cases he with
  | keep => exact .refl _
  | preimage => exact .of_bal (by rw [world_addPreimage, World.bal_addPreimage])
  | store => exact .of_bal (by rw [world_setStateOf, World.bal_setState])
  | log => exact .of_bal (by rw [world_addLog, World.bal_addLog])
  | selfdestruct _ a self =>
    rw [world_suicide, world_addBalance, getBalance_eq_bal]
    exact .selfdestruct a self

section Drain

variable (env : Env)

/-- A frame is charged on the state it came with, or that with a refund added. -/
lemma drains_of_refund {evm evm' : Evm} {P : ℕ → Prop}
    (hdb : evm'.stateDb = evm.stateDb ∨ ∃ n, P n ∧ evm'.stateDb = evm.stateDb.addRefund n) :
    evm.Drains evm' := by
  rcases hdb with hdb | ⟨n, -, hdb⟩
  · exact .of_bal (by rw [hdb])
  · exact .of_bal (by rw [hdb, bal_addRefund])

lemma chargeGas_drains {evm evm' : Evm} {f f' : Frame} {op : Op} {memorySize : UInt64}
    (h : chargeGas env evm f op memorySize = .ok (evm', f')) : evm.Drains evm' :=
  drains_of_refund ((chargeGas_stateDb env).2 evm' f' h).2.1

lemma chargeGas_error_drains {evm evm' : Evm} {f : Frame} {op : Op} {memorySize : UInt64}
    (h : chargeGas env evm f op memorySize = .error evm') : evm.Drains evm' :=
  drains_of_refund ((chargeGas_stateDb env).1 evm' h).2

/-- Every function of the mutual block, at one fuel, keeps the balances non-negative and raises
no total, from any state whose revisions are below its next id. -/
structure DrainSound (fuel : ℕ) : Prop where
  call : ∀ (evm : Evm) (caller addr : Address) (input : List UInt8) (gas : UInt64) (value : ℕ),
    evm.stateDb.RevisionsBelow → evm.Drains (call env fuel evm caller addr input gas value).1
  callCode : ∀ (evm : Evm) (caller addr : Address) (input : List UInt8) (gas : UInt64)
    (value : ℕ), evm.stateDb.RevisionsBelow →
    evm.Drains (callCode env fuel evm caller addr input gas value).1
  delegateCall : ∀ (evm : Evm) (parent : Contract) (addr : Address) (input : List UInt8)
    (gas : UInt64), evm.stateDb.RevisionsBelow →
    evm.Drains (delegateCall env fuel evm parent addr input gas).1
  staticCall : ∀ (evm : Evm) (caller addr : Address) (input : List UInt8) (gas : UInt64),
    evm.stateDb.RevisionsBelow → evm.Drains (staticCall env fuel evm caller addr input gas).1
  create : ∀ (evm : Evm) (caller : Address) (code : List UInt8) (gas : UInt64) (value : ℕ),
    evm.stateDb.RevisionsBelow → evm.Drains (create env fuel evm caller code gas value).1
  run : ∀ (evm : Evm) (contract : Contract) (input : List UInt8),
    evm.stateDb.RevisionsBelow → evm.Drains (run env fuel evm contract input).1
  loop : ∀ (evm : Evm) (f : Frame), evm.stateDb.RevisionsBelow →
    evm.Drains (loop env fuel evm f).1
  step : ∀ (evm : Evm) (f : Frame) (op : Op), evm.stateDb.RevisionsBelow →
    evm.Drains (step env fuel evm f op).1

lemma drainSound_zero : DrainSound env 0 where
  call _ _ _ _ _ _ _ := by rw [call]; exact .refl _
  callCode _ _ _ _ _ _ _ := by rw [callCode]; exact .refl _
  delegateCall _ _ _ _ _ _ := by rw [delegateCall]; exact .refl _
  staticCall _ _ _ _ _ _ := by rw [staticCall]; exact .refl _
  create _ _ _ _ _ _ := by rw [create]; exact .refl _
  run _ _ _ _ := by rw [run]; exact .refl _
  loop _ _ _ := by rw [loop]; exact .refl _
  step _ _ _ _ := by rw [step]; exact .refl _

/-- `Create`'s code storage keeps the balances; on an error it goes back to the snapshot. -/
lemma createFinish_drains {s : StateDb} (hs : s.RevisionsBelow) {evm : Evm}
    (h : s.snapshot.1.Within evm.stateDb) (hd : World.Drains s.world evm.stateDb.world)
    (contractAddr : Address) (contract : Contract) (ret : List UInt8) (err : Option VmError) :
    World.Drains s.world (createFinish env evm s.snapshot.2 contractAddr contract ret err).1.stateDb.world := by
  unfold createFinish
  have hst : World.Drains s.world (storeCode env evm contractAddr contract ret err).1.stateDb.world := by
    unfold storeCode
    split_ifs
    · split
      · exact hd.trans (.of_bal (bal_setCodeOf _ _ _ _))
      · exact hd
    · exact hd
  have h₁ := (storeCode_within env h contractAddr contract ret err).1
  rcases hp : storeCode env evm contractAddr contract ret err with ⟨evm₁, contract₁, err₁⟩
  rw [hp] at hst h₁
  obtain ⟨t, ht, -, hw⟩ := h₁.revert_snapshot hs
  dsimp only at hst ⊢
  split_ifs
  all_goals first
    | exact hst
    | (simp only [ht]; exact .of_bal (by rw [hw]))

section Succ

variable {env} {fuel : ℕ} (ih : DrainSound env fuel)
include ih

/-- A message call's run from its snapshot, then back to the snapshot on an error. -/
lemma run_revert_drains {evm : Evm} (hs : evm.stateDb.RevisionsBelow) {evm₁ : Evm}
    (h₁ : evm.stateDb.snapshot.1.Within evm₁.stateDb) (hd : evm.Drains evm₁) (contract : Contract)
    (input : List UInt8) :
    evm.Drains (revertOnError (run env fuel evm₁ contract input).1 evm.stateDb.snapshot.2
      (run env fuel evm₁ contract input).2.1 (run env fuel evm₁ contract input).2.2.1
      (run env fuel evm₁ contract input).2.2.2).1 := by
  have hs₁ := ((Within.refl _).snapshot.trans h₁).revisionsBelow hs
  cases herr : (run env fuel evm₁ contract input).2.2.2 with
  | none => exact hd.trans (ih.run evm₁ contract input hs₁)
  | some e =>
    exact .of_bal (by rw [(revertOnError_some hs (run_within env fuel hs h₁ contract input) _ _ e).1])

lemma call_drains (evm : Evm) (caller addr : Address) (input : List UInt8) (gas : UInt64)
    (value : ℕ) (hs : evm.stateDb.RevisionsBelow) :
    evm.Drains (call env (fuel + 1) evm caller addr input gas value).1 := by
  simp only [call]
  split_ifs with h₁ h₂ h₃
  · exact .refl _
  · exact .refl _
  · exact .refl _
  · exact .of_bal (congrArg World.bal (world_snapshot _))
  all_goals
    have hv : (value : ℤ) ≤ evm.stateDb.getBalance caller := by
      simpa [canTransfer] using h₃
    refine run_revert_drains ih hs ?_ ?_ _ _
  · exact within_transfer ((Within.refl _).createAccount env.keccak addr) caller addr value
  · have hc := drains_transfer env.keccak (evm.stateDb.snapshot.1.createAccount env.keccak addr)
      caller addr value (by rw [getBalance_eq_bal, bal_createAccount, world_snapshot,
        ← getBalance_eq_bal]; exact hv)
    have h₀ : World.Drains evm.stateDb.world
        (evm.stateDb.snapshot.1.createAccount env.keccak addr).world :=
      .of_bal (by rw [bal_createAccount, world_snapshot])
    exact h₀.trans hc
  · exact within_transfer (Within.refl _) caller addr value
  · have hc := drains_transfer env.keccak evm.stateDb.snapshot.1 caller addr value
      (by rw [getBalance_of_world (world_snapshot evm.stateDb) caller]; exact hv)
    rw [world_snapshot] at hc
    exact hc

lemma callCode_drains (evm : Evm) (caller addr : Address) (input : List UInt8) (gas : UInt64)
    (value : ℕ) (hs : evm.stateDb.RevisionsBelow) :
    evm.Drains (callCode env (fuel + 1) evm caller addr input gas value).1 := by
  simp only [callCode]
  split_ifs
  · exact .refl _
  · exact .refl _
  · exact .refl _
  · refine run_revert_drains ih hs ?_ ?_ _ _
    · exact Within.refl _
    · exact .of_bal (congrArg World.bal (world_snapshot _))

lemma delegateCall_drains (evm : Evm) (parent : Contract) (addr : Address) (input : List UInt8)
    (gas : UInt64) (hs : evm.stateDb.RevisionsBelow) :
    evm.Drains (delegateCall env (fuel + 1) evm parent addr input gas).1 := by
  simp only [delegateCall]
  split_ifs
  · exact .refl _
  · exact .refl _
  · refine run_revert_drains ih hs ?_ ?_ _ _
    · exact Within.refl _
    · exact .of_bal (congrArg World.bal (world_snapshot _))

lemma staticCall_drains (evm : Evm) (caller addr : Address) (input : List UInt8) (gas : UInt64)
    (hs : evm.stateDb.RevisionsBelow) :
    evm.Drains (staticCall env (fuel + 1) evm caller addr input gas).1 := by
  simp only [staticCall]
  split_ifs
  · exact .refl _
  · exact .refl _
  all_goals
    refine run_revert_drains ih hs ?_ ?_ _ _
    · exact Within.refl _
    · exact .of_bal (congrArg World.bal (world_snapshot _))

/-- `Create`'s run of the init code from its snapshot, taken after the nonce bump, then
`createFinish`. -/
lemma run_createFinish_drains {evm : Evm} (hs : evm.stateDb.RevisionsBelow) {s : StateDb}
    (hn : evm.stateDb.Within s) (hsb : s.world.bal = evm.stateDb.world.bal) {evm₁ : Evm}
    (h₁ : s.snapshot.1.Within evm₁.stateDb) (hd : World.Drains s.world evm₁.stateDb.world)
    (contractAddr : Address) (contract : Contract) :
    evm.Drains (createFinish env (run env fuel evm₁ contract []).1 s.snapshot.2 contractAddr
      (run env fuel evm₁ contract []).2.1 (run env fuel evm₁ contract []).2.2.1
      (run env fuel evm₁ contract []).2.2.2).1 := by
  have hs₀ := hn.revisionsBelow hs
  have hs₁ : evm₁.stateDb.RevisionsBelow :=
    ((Within.snapshot (Within.refl _)).trans h₁).revisionsBelow hs₀
  have hr := ih.run evm₁ contract [] hs₁
  exact World.Drains.trans (.of_bal hsb)
    (createFinish_drains env hs₀ (run_within env fuel hs₀ h₁ contract []) (hd.trans hr) _ _ _ _)

lemma create_drains (evm : Evm) (caller : Address) (code : List UInt8) (gas : UInt64)
    (value : ℕ) (hs : evm.stateDb.RevisionsBelow) :
    evm.Drains (create env (fuel + 1) evm caller code gas value).1 := by
  simp only [create]
  have hn := (Within.refl evm.stateDb).setNonceOf env.keccak caller
    (evm.stateDb.getNonce caller + 1)
  set s := evm.stateDb.setNonceOf env.keccak caller (evm.stateDb.getNonce caller + 1) with hs_def
  have hsb : s.world.bal = evm.stateDb.world.bal := bal_setNonceOf _ _ _ _
  split_ifs with h₁ h₂ _ h₄ h₅
  · exact .refl _
  · exact .refl _
  · exact .of_bal hsb
  all_goals
    have hv : (value : ℤ) ≤ evm.stateDb.getBalance caller := by
      simpa [canTransfer] using h₂
  · exact drains_transfer_of_bal env.keccak (by simp [hsb]) _ _ _ hv
  · exact drains_transfer_of_bal env.keccak (by simp [hsb]) _ _ _ hv
  · refine run_createFinish_drains ih hs hn hsb ?_ ?_ _ _
    · exact within_transfer (((Within.refl _).createAccount _ _).setNonceOf _ _ _) _ _ _
    · exact drains_transfer_of_bal env.keccak (by simp) _ _ _ (by rwa [getBalance_eq_bal, hsb,
        ← getBalance_eq_bal])
  · refine run_createFinish_drains ih hs hn hsb ?_ ?_ _ _
    · exact within_transfer ((Within.refl _).createAccount _ _) _ _ _
    · exact drains_transfer_of_bal env.keccak (by simp) _ _ _ (by rwa [getBalance_eq_bal, hsb,
        ← getBalance_eq_bal])

lemma run_drains (evm : Evm) (contract : Contract) (input : List UInt8)
    (hs : evm.stateDb.RevisionsBelow) :
    evm.Drains (run env (fuel + 1) evm contract input).1 := by
  simp only [run]
  split
  · split
    · split <;> exact .refl _
    · exact .refl _
  · split_ifs
    · exact .refl _
    · exact ih.loop { evm with depth := evm.depth + 1, returnData := [] } _ hs

lemma loop_drains (evm : Evm) (f : Frame) (hs : evm.stateDb.RevisionsBelow) :
    evm.Drains (loop env (fuel + 1) evm f).1 := by
  simp only [loop]
  split
  · exact .refl _
  next op _ =>
  split
  · exact .refl _
  · exact .refl _
  · exact .refl _
  next memorySize _ _ _ =>
  split
  next evm' hc => exact chargeGas_error_drains env hc
  next evm₁ f₁ hc =>
    have hs₁ := (chargeGas_ok_reaches env hc).revisionsBelow hs
    set f₂ := if 0 < memorySize then { f₁ with mem := f₁.mem.resize memorySize.toNat } else f₁
    have h₂ := (chargeGas_drains env hc).trans (ih.step evm₁ f₂ op hs₁)
    split
    · exact h₂.withReturnData (op.returns = true) _
    · by_cases hrev : op.reverts = true
      · rw [if_pos hrev]
        exact h₂.withReturnData (op.returns = true) _
      rw [if_neg hrev]
      by_cases hhalt : op.halts = true
      · rw [if_pos hhalt]
        exact h₂.withReturnData (op.returns = true) _
      · rw [if_neg hhalt]
        have hs₂ := (((sound env fuel).step evm₁ f₂ op hs₁).withReturnData (op.returns = true)
          (step env fuel evm₁ f₂ op).2.2.1).revisionsBelow hs₁
        exact (h₂.withReturnData (op.returns = true) _).trans (ih.loop _ _ hs₂)

lemma step_drains (evm : Evm) (f : Frame) (op : Op) (hs : evm.stateDb.RevisionsBelow) :
    evm.Drains (step env (fuel + 1) evm f op).1 := by
  unfold GoXdn.Vm.step
  dsimp only
  split
  case h_6 =>
    split
    · rename_i evm' f' res hx
      exact (execute_effect hx).1.drains
    · exact .refl _
  all_goals
    split
    · exact .refl _
    try rw [afterCall_fst]
  · exact ih.call _ _ _ _ _ _ hs
  · exact ih.callCode _ _ _ _ _ _ hs
  · exact ih.delegateCall _ _ _ _ _ hs
  · exact ih.staticCall _ _ _ _ _ hs
  · exact ih.create _ _ _ _ _ hs

end Succ

/-- No function of the mutual block, at any fuel, makes a balance negative or raises the total. -/
theorem drainSound : ∀ fuel, DrainSound env fuel
  | 0 => drainSound_zero env
  | fuel + 1 =>
    have ih := drainSound fuel
    { call := call_drains ih
      callCode := callCode_drains ih
      delegateCall := delegateCall_drains ih
      staticCall := staticCall_drains ih
      create := create_drains ih
      run := run_drains ih
      loop := loop_drains ih
      step := step_drains ih }

end Drain

end GoXdn.Vm
