import Mathlib
import GoXdn.Core.StateTransition
import GoXdn.Proofs.Gas
import GoXdn.Proofs.Balances
import GoXdn.Proofs.CallFailure
import GoXdn.Proofs.Dao

/-!
# What a block's transactions pay

`ApplyMessage` takes the whole gas allowance from the sender before the EVM runs, gives the
unused gas and the refund back after it, and pays the coinbase for the gas used; the refund is
at most half of what the message consumed, and the gas pool gets back what was not used.
Across `Process`, each receipt's gas is at most its transaction's, the running total is their
sum and stays within the block's gas limit, and no total of balances rises: the fees only move
value, the EVM creates none, and `Finalise` deletes what self-destructed accounts still hold.
-/

namespace GoXdn.State.World.Drains

open GoStd

variable {w₀ w₁ w₂ w₃ : World}

/-- The fee pattern: `M` is taken from `s`, the run drains, then `M - u` goes back to `s` and
`u` to `c`. -/
lemma fees {s c : Address} {M u : ℤ} (hM : M ≤ w₀.bal s) (hu₀ : 0 ≤ u) (huM : u ≤ M)
    (h₁ : w₁.bal = Function.update w₀.bal s (w₀.bal s - M)) (h₂ : Drains w₁ w₂)
    (h₃ : w₃.bal = fun b => w₂.bal b + (if b = s then M - u else 0) + (if b = c then u else 0)) :
    Drains w₀ w₃ := by
  intro hn
  have hn₁ : w₁.NonNeg := by
    intro b
    rw [h₁, Function.update_apply]
    split_ifs
    · linarith
    · exact hn b
  obtain ⟨hn₂, hs₂⟩ := h₂ hn₁
  have hw₀ : w₀.bal = w₁.bal + fun b => if b = s then M else 0 := by
    funext b
    simp only [Pi.add_apply, h₁, Function.update_apply]
    split_ifs with hb
    · subst hb; ring
    · ring
  refine ⟨fun b => ?_, ?_⟩
  · have := hn₂ b
    simp only [h₃]
    split_ifs <;> linarith
  · rw [hw₀]
    refine (hs₂.add_right _).trans (SumLe.of_pair (a := s) (b := c) (fun b hbs hbc => ?_) ?_)
    · simp [h₃, hbs, hbc]
    · by_cases hsc : s = c
      · subst hsc
        simp only [h₃, Pi.add_apply, if_true]
        linarith
      · simp only [h₃, Pi.add_apply, hsc, Ne.symm hsc, if_true, if_false]
        linarith

end GoXdn.State.World.Drains

namespace GoXdn.State.StateDb

@[simp] lemma refund_addBalance (K : GoStd.Hash256) (s : StateDb) (a : Address) (x : ℤ) :
    (s.addBalance K a x).refund = s.refund :=
  congrArg World.refund (world_addBalance K s a x)

@[simp] lemma world_prepare (db : StateDb) (thash bhash ti : ℕ) :
    (db.prepare thash bhash ti).world = db.world := rfl

lemma revisionsBelow_prepare {db : StateDb} (hs : db.RevisionsBelow) (thash bhash ti : ℕ) :
    (db.prepare thash bhash ti).RevisionsBelow := hs

/-- `Finalise` clears the journal and the revisions. -/
lemma revisionsBelow_finalise {K : GoStd.Hash256} {db db' : StateDb} {d : Bool}
    (h : db.finalise K d = some db') : db'.RevisionsBelow := by
  unfold finalise at h
  obtain ⟨u, -, rfl⟩ := Option.map_eq_some_iff.1 h
  intro r hr
  cases hr

end GoXdn.State.StateDb

namespace GoXdn.Core

open GoStd State StateDb Vm

namespace StateTransition

variable (env : Env) (st : StateTransition)

@[simp] lemma withState_msg (db : StateDb) : (st.withState db).msg = st.msg := rfl
@[simp] lemma withState_gp (db : StateDb) : (st.withState db).gp = st.gp := rfl
@[simp] lemma withState_gas (db : StateDb) : (st.withState db).gas = st.gas := rfl
@[simp] lemma withState_initialGas (db : StateDb) : (st.withState db).initialGas = st.initialGas :=
  rfl
@[simp] lemma withState_stateDb (db : StateDb) : (st.withState db).evm.stateDb = db := rfl

/-- `from` writes back the state, with the sender's account created when it is missing. -/
lemma from'_eq : st.from' env = st.withState (if !st.evm.stateDb.exist st.msg.fromAddr then
    st.evm.stateDb.createAccount env.keccak st.msg.fromAddr else st.evm.stateDb) := by
  unfold from'
  split_ifs <;> rfl

@[simp] lemma from'_msg : (st.from' env).msg = st.msg := by rw [from'_eq]; rfl
@[simp] lemma from'_gp : (st.from' env).gp = st.gp := by rw [from'_eq]; rfl
@[simp] lemma from'_gas : (st.from' env).gas = st.gas := by rw [from'_eq]; rfl
@[simp] lemma from'_initialGas : (st.from' env).initialGas = st.initialGas := by rw [from'_eq]; rfl

@[simp] lemma bal_from' : (st.from' env).evm.stateDb.world.bal = st.evm.stateDb.world.bal := by
  rw [from'_eq, withState_stateDb]
  split_ifs <;> simp

lemma within_from' : st.evm.stateDb.Within (st.from' env).evm.stateDb := by
  rw [from'_eq, withState_stateDb]
  split_ifs
  · exact (Within.refl _).createAccount _ _
  · exact Within.refl _

lemma useGas_eq_ok {amount : UInt64} {st' : StateTransition} (h : st.useGas amount = .ok st') :
    amount ≤ st.gas ∧ st' = { st with gas := st.gas - amount } := by
  unfold useGas at h
  split_ifs at h with hlt
  cases h
  exact ⟨UInt64.not_lt.1 hlt, rfl⟩

/-- `buyGas`: the sender, whose account `from` makes sure of, pays for the whole allowance out
of what it holds, and the pool gives the allowance. -/
lemma buyGas_eq_ok {st' : StateTransition} (h : st.buyGas env = .ok st') :
    st.msg.gas < 2 ^ 64 ∧ st.msg.gas ≤ st.gp ∧
      ((st.msg.gas * st.msg.gasPrice : ℕ) : ℤ) ≤ st.evm.stateDb.world.bal st.msg.fromAddr ∧
      st'.msg = st.msg ∧ st'.gp = st.gp - st.msg.gas ∧
      st'.gas = st.gas + UInt64.ofNat st.msg.gas ∧ st'.initialGas = st.msg.gas ∧
      st'.evm.stateDb = (st.from' env).evm.stateDb.subBalance env.keccak st.msg.fromAddr
        (st.msg.gas * st.msg.gasPrice : ℕ) := by
  unfold buyGas at h
  dsimp only at h
  split_ifs at h with h₁ h₂
  split at h
  · cases h
  · rename_i gp hgp
    unfold subGas at hgp
    split_ifs at hgp with h₃
    cases hgp
    cases h
    simp only [from'_msg, from'_gp] at h₂ h₃
    have hbal : ((st.msg.gas * st.msg.gasPrice : ℕ) : ℤ) ≤ st.evm.stateDb.world.bal st.msg.fromAddr := by
      rw [← bal_from' env, ← getBalance_eq_bal]
      exact not_lt.1 h₂
    exact ⟨not_le.1 h₁, not_lt.1 h₃, hbal, by simp, by simp, by simp, by simp, by simp⟩

/-- `preCheck` with the nonces right is `buyGas` after `from`. -/
lemma preCheck_eq_ok {st' : StateTransition} (h : st.preCheck env = .ok st') :
    (st.from' env).buyGas env = .ok st' := by
  unfold preCheck at h
  dsimp only at h
  split_ifs at h
  exact h

/-- The message's run: the EVM's `Create`, or its `Call` after the nonce bump and the
recipient's account made sure of. It keeps the message, the pool and the allowance, and hands
back no more gas than it was given. -/
lemma runMessage_gas (hg : env.config.disableGasMetering = false) (fuel : ℕ) :
    (st.runMessage env fuel).1.msg = st.msg ∧ (st.runMessage env fuel).1.gp = st.gp ∧
      (st.runMessage env fuel).1.initialGas = st.initialGas ∧
      (st.runMessage env fuel).1.gas ≤ st.gas := by
  unfold runMessage
  split
  · exact ⟨rfl, rfl, rfl, (gasSound env hg fuel).create _ _ _ _ _⟩
  · rename_i a hto
    simp only [to', withState_msg, hto]
    split_ifs
    · exact ⟨rfl, rfl, rfl, (gasSound env hg fuel).call _ _ _ _ _ _⟩
    · exact ⟨rfl, rfl, rfl, (gasSound env hg fuel).call _ _ _ _ _ _⟩

/-- The message's run drains. -/
lemma runMessage_drains (fuel : ℕ) (hs : st.evm.stateDb.RevisionsBelow) :
    World.Drains st.evm.stateDb.world (st.runMessage env fuel).1.evm.stateDb.world := by
  unfold runMessage
  split
  · exact (drainSound env fuel).create _ _ _ _ _ hs
  · rename_i a hto
    have hn := (Within.refl st.evm.stateDb).setNonceOf env.keccak st.msg.fromAddr
      (st.evm.stateDb.getNonce st.msg.fromAddr + 1)
    simp only [to', withState_msg, hto]
    split_ifs
    · refine World.Drains.trans (.of_bal (by simp)) ((drainSound env fuel).call _ _ _ _ _ _ ?_)
      exact ((hn.createAccount _ _).revisionsBelow hs)
    · refine World.Drains.trans (.of_bal (by simp)) ((drainSound env fuel).call _ _ _ _ _ _ ?_)
      exact hn.revisionsBelow hs

@[simp] lemma withState_gasUsed (db : StateDb) : (st.withState db).gasUsed = st.gasUsed := rfl

@[simp] lemma from'_gasUsed : (st.from' env).gasUsed = st.gasUsed := by simp [gasUsed]

@[simp] lemma refund_from' : (st.from' env).evm.stateDb.refund = st.evm.stateDb.refund := by
  rw [from'_eq, withState_stateDb]
  split_ifs
  · exact congrArg World.refund (world_createAccount env.keccak st.evm.stateDb _)
  · rfl

/-- `refundGas` gives the sender the gas left and the refund at the gas price, the refund
counter capped at half the gas used, and the pool the gas then left. -/
lemma refundGas_spec :
    (st.refundGas env).msg = st.msg ∧ (st.refundGas env).initialGas = st.initialGas ∧
      (st.refundGas env).gas =
        st.gas + UInt64.ofNat (min (st.gasUsed / 2) (st.evm.stateDb.refund : ℤ)).natAbs ∧
      (st.refundGas env).gp = st.gp + (st.refundGas env).gas.toNat ∧
      (st.refundGas env).evm.stateDb.world.bal = fun b => st.evm.stateDb.world.bal b +
        if b = st.msg.fromAddr then (st.gas.toNat * st.msg.gasPrice : ℤ) +
          min (st.gasUsed / 2) (st.evm.stateDb.refund : ℤ) * st.msg.gasPrice else 0 := by
  unfold refundGas
  dsimp only
  refine ⟨by simp, by simp, by simp, by simp, ?_⟩
  funext b
  simp only [withState_stateDb, withState_gasUsed, world_addBalance, World.bal_addBalance,
    bal_from', from'_msg, from'_gas, from'_gasUsed, refund_addBalance, refund_from', withState_msg]
  split_ifs with hb
  · subst hb; ring
  · ring

/-- The refund `min (gasUsed / 2) refund` is non-negative, at most half the gas used, and
added to the gas left without wrapping. -/
lemma refund_bounds {gas : UInt64} {M : ℕ} {R c : ℤ} (hR : R = min (((M : ℤ) - gas.toNat) / 2) c)
    (hc : 0 ≤ c) (hM : M < 2 ^ 64) (hg : gas.toNat ≤ M) :
    0 ≤ R ∧ R ≤ ((M : ℤ) - gas.toNat) / 2 ∧
      ((gas + UInt64.ofNat R.natAbs).toNat : ℤ) = gas.toNat + R := by
  have h₀ : 0 ≤ R := by
    rw [hR]
    exact le_min (Int.ediv_nonneg (by omega) (by norm_num)) hc
  have h₁ : R ≤ ((M : ℤ) - gas.toNat) / 2 := hR ▸ min_le_left _ _
  have h₂ : (R.natAbs : ℤ) = R := Int.natAbs_of_nonneg h₀
  have h₃ : gas.toNat + R.natAbs < 2 ^ 64 := by
    have : (R.natAbs : ℤ) ≤ M - gas.toNat := by omega
    omega
  have h₄ : R.natAbs < UInt64.size := by rw [UInt64.size]; omega
  refine ⟨h₀, h₁, ?_⟩
  rw [UInt64.toNat_add, UInt64.toNat_ofNat_of_lt' h₄, Nat.mod_eq_of_lt h₃, Nat.cast_add, h₂]

/-- `TransitionDb` succeeds past `preCheck`, the intrinsic gas and a run without
`ErrInsufficientBalance`; its state and result are those of the run, the refund and the
coinbase's fee. -/
lemma transitionDb_eq_ok {fuel : ℕ} {st' : StateTransition} {res : TransitionResult}
    (h : st.transitionDb env fuel = .ok (st', res)) :
    ∃ st₀ st₁, st.preCheck env = .ok st₀ ∧
      intrinsicGas (st₀.from' env).msg.data (st₀.from' env).msg.toAddr.isNone
        env.rules.isHomestead < 2 ^ 64 ∧
      (st₀.from' env).useGas (UInt64.ofNat (intrinsicGas (st₀.from' env).msg.data
        (st₀.from' env).msg.toAddr.isNone env.rules.isHomestead)) = .ok st₁ ∧
      (st₁.runMessage env fuel).2.2 ≠ some .insufficientBalance ∧
      st' = ((st₁.runMessage env fuel).1.refundGas env).withState
        (((st₁.runMessage env fuel).1.refundGas env).evm.stateDb.addBalance env.keccak
          env.ctx.coinbase (((st₁.runMessage env fuel).1.refundGas env).gasUsed *
            ((st₁.runMessage env fuel).1.refundGas env).msg.gasPrice)) ∧
      res = ⟨(st₁.runMessage env fuel).2.1, (st₁.runMessage env fuel).1.gasUsed,
        ((st₁.runMessage env fuel).1.refundGas env).gasUsed, (st₁.runMessage env fuel).2.2.isSome⟩ := by
  unfold transitionDb at h
  split at h
  · cases h
  rename_i st₀ hpre
  dsimp only at h
  split_ifs at h with higas
  split at h
  · cases h
  rename_i st₁ huse
  split_ifs at h with hvm
  cases h
  exact ⟨st₀, st₁, hpre, not_le.1 higas, huse, hvm, rfl, rfl⟩

/-- Before the refund, `TransitionDb` from a fresh state transition has charged at least the
intrinsic gas, and at most the allowance. -/
lemma transitionDb_requiredGas (hg : env.config.disableGasMetering = false) {fuel : ℕ}
    (h0 : st.gas = 0) {st' : StateTransition} {res : TransitionResult}
    (h : st.transitionDb env fuel = .ok (st', res)) :
    (intrinsicGas st.msg.data st.msg.toAddr.isNone env.rules.isHomestead : ℤ) ≤ res.requiredGas ∧
      res.requiredGas ≤ st.msg.gas := by
  obtain ⟨st₀, st₁, hpre, higas, huse, -, -, rfl⟩ := transitionDb_eq_ok env st h
  obtain ⟨hM, -, -, hmsg₀, -, hgas₀, hinit₀, -⟩ :=
    buyGas_eq_ok env (st.from' env) (preCheck_eq_ok env st hpre)
  simp only [from'_msg, from'_gas, h0, zero_add] at hM hmsg₀ hgas₀ hinit₀
  rw [from'_msg, hmsg₀] at higas huse
  set igas := intrinsicGas st.msg.data st.msg.toAddr.isNone env.rules.isHomestead
  obtain ⟨higas₁, hst₁⟩ := useGas_eq_ok (st₀.from' env) huse
  have hinit₁ : st₁.initialGas = st.msg.gas := by rw [hst₁, from'_initialGas, hinit₀]
  have hgas₀' : (st₀.from' env).gas.toNat = st.msg.gas := by
    rw [from'_gas, hgas₀, UInt64.toNat_ofNat_of_lt' hM]
  have higasN := UInt64.toNat_ofNat_of_lt' higas
  have hgas₁ : st₁.gas.toNat + igas = st.msg.gas := by
    have := UInt64.le_iff_toNat_le.1 higas₁
    rw [hst₁, UInt64.toNat_sub_of_le _ _ higas₁]
    omega
  obtain ⟨-, -, hinit₂, hgas₂⟩ := runMessage_gas env st₁ hg fuel
  have hle := UInt64.le_iff_toNat_le.1 hgas₂
  dsimp only
  rw [gasUsed, hinit₂, hinit₁]
  omega

/-- What `ApplyMessage` charges around the EVM's run from `st₁`, the state after `buyGas` and
the intrinsic gas: the sender has paid for the whole allowance out of what it held before the
run, gets the unused part back after it, and the coinbase gets the used part; the run itself
drains. The refund is at most half of the gas used before it. -/
structure FeesCharged (env : Env) (fuel : ℕ) (pre : World) (msg : Message) (post : World)
    (res : TransitionResult) : Prop where
  paid : ((msg.gas * msg.gasPrice : ℕ) : ℤ) ≤ pre.bal msg.fromAddr
  run : ∃ st₁ : StateTransition, st₁.msg = msg ∧
    st₁.evm.stateDb.world.bal =
      Function.update pre.bal msg.fromAddr (pre.bal msg.fromAddr - (msg.gas * msg.gasPrice : ℕ)) ∧
    World.Drains st₁.evm.stateDb.world (st₁.runMessage env fuel).1.evm.stateDb.world ∧
    post.bal = fun b => (st₁.runMessage env fuel).1.evm.stateDb.world.bal b +
      (if b = msg.fromAddr then ((msg.gas : ℤ) - res.usedGas) * msg.gasPrice else 0) +
      (if b = env.ctx.coinbase then res.usedGas * msg.gasPrice else 0)
  usedGas_nonneg : 0 ≤ res.usedGas
  usedGas_le : res.usedGas ≤ msg.gas
  refund_nonneg : res.usedGas ≤ res.requiredGas
  refund_le : res.requiredGas - res.usedGas ≤ res.requiredGas / 2

/-- `TransitionDb` from a fresh state transition: the fees as `FeesCharged` says, and the pool
down by the gas used. -/
theorem transitionDb_accounts (hg : env.config.disableGasMetering = false) {fuel : ℕ}
    (hs : st.evm.stateDb.RevisionsBelow) (h0 : st.gas = 0) {st' : StateTransition}
    {res : TransitionResult} (h : st.transitionDb env fuel = .ok (st', res)) :
    FeesCharged env fuel st.evm.stateDb.world st.msg st'.evm.stateDb.world res ∧
      st'.msg = st.msg ∧ (st'.gp : ℤ) + res.usedGas = st.gp := by
  obtain ⟨st₀, st₁, hpre, -, huse, -, rfl, rfl⟩ := transitionDb_eq_ok env st h
  obtain ⟨hM, hgp, hpaid, hmsg₀, hgp₀, hgas₀, hinit₀, hdb₀⟩ :=
    buyGas_eq_ok env (st.from' env) (preCheck_eq_ok env st hpre)
  simp only [from'_msg, from'_gp, from'_gas, h0, zero_add] at hM hgp hpaid hmsg₀ hgp₀ hgas₀ hinit₀ hdb₀
  rw [bal_from'] at hpaid
  obtain ⟨higas₁, hst₁⟩ := useGas_eq_ok (st₀.from' env) huse
  have hmsg₁ : st₁.msg = st.msg := by rw [hst₁, from'_msg, hmsg₀]
  have hgp₁ : st₁.gp = st.gp - st.msg.gas := by rw [hst₁, from'_gp, hgp₀]
  have hinit₁ : st₁.initialGas = st.msg.gas := by rw [hst₁, from'_initialGas, hinit₀]
  have hgas₁ : st₁.gas.toNat ≤ st.msg.gas := by
    rw [hst₁, UInt64.toNat_sub_of_le _ _ higas₁, from'_gas, hgas₀, UInt64.toNat_ofNat_of_lt' hM]
    exact Nat.sub_le _ _
  have hbal₁ : st₁.evm.stateDb.world.bal = Function.update st.evm.stateDb.world.bal st.msg.fromAddr
      (st.evm.stateDb.world.bal st.msg.fromAddr - (st.msg.gas * st.msg.gasPrice : ℕ)) := by
    funext b
    rw [hst₁, bal_from', hdb₀, world_subBalance, World.bal_subBalance, bal_from', bal_from',
      Function.update_apply]
  have hs₁ : st₁.evm.stateDb.RevisionsBelow := by
    rw [hst₁]
    refine (((within_from' env _).trans ?_).trans (within_from' env st₀)).revisionsBelow hs
    rw [hdb₀]
    exact (within_from' env _).subBalance _ _ _
  obtain ⟨hmsg₂, hgp₂, hinit₂, hgas₂⟩ := runMessage_gas env st₁ hg fuel
  have hdr₂ := runMessage_drains env st₁ fuel hs₁
  obtain ⟨hmsg₃, hinit₃, hgas₃, hgp₃, hbal₃⟩ := refundGas_spec env (st₁.runMessage env fuel).1
  have hg₂ : (st₁.runMessage env fuel).1.gas.toNat ≤ st.msg.gas :=
    (UInt64.le_iff_toNat_le.1 hgas₂).trans hgas₁
  obtain ⟨hR₀, hR₁, hR₂⟩ := refund_bounds
    (R := min ((st₁.runMessage env fuel).1.gasUsed / 2) (st₁.runMessage env fuel).1.evm.stateDb.refund)
    (by rw [gasUsed, hinit₂, hinit₁]) (Int.natCast_nonneg _) hM hg₂
  rw [← hgas₃] at hR₂
  set st₂ := (st₁.runMessage env fuel).1 with hst₂
  set R := min (st₂.gasUsed / 2) (st₂.evm.stateDb.refund : ℤ) with hR
  have hused₂ : st₂.gasUsed = (st.msg.gas : ℤ) - st₂.gas.toNat := by
    rw [gasUsed, hinit₂, hinit₁]
  have hused₃ : (st₂.refundGas env).gasUsed = (st.msg.gas : ℤ) - (st₂.gas.toNat + R) := by
    rw [gasUsed, hinit₃, hinit₂, hinit₁, hR₂]
  dsimp only
  refine ⟨⟨hpaid, ⟨st₁, hmsg₁, hbal₁, hdr₂, ?_⟩, ?_, ?_, ?_, ?_⟩, ?_, ?_⟩
  · funext b
    simp only [withState_stateDb, world_addBalance, World.bal_addBalance, hbal₃,
      hmsg₂, hmsg₁, hused₃, hmsg₃]
    by_cases hc : b = env.ctx.coinbase
    · subst hc
      split_ifs <;> ring
    · rw [if_neg hc, if_neg hc]
      split_ifs <;> ring
  · simp only [hused₃]
    omega
  · simp only [hused₃]
    omega
  · simp only [hused₃, hused₂]
    omega
  · simp only [hused₃, hused₂]
    omega
  · rw [withState_msg, hmsg₃, hmsg₂, hmsg₁]
  · simp only [withState_gp, hused₃, hgp₃, hgp₂, hgp₁]
    rw [Nat.cast_add, Nat.cast_sub hgp, hR₂]
    ring

/-- The fees move value only: what the sender paid up front and did not get back is the
coinbase's, and the run in between drains. -/
lemma FeesCharged.drains {fuel : ℕ} {pre post : World} {msg : Message} {res : TransitionResult}
    (h : FeesCharged env fuel pre msg post res) : World.Drains pre post := by
  obtain ⟨st₁, -, hbal₁, hdr, hpost⟩ := h.run
  have hu : res.usedGas * msg.gasPrice ≤ ((msg.gas * msg.gasPrice : ℕ) : ℤ) := by
    push_cast
    exact mul_le_mul_of_nonneg_right h.usedGas_le (Int.natCast_nonneg _)
  refine World.Drains.fees (c := env.ctx.coinbase) h.paid
    (mul_nonneg h.usedGas_nonneg (Int.natCast_nonneg _)) hu hbal₁ hdr ?_
  rw [hpost]
  funext b
  push_cast
  split_ifs <;> ring

end StateTransition

/-- `ApplyMessage` charges as `FeesCharged` says, and takes the gas used from the pool. -/
lemma applyMessage_accounts (env : Env) (hg : env.config.disableGasMetering = false) {fuel : ℕ}
    {evm : Evm} (hs : evm.stateDb.RevisionsBelow) {msg : Message} {gp : ℕ}
    {st : StateTransition} {res : TransitionResult} (h : applyMessage env fuel evm msg gp = .ok (st, res)) :
    StateTransition.FeesCharged env fuel evm.stateDb.world msg st.evm.stateDb.world res ∧
      (st.gp : ℤ) + res.usedGas = gp := by
  obtain ⟨hf, -, hgp⟩ := StateTransition.transitionDb_accounts env _ hg hs rfl h
  exact ⟨hf, hgp⟩


/-- `ApplyTransaction`: the receipt's gas is what the message used, within its allowance, and
is added to the running total and taken from the pool; the state drains, finalised, and can
be reverted in no further. -/
lemma applyTransaction_accounts (env : Env) (hg : env.config.disableGasMetering = false)
    {fuel gp : ℕ} {db : StateDb} (hs : db.RevisionsBelow) {tx : Transaction} {usedGas : ℤ}
    {r : Receipt} {gp' : ℕ} {db' : StateDb} {usedGas' : ℤ}
    (h : applyTransaction env fuel gp db tx usedGas = .ok (r, gp', db', usedGas')) :
    0 ≤ r.gasUsed ∧ r.gasUsed ≤ tx.msg.gas ∧ r.cumulativeGasUsed = usedGas' ∧
      usedGas' = usedGas + r.gasUsed ∧ (gp' : ℤ) + r.gasUsed = gp ∧
      World.Drains db.world db'.world ∧ db'.RevisionsBelow := by
  unfold applyTransaction at h
  dsimp only at h
  split at h
  · cases h
  rename_i st res hmsg
  split at h
  · cases h
  rename_i db₁ hfin
  cases h
  obtain ⟨hf, hgp⟩ := applyMessage_accounts (newEVMContext env tx.msg) hg hs hmsg
  exact ⟨hf.usedGas_nonneg, hf.usedGas_le, rfl, rfl, hgp,
    (hf.drains _).trans (finalise_drains _ _ hfin), revisionsBelow_finalise hfin⟩

/-- The loop of `Process`: by induction over the transactions, each receipt within its
allowance, the total the sum of the receipts' gas and within the pool, and the state drained. -/
lemma applyTransactions_accounts (env : Env) (hg : env.config.disableGasMetering = false)
    (fuel bhash : ℕ) :
    ∀ (txs : List Transaction) (i gp : ℕ) (usedGas : ℤ) (db : StateDb) (receipts : List Receipt)
      (usedGas' : ℤ) (db' : StateDb), db.RevisionsBelow →
      applyTransactions env fuel bhash i gp usedGas txs db = .ok (receipts, usedGas', db') →
      List.Forall₂ (fun r tx => 0 ≤ r.gasUsed ∧ r.gasUsed ≤ tx.msg.gas) receipts txs ∧
        usedGas' = usedGas + (receipts.map (·.gasUsed)).sum ∧
        (∀ r ∈ receipts.getLast?, r.cumulativeGasUsed = usedGas') ∧
        usedGas' - usedGas ≤ gp ∧ World.Drains db.world db'.world
  | [], i, gp, usedGas, db, receipts, usedGas', db', _, h => by
    unfold applyTransactions at h
    cases h
    exact ⟨.nil, by simp, by simp, by simp, .refl _⟩
  | tx :: txs, i, gp, usedGas, db, receipts, usedGas', db', hs, h => by
    unfold applyTransactions at h
    split at h
    · cases h
    rename_i r gp₁ db₁ u₁ hat
    split at h
    · cases h
    rename_i rs u' db₂ hrest
    obtain ⟨rfl, rfl, rfl⟩ : r :: rs = receipts ∧ u' = usedGas' ∧ db₂ = db' := by
      simpa using h
    obtain ⟨hr₀, hr₁, hcum, hu₁, hgp₁, hdr₁, hs₁⟩ :=
      applyTransaction_accounts env hg (revisionsBelow_prepare hs _ _ _) hat
    obtain ⟨hF, hsum, hlast, hpool, hdr⟩ :=
      applyTransactions_accounts env hg fuel bhash txs (i + 1) gp₁ u₁ db₁ rs u' db₂ hs₁ hrest
    refine ⟨.cons ⟨hr₀, hr₁⟩ hF, ?_, ?_, ?_, ?_⟩
    · rw [List.map_cons, List.sum_cons, hsum, hu₁, add_assoc]
    · cases rs with
      | nil =>
        intro x hx
        simp only [List.getLast?_singleton, Option.mem_def, Option.some.injEq] at hx
        subst hx
        rw [hcum, hsum, List.map_nil, List.sum_nil, add_zero]
      | cons r' rs' =>
        rw [List.getLast?_cons_cons]
        exact hlast
    · omega
    · rw [world_prepare] at hdr₁
      exact hdr₁.trans hdr

/-- The DAO hard fork at the start of `Process`, where the configuration applies it: journaled,
and moving value without creating any. -/
lemma processDao_accounts (config : Consensus.ChainConfig) (env : Env) {db : StateDb}
    (hs : db.RevisionsBelow) {db₀ : StateDb}
    (h : (if config.daoForkSupport && config.daoForkBlock == some env.ctx.blockNumber then
      Consensus.applyDAOHardFork env.keccak db else db) = db₀) :
    db₀.RevisionsBelow ∧ World.Drains db.world db₀.world := by
  subst h
  split_ifs
  · exact ⟨(Consensus.applyDAOHardFork_within env.keccak db).revisionsBelow hs,
      Consensus.applyDAOHardFork_drains env.keccak db⟩
  · exact ⟨hs, .refl _⟩

/-- A result that is `ok` is the value it holds. -/
lemma eq_ok_of_isOk {ε α : Type*} {x : Except ε α} (h : x.isOk = true) (d : α) :
    x = .ok (x.toOption.getD d) := by
  cases x with
  | error e => cases h
  | ok a => rfl

/-- A Byzantium block whose coinbase is account 20, with the identity contract standing in
for every cryptographic precompile. -/
def feeEnv : Env where
  keccak := Hash256.zero
  createAddress caller nonce := 1000 + caller + nonce.toNat
  crypto := ⟨dataCopy, dataCopy, dataCopy, dataCopy, dataCopy, dataCopy, dataCopy⟩
  ctx := ⟨fun _ => 0, 10, 1, 20, 1000000, 1, 0, 0⟩
  rules := ⟨true, true, true, true⟩
  config := ⟨false, false, false⟩

/-- `PUSH1 30; SELFDESTRUCT`: the balance goes to account 30. -/
def selfdestructTo30 : List UInt8 := [0x60, 30, 0xff]

/-- Account 10 with 1000000 wei, and account 20 with 5 wei and `selfdestructTo30`, both as
loaded from the trie. -/
def feeDb : StateDb :=
  let account (balance : ℤ) (code : List UInt8) : StateObject :=
    ⟨0, balance, Hash256.zero.sum code, code, fun _ => 0, false, false, false, true⟩
  ⟨fun a => if a = 10 then some (account 1000000 []) else
      if a = 20 then some (account 5 selfdestructTo30) else none,
    [], 0, 0, 0, 0, fun _ => [], 0, fun _ => none, [], [], 0⟩

/-- A call from 10 to 20 with 100000 gas at 1 wei. -/
def feeTx : Transaction := ⟨7, ⟨10, some 20, 1, 100000, 0, 0, false, []⟩⟩

/-- What `Process` returns on `feeTx` in block 1 of the main network. -/
def feeOutcome : List Receipt × List Log × ℤ × StateDb :=
  (process Consensus.mainnetChainConfig feeEnv 10 0 [feeTx] feeDb).toOption.getD ([], [], 0, feeDb)

/-- With gas metering on, gas is never minted: no call, creation, interpreter run, loop or
operation hands back more gas than it was given (`GasSound`, at every fuel, so also for the
frame the loop reaches after any number of turns), and before the refund `ApplyMessage` has
charged at least the intrinsic gas. -/
theorem gas_not_minted (env : Env) (hg : env.config.disableGasMetering = false) (fuel : ℕ) :
    GasSound env fuel ∧
      ∀ (evm : Evm) (msg : Message) (gp : ℕ) (st : StateTransition) (res : TransitionResult),
        applyMessage env fuel evm msg gp = .ok (st, res) →
          (intrinsicGas msg.data msg.toAddr.isNone env.rules.isHomestead : ℤ) ≤ res.requiredGas ∧
            res.requiredGas ≤ msg.gas :=
  ⟨gasSound env hg fuel, fun _ _ _ _ _ h => StateTransition.transitionDb_requiredGas env _ hg rfl h⟩

theorem gas_not_minted_sample :
    feeEnv.config.disableGasMetering = false ∧ GasSound feeEnv 10 ∧
      ∀ (evm : Evm) (msg : Message) (gp : ℕ) (st : StateTransition) (res : TransitionResult),
        applyMessage feeEnv 10 evm msg gp = .ok (st, res) →
          (intrinsicGas msg.data msg.toAddr.isNone feeEnv.rules.isHomestead : ℤ) ≤ res.requiredGas ∧
            res.requiredGas ≤ msg.gas :=
  ⟨rfl, gas_not_minted feeEnv rfl 10⟩

/-- `feeEnv` with gas metering off, as `eth_call` runs the EVM. -/
def unmeteredEnv : Env := { feeEnv with config := ⟨false, false, true⟩ }

/-- `CALL` of account 10 with 1 wei and a gas word of 0, then `STOP`. -/
def stipendCall : List UInt8 :=
  [0x60, 0, 0x60, 0, 0x60, 0, 0x60, 0, 0x60, 1, 0x60, 10, 0x60, 0, 0xf1, 0x00]

/-- With gas metering off nothing is charged, but a `CALL` with a value still hands the callee
the 2300 gas of the stipend, which comes back to the caller: a call given 5000 gas whose code
makes one such call returns 7300. -/
theorem call_unmetered_mints_stipend :
    (call unmeteredEnv 20 (sampleEvm stipendCall) 10 20 [] 5000 0).2.gas = 7300 := by
  with_unfolding_all decide

end GoXdn.Core
