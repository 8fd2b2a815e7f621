import Mathlib
import GoXdn.Proofs.CallFailure

/-!
# Static calls

Under Byzantium a read-only frame runs no writing operation and no `CALL` with a value, so a
`StaticCall`, with every frame nested in it, changes no account, log or refund but one: a
value-free `CALL` to an address that has no account yet makes an empty one there, as `EVM.Call`
creates the account of every absent address it calls, skipping only those where no precompile
stands once EIP-158 is in force. The read-only flag ends as it was.
-/

namespace GoXdn.State

open GoStd

namespace World

/-- `w'` is `w` but for empty accounts that have appeared at addresses `fresh` allows, with the
same refund and logs; the preimages are not looked at. -/
structure Static (K : Hash256) (fresh : Address → Prop) (w w' : World) : Prop where
  accounts : ∀ a, w'.accounts a = w.accounts a ∨
    (w.accounts a = none ∧ fresh a ∧ w'.accounts a = some (emptyAccount K))
  refund : w'.refund = w.refund
  logs : w'.logs = w.logs
  logSize : w'.logSize = w.logSize

namespace Static

variable {K : Hash256} {fresh : Address → Prop} {w w' w'' : World}

lemma of_eq (h : w' = w) : Static K fresh w w' := by
  subst h
  exact ⟨fun _ => .inl rfl, rfl, rfl, rfl⟩

lemma refl (w : World) : Static K fresh w w := of_eq rfl

lemma trans (h₁ : Static K fresh w w') (h₂ : Static K fresh w' w'') : Static K fresh w w'' := by
  refine ⟨fun a => ?_, h₂.refund.trans h₁.refund, h₂.logs.trans h₁.logs,
    h₂.logSize.trans h₁.logSize⟩
  rcases h₂.accounts a with h₂a | ⟨hnone, hf, hnew⟩
  · rw [h₂a]; exact h₁.accounts a
  · rcases h₁.accounts a with h₁a | ⟨-, -, h₁a⟩
    · exact .inr ⟨h₁a ▸ hnone, hf, hnew⟩
    · rw [h₁a] at hnone; cases hnone

/-- An account that is there stays as it is. -/
lemma accounts_of_isSome (h : Static K fresh w w') {a : Address} (ha : (w.accounts a).isSome) :
    w'.accounts a = w.accounts a := by
  rcases h.accounts a with h' | ⟨hnone, -, -⟩
  · exact h'
  · rw [hnone] at ha; cases ha

lemma setAccount_empty {a : Address} (hnone : w.accounts a = none) (hf : fresh a) :
    Static K fresh w (w.setAccount a (some (emptyAccount K))) := by
  refine ⟨fun b => ?_, rfl, rfl, rfl⟩
  by_cases hb : b = a
  · subst hb
    exact .inr ⟨hnone, hf, by simp⟩
  · exact .inl (by simp [hb])

lemma addPreimage (hash : ℕ) (preimage : List UInt8) :
    Static K fresh w (w.addPreimage hash preimage) := by
  unfold World.addPreimage
  split
  · exact refl w
  · exact ⟨fun _ => .inl rfl, rfl, rfl, rfl⟩

end Static

end World

namespace StateDb

variable (K : Hash256) (s : StateDb) {a : Address}

lemma exist_eq_isSome_world (a : Address) : s.exist a = (s.world.accounts a).isSome := by
  simp [exist]

lemma exist_of_getCode_ne_nil (h : s.getCode a ≠ []) : s.exist a := by
  unfold getCode at h
  unfold exist
  cases hs : s.getStateObject a with
  | none => rw [hs] at h; exact absurd rfl h
  | some o => rfl

/-- Adding or taking nothing from an account that is there changes nothing a reader sees. -/
lemma world_subBalance_zero (ha : s.exist a) : (s.subBalance K a 0).world = s.world := by
  rw [exist_eq_isSome_world] at ha
  obtain ⟨acc, hacc⟩ := Option.isSome_iff_exists.1 ha
  have hget : s.world.account K a = acc := by rw [World.account, hacc, Option.getD_some]
  rw [world_subBalance, World.subBalance, hget, sub_zero]
  exact World.setAccount_of_eq _ hacc

lemma world_addBalance_zero (ha : s.exist a) : (s.addBalance K a 0).world = s.world := by
  rw [exist_eq_isSome_world] at ha
  obtain ⟨acc, hacc⟩ := Option.isSome_iff_exists.1 ha
  have hget : s.world.account K a = acc := by rw [World.account, hacc, Option.getD_some]
  rw [world_addBalance, World.addBalance, hget, add_zero]
  exact World.setAccount_of_eq _ hacc

lemma exist_of_world_eq {t : StateDb} (h : t.world = s.world) (b : Address) :
    t.exist b = s.exist b := by
  rw [exist_eq_isSome_world, exist_eq_isSome_world, h]

lemma exist_createAccount (b : Address) : (s.createAccount K a).exist b = (b = a ∨ s.exist b) := by
  rw [exist_eq_isSome_world, exist_eq_isSome_world, world_createAccount]
  by_cases hb : b = a <;> simp [World.createAccount, hb]

/-- `CreateAccount` at an address with no account puts an empty one there. -/
lemma world_createAccount_of_not_exist (ha : s.exist a = false) :
    (s.createAccount K a).world = s.world.setAccount a (some (emptyAccount K)) := by
  have hnone : s.getStateObject a = none := by simpa [exist] using ha
  rw [world_createAccount]
  simp [World.createAccount, hnone, emptyAccount, newObject]

end StateDb

end GoXdn.State

namespace GoXdn.Vm

open GoStd State StateDb

lemma world_transfer_zero (K : Hash256) (s : StateDb) {sender recipient : Address}
    (hs : s.exist sender) (hr : s.exist recipient) :
    (transfer K s sender recipient 0).world = s.world := by
  have h₁ := world_subBalance_zero K s hs
  unfold transfer
  rw [Nat.cast_zero, world_addBalance_zero K _ ((exist_of_world_eq _ h₁ _).trans hr), h₁]

namespace Evm

/-- The worlds of two EVMs differ at most by empty accounts at precompiled contracts, or at any
address before EIP-158. -/
def Static (env : Env) (e e' : Evm) : Prop :=
  World.Static env.keccak (fun a => (env.precompiles a).isSome ∨ env.rules.isEIP158 = false)
    e.stateDb.world e'.stateDb.world

variable {env : Env} {e e' e'' : Evm}

lemma Static.refl (e : Evm) : e.Static env e := World.Static.refl _

lemma Static.of_world (h : e'.stateDb.world = e.stateDb.world) : e.Static env e' :=
  World.Static.of_eq h

lemma Static.trans (h₁ : e.Static env e') (h₂ : e'.Static env e'') : e.Static env e'' :=
  World.Static.trans h₁ h₂

lemma Static.exist (h : e.Static env e') {a : Address} (ha : e.stateDb.exist a) :
    e'.stateDb.exist a := by
  rw [exist_eq_isSome_world] at ha ⊢
  rw [World.Static.accounts_of_isSome h ha]
  exact ha

end Evm

section Restrictions

variable (env : Env)

/-- What a read-only frame under Byzantium may run: no writing operation, and no `CALL` with a
value. -/
lemma enforceRestrictions_eq_none (hb : env.rules.isByzantium) {evm : Evm}
    (hro : evm.readOnly = true) {op : Op} {stack : List ℕ}
    (h : enforceRestrictions env evm op stack = none) :
    op.writes = false ∧ (op = .call → stack.getD 2 0 = 0) := by
  unfold enforceRestrictions at h
  split_ifs at h with hc
  simp only [hb, hro, true_and, not_or, not_and, not_not] at hc
  exact ⟨by simpa using hc.1, hc.2⟩

lemma gasRefund_of_writes {op : Op} (hw : op.writes = false) (evm : Evm) (contract : Contract)
    (st : List ℕ) : gasRefund evm contract st op = none := by
  cases op <;> first | rfl | cases hw

/-- The gas of a non-writing operation is charged without a refund, on the state it found. -/
lemma chargeGas_of_writes {evm : Evm} {f : Frame} {op : Op} {memorySize : UInt64}
    (hw : op.writes = false) :
    (∀ evm', chargeGas env evm f op memorySize = .error evm' → evm'.stateDb = evm.stateDb) ∧
    (∀ evm' f', chargeGas env evm f op memorySize = .ok (evm', f') →
      evm'.stateDb = evm.stateDb ∧ f'.contract.self = f.contract.self) := by
  have hr := gasRefund_of_writes hw evm f.contract f.stack
  refine ⟨fun evm' h => ?_, fun evm' f' h => ?_⟩
  · rcases ((chargeGas_stateDb env).1 evm' h).2 with hdb | ⟨n, hn, -⟩
    · exact hdb
    · rw [hr] at hn; cases hn
  · obtain ⟨-, hdb, hself⟩ := (chargeGas_stateDb env).2 evm' f' h
    rcases hdb with hdb | ⟨n, hn, -⟩
    · exact ⟨hdb, hself⟩
    · rw [hr] at hn; cases hn

/-- The call gas functions rewrite only the top of the stack. -/
lemma gasCallTail_stack {contract : Contract} {st : List ℕ} {mem : Memory}
    {gas memorySize : UInt64} {g : GasOut}
    (h : gasCallTail env contract st mem gas memorySize = .ok g) : g.stack.drop 1 = st.drop 1 := by
  unfold gasCallTail at h
  simp only [bind, Except.bind, pure, Except.pure] at h
  repeat' split at h
  all_goals cases h
  all_goals rfl

lemma chargeGas_call_value {evm evm' : Evm} {f f' : Frame} {memorySize : UInt64}
    (h : chargeGas env evm f .call memorySize = .ok (evm', f')) :
    f'.stack.getD 2 0 = f.stack.getD 2 0 := by
  unfold chargeGas at h
  split at h
  · cases h; rfl
  cases hg : gasCost env evm f.contract f.stack f.mem .call memorySize with
  | error => rw [hg] at h; cases h
  | ok g =>
    rw [hg] at h
    have hd : g.stack.drop 1 = f.stack.drop 1 := by
      unfold gasCost gasCall at hg
      exact gasCallTail_stack env hg
    have hget : ∀ l : List ℕ, l.getD 2 0 = (l.drop 1).getD 1 0 := by
      intro l; cases l <;> rfl
    simp only at h
    split at h
    · cases h
    · cases h
      rw [hget, hget f.stack, hd]

lemma afterCall_self (evm : Evm) (f : Frame) (rest : List ℕ) (retOffset retSize : ℕ)
    (res : CallResult) : (afterCall evm f rest retOffset retSize res).2.1.contract.self = f.contract.self := by
  unfold afterCall
  dsimp only
  split <;> rfl

/-- No operation changes the frame's own address. -/
lemma step_self : ∀ (fuel : ℕ) (evm : Evm) (f : Frame) (op : Op),
    (step env fuel evm f op).2.1.contract.self = f.contract.self
  | 0, _, _, _ => by rw [step]
  | fuel + 1, evm, f, op => by
    unfold GoXdn.Vm.step
    dsimp only
    split
    case h_6 =>
      split
      · rename_i evm' f' res hx
        exact congrArg Contract.self (execute_effect hx).2.2.2
      · rfl
    all_goals split
    all_goals first | rfl | exact afterCall_self _ _ _ _ _ _

/-- What a non-writing operation does to the world: nothing, or a preimage recorded. -/
lemma ExecEffect.static {K : Hash256} {fresh : Address → Prop} {op : Op} {s t : StateDb}
    (he : ExecEffect K op s t) (hw : op.writes = false) : World.Static K fresh s.world t.world := by
  cases he with
  | keep => exact .refl _
  | preimage => rw [world_addPreimage]; exact .addPreimage _ _
  | store | log | selfdestruct => cases hw

end Restrictions

section StaticSound

variable (env : Env)

/-- Every function of the mutual block, at one fuel, run read-only, changes the world at most by
empty accounts at precompiled contracts. A frame's own account is there, and a read-only `CALL`
sends nothing. -/
structure StaticSound (fuel : ℕ) : Prop where
  call : ∀ (evm : Evm) (caller addr : Address) (input : List UInt8) (gas : UInt64),
    evm.readOnly = true → evm.stateDb.RevisionsBelow → evm.stateDb.exist caller →
    evm.Static env (call env fuel evm caller addr input gas 0).1
  callCode : ∀ (evm : Evm) (caller addr : Address) (input : List UInt8) (gas : UInt64)
    (value : ℕ), evm.readOnly = true → evm.stateDb.RevisionsBelow → evm.stateDb.exist caller →
    evm.Static env (callCode env fuel evm caller addr input gas value).1
  delegateCall : ∀ (evm : Evm) (parent : Contract) (addr : Address) (input : List UInt8)
    (gas : UInt64), evm.readOnly = true → evm.stateDb.RevisionsBelow →
    evm.stateDb.exist parent.self → evm.Static env (delegateCall env fuel evm parent addr input gas).1
  staticCall : ∀ (evm : Evm) (caller addr : Address) (input : List UInt8) (gas : UInt64),
    evm.stateDb.RevisionsBelow → evm.Static env (staticCall env fuel evm caller addr input gas).1
  run : ∀ (evm : Evm) (contract : Contract) (input : List UInt8), evm.readOnly = true →
    evm.stateDb.RevisionsBelow → (contract.code = [] ∨ evm.stateDb.exist contract.self) →
    evm.Static env (run env fuel evm contract input).1
  loop : ∀ (evm : Evm) (f : Frame), evm.readOnly = true → evm.stateDb.RevisionsBelow →
    evm.stateDb.exist f.contract.self → evm.Static env (loop env fuel evm f).1
  step : ∀ (evm : Evm) (f : Frame) (op : Op), evm.readOnly = true →
    evm.stateDb.RevisionsBelow → evm.stateDb.exist f.contract.self → op.writes = false →
    (op = .call → f.stack.getD 2 0 = 0) → evm.Static env (step env fuel evm f op).1

lemma staticSound_zero : StaticSound env 0 where
  call _ _ _ _ _ _ _ _ := by rw [call]; exact .refl _
  callCode _ _ _ _ _ _ _ _ _ := by rw [callCode]; exact .refl _
  delegateCall _ _ _ _ _ _ _ _ := by rw [delegateCall]; exact .refl _
  staticCall _ _ _ _ _ _ := by rw [staticCall]; exact .refl _
  run _ _ _ _ _ _ := by rw [run]; exact .refl _
  loop _ _ _ _ _ := by rw [loop]; exact .refl _
  step _ _ _ _ _ _ _ _ := by rw [step]; exact .refl _

section Succ

variable {env} {fuel : ℕ} (ih : StaticSound env fuel)
include ih

/-- A message call's read-only run from its snapshot, then back to the snapshot on an error. -/
lemma run_revert_static {evm : Evm} (hs : evm.stateDb.RevisionsBelow) {evm₁ : Evm}
    (h₁ : evm.stateDb.snapshot.1.Within evm₁.stateDb) (hst : evm.Static env evm₁)
    (hro : evm₁.readOnly = true) (contract : Contract) (input : List UInt8)
    (hself : contract.code = [] ∨ evm₁.stateDb.exist contract.self) :
    evm.Static env (revertOnError (run env fuel evm₁ contract input).1 evm.stateDb.snapshot.2
      (run env fuel evm₁ contract input).2.1 (run env fuel evm₁ contract input).2.2.1
      (run env fuel evm₁ contract input).2.2.2).1 := by
  have hs₁ := ((Within.refl _).snapshot.trans h₁).revisionsBelow hs
  cases herr : (run env fuel evm₁ contract input).2.2.2 with
  | none => exact hst.trans (ih.run evm₁ contract input hro hs₁ hself)
  | some e =>
    exact .of_world (revertOnError_some hs (run_within env fuel hs h₁ contract input) _ _ e).1

lemma call_static (evm : Evm) (caller addr : Address)
    (input : List UInt8) (gas : UInt64) (hro : evm.readOnly = true)
    (hs : evm.stateDb.RevisionsBelow) (hc : evm.stateDb.exist caller) :
    evm.Static env (call env (fuel + 1) evm caller addr input gas 0).1 := by
  simp only [call]
  have hsnap : ∀ b, evm.stateDb.snapshot.1.exist b = evm.stateDb.exist b :=
    exist_of_world_eq _ (world_snapshot _)
  split_ifs with h₁ h₂ h₃ h₄ h₅
  · exact .refl _
  · exact .refl _
  · exact .refl _
  · exact .of_world rfl
  · have hf : (env.precompiles addr).isSome ∨ env.rules.isEIP158 = false := by
      cases hp : env.precompiles addr
      · cases h158 : env.rules.isEIP158
        · exact .inr rfl
        · exact absurd ⟨h₅, hp, h158, trivial⟩ h₄
      · exact .inl rfl
    have habs : evm.stateDb.snapshot.1.exist addr = false := by simpa using h₅
    have hex : ∀ b, b = addr ∨ evm.stateDb.exist b →
        (evm.stateDb.snapshot.1.createAccount env.keccak addr).exist b := by
      intro b hb
      rw [exist_createAccount, hsnap]
      simpa using hb
    have hw := world_transfer_zero env.keccak _ (hex caller (.inr hc)) (hex addr (.inl rfl))
    refine run_revert_static ih hs ?_ ?_ ?_ _ _ (.inr ?_)
    · exact within_transfer ((Within.refl _).createAccount env.keccak addr) caller addr 0
    · unfold Evm.Static
      rw [hw, world_createAccount_of_not_exist _ _ habs, world_snapshot]
      rw [exist_eq_isSome_world, world_snapshot] at habs
      exact .setAccount_empty (by simpa using habs) hf
    · exact hro
    · exact (exist_of_world_eq _ hw addr).trans (hex addr (.inl rfl))
  · have hw := world_transfer_zero env.keccak _ ((hsnap caller).trans hc) (by simpa using h₅)
    refine run_revert_static ih hs ?_ ?_ ?_ _ _ (.inr ?_)
    · exact within_transfer (Within.refl _) caller addr 0
    · exact .of_world hw
    · exact hro
    · exact (exist_of_world_eq _ hw addr).trans (by simpa using h₅)

lemma callCode_static (evm : Evm) (caller addr : Address) (input : List UInt8) (gas : UInt64)
    (value : ℕ) (hro : evm.readOnly = true) (hs : evm.stateDb.RevisionsBelow)
    (hc : evm.stateDb.exist caller) :
    evm.Static env (callCode env (fuel + 1) evm caller addr input gas value).1 := by
  simp only [callCode]
  split_ifs
  · exact .refl _
  · exact .refl _
  · exact .refl _
  · refine run_revert_static ih hs ?_ ?_ ?_ _ _ (.inr ?_)
    · exact Within.refl _
    · exact .of_world rfl
    · exact hro
    · exact (exist_of_world_eq _ (world_snapshot _) caller).trans hc

lemma delegateCall_static (evm : Evm) (parent : Contract) (addr : Address) (input : List UInt8)
    (gas : UInt64) (hro : evm.readOnly = true) (hs : evm.stateDb.RevisionsBelow)
    (hc : evm.stateDb.exist parent.self) :
    evm.Static env (delegateCall env (fuel + 1) evm parent addr input gas).1 := by
  simp only [delegateCall]
  split_ifs
  · exact .refl _
  · exact .refl _
  · refine run_revert_static ih hs ?_ ?_ ?_ _ _ (.inr ?_)
    · exact Within.refl _
    · exact .of_world rfl
    · exact hro
    · exact (exist_of_world_eq _ (world_snapshot _) parent.self).trans hc

/-- The callee of a static call runs read-only; its code is there only if its account is. -/
lemma staticCall_static (evm : Evm) (caller addr : Address) (input : List UInt8) (gas : UInt64)
    (hs : evm.stateDb.RevisionsBelow) :
    evm.Static env (staticCall env (fuel + 1) evm caller addr input gas).1 := by
  simp only [staticCall]
  have hself : (evm.stateDb.snapshot.1.getCode addr = [] ∨
      evm.stateDb.snapshot.1.exist addr) := by
    by_cases hcode : evm.stateDb.snapshot.1.getCode addr = []
    · exact .inl hcode
    · exact .inr (exist_of_getCode_ne_nil _ hcode)
  split_ifs
  · exact .refl _
  · exact .refl _
  all_goals
    refine run_revert_static ih hs ?_ ?_ ?_ _ _ ?_
    · exact Within.refl _
    · exact .of_world rfl
    · rfl
    · exact hself

lemma run_static (evm : Evm) (contract : Contract) (input : List UInt8)
    (hro : evm.readOnly = true) (hs : evm.stateDb.RevisionsBelow)
    (hself : contract.code = [] ∨ evm.stateDb.exist contract.self) :
    evm.Static env (run env (fuel + 1) evm contract input).1 := by
  simp only [run]
  split
  · split
    · split <;> exact .refl _
    · exact .refl _
  · split_ifs with hcode
    · exact .of_world rfl
    · exact ih.loop { evm with depth := evm.depth + 1, returnData := [] }
        ⟨0, [], Memory.new, { contract with input := input }⟩ hro hs (hself.resolve_left hcode)

/-- One turn of the interpreter loop, read-only: the restrictions leave only non-writing
operations and value-free calls, charged on the state they found. -/
lemma loop_static (hb : env.rules.isByzantium) (evm : Evm) (f : Frame)
    (hro : evm.readOnly = true) (hs : evm.stateDb.RevisionsBelow)
    (hself : evm.stateDb.exist f.contract.self) :
    evm.Static env (loop env (fuel + 1) evm f).1 := by
  simp only [loop]
  split
  · exact .refl _
  next op _ =>
  split
  · exact .refl _
  · exact .refl _
  · exact .refl _
  next memorySize _ hr _ =>
  obtain ⟨hw, hcall⟩ := enforceRestrictions_eq_none env hb hro hr
  split
  next evm' hc => exact .of_world (congrArg world ((chargeGas_of_writes env hw).1 evm' hc))
  next evm₁ f₁ hc =>
    obtain ⟨hdb, hself₁⟩ := (chargeGas_of_writes env hw).2 evm₁ f₁ hc
    have h₀ : evm.Static env evm₁ := .of_world (congrArg world hdb)
    have hr₁ := (chargeGas_ok_reaches env hc)
    set f₂ := if 0 < memorySize then { f₁ with mem := f₁.mem.resize memorySize.toNat } else f₁
      with hf₂
    have hself₂ : f₂.contract.self = f.contract.self := by
      rw [hf₂]; split_ifs <;> exact hself₁
    have hcall₂ : op = .call → f₂.stack.getD 2 0 = 0 := by
      rintro rfl
      have := chargeGas_call_value env hc
      rw [hf₂]; split_ifs <;> exact this.trans (hcall rfl)
    have hs₁ := hr₁.revisionsBelow hs
    have hro₁ : evm₁.readOnly = true := hr₁.readOnly.trans hro
    have hex₁ : evm₁.stateDb.exist f₂.contract.self := by rw [hself₂, hdb]; exact hself
    have h₂ := h₀.trans (ih.step evm₁ f₂ op hro₁ hs₁ hex₁ hw hcall₂)
    have hr₂ := (sound env fuel).step evm₁ f₂ op hs₁
    have h₃ : evm.Static env (if op.returns = true then
        { (step env fuel evm₁ f₂ op).1 with returnData := (step env fuel evm₁ f₂ op).2.2.1 }
      else (step env fuel evm₁ f₂ op).1) := h₂.trans (by split_ifs <;> exact .of_world rfl)
    split
    · exact h₃
    · by_cases hrev : op.reverts = true
      · rw [if_pos hrev]; exact h₃
      rw [if_neg hrev]
      by_cases hhalt : op.halts = true
      · rw [if_pos hhalt]; exact h₃
      rw [if_neg hhalt]
      have hr₃ := hr₂.withReturnData (op.returns = true) (step env fuel evm₁ f₂ op).2.2.1
      refine h₃.trans (ih.loop _ _ ?_ (hr₃.revisionsBelow hs₁) ?_)
      · exact hr₃.readOnly.trans hro₁
      · have hsame : (if op.jumps = true then (step env fuel evm₁ f₂ op).2.1 else
            { (step env fuel evm₁ f₂ op).2.1 with pc := (step env fuel evm₁ f₂ op).2.1.pc + 1 }
            ).contract.self = f.contract.self := by
          split_ifs <;> exact (step_self env fuel evm₁ f₂ op).trans hself₂
        rw [hsame]
        exact h₃.exist hself

lemma step_static (evm : Evm) (f : Frame) (op : Op) (hro : evm.readOnly = true)
    (hs : evm.stateDb.RevisionsBelow) (hself : evm.stateDb.exist f.contract.self)
    (hw : op.writes = false) (hcall : op = .call → f.stack.getD 2 0 = 0) :
    evm.Static env (step env (fuel + 1) evm f op).1 := by
  unfold GoXdn.Vm.step
  dsimp only
  split
  case h_6 =>
    split
    · rename_i evm' f' res hx
      exact (execute_effect hx).1.static hw
    · exact .refl _
  all_goals
    split
    · exact .refl _
    try rw [afterCall_fst]
  · rename_i g addr value _ _ _ _ _ hst _ _ _
    have hv : value = 0 := by simpa [hst] using hcall rfl
    subst hv
    exact ih.call _ _ _ _ _ hro hs hself
  · exact ih.callCode _ _ _ _ _ _ hro hs hself
  · exact ih.delegateCall _ _ _ _ _ hro hs hself
  · exact ih.staticCall _ _ _ _ _ hs
  · cases hw

end Succ

/-- Under Byzantium, every function of the mutual block run read-only changes the world at most
by empty accounts at precompiled contracts, or at any absent address before EIP-158, at every
fuel. -/
theorem staticSound (hb : env.rules.isByzantium) : ∀ fuel, StaticSound env fuel
  | 0 => staticSound_zero env
  | fuel + 1 =>
    have ih := staticSound hb fuel
    { call := call_static ih
      callCode := callCode_static ih
      delegateCall := delegateCall_static ih
      staticCall := staticCall_static ih
      run := run_static ih
      loop := loop_static ih hb
      step := step_static ih }

end StaticSound

/-- Under Byzantium a static call keeps every account that exists, the logs and the refund, and
the read-only flag; empty accounts may appear at absent precompiled contracts, and before EIP-158
at any absent address. -/
theorem staticCall_keeps_world (env : Env) (hb : env.rules.isByzantium) (fuel : ℕ) (evm : Evm)
    (hs : evm.stateDb.RevisionsBelow) (caller addr : Address) (input : List UInt8) (gas : UInt64) :
    World.Static env.keccak (fun a => (env.precompiles a).isSome ∨ env.rules.isEIP158 = false)
        evm.stateDb.world (staticCall env fuel evm caller addr input gas).1.stateDb.world ∧
      (staticCall env fuel evm caller addr input gas).1.readOnly = evm.readOnly :=
  ⟨(staticSound env hb fuel).staticCall evm caller addr input gas hs,
    ((sound env fuel).staticCall evm caller addr input gas hs).readOnly⟩

/-- A value-free `CALL` of the identity contract at address 4, then `STOP`: `PUSH1 0` five
times (return size and offset, input size and offset, value), `PUSH1 4`, `PUSH2 0xffff` (gas),
`CALL`, `STOP`. -/
def callIdentity : List UInt8 :=
  [0x60, 0, 0x60, 0, 0x60, 0, 0x60, 0, 0x60, 0, 0x60, 4, 0x61, 0xff, 0xff, 0xf1, 0x00]

theorem staticCall_keeps_world_sample :
    sampleEnv.rules.isByzantium ∧ (sampleEvm callIdentity).stateDb.RevisionsBelow ∧
      (World.Static sampleEnv.keccak
          (fun a => (sampleEnv.precompiles a).isSome ∨ sampleEnv.rules.isEIP158 = false)
          (sampleEvm callIdentity).stateDb.world
          (staticCall sampleEnv 50 (sampleEvm callIdentity) 10 20 [] 100000).1.stateDb.world ∧
        (staticCall sampleEnv 50 (sampleEvm callIdentity) 10 20 [] 100000).1.readOnly =
          (sampleEvm callIdentity).readOnly) :=
  ⟨rfl, fun _ hr => absurd hr List.not_mem_nil,
    staticCall_keeps_world sampleEnv rfl 50 _ (fun _ hr => absurd hr List.not_mem_nil)
      10 20 [] 100000⟩

/-- `sampleEnv` under the rules of the main network's blocks 4130 to 2674999: Byzantium, but
not yet EIP-158. -/
def byzantiumNo158Env : Env := { sampleEnv with rules := ⟨true, true, false, true⟩ }

/-- A value-free `CALL` of address 50, which is no precompile, then `STOP`. -/
def callAbsent : List UInt8 :=
  [0x60, 0, 0x60, 0, 0x60, 0, 0x60, 0, 0x60, 0, 0x60, 50, 0x61, 0xff, 0xff, 0xf1, 0x00]

/-- A static call modifies the state: under Byzantium without EIP-158, the value-free `CALL` of
its code makes an account at address 50, which had none, and so does one of the identity
contract at address 4 under EIP-158 as well. -/
theorem staticCall_creates_account :
    byzantiumNo158Env.precompiles 50 = none ∧ (sampleEvm callAbsent).stateDb.exist 50 = false ∧
      (staticCall byzantiumNo158Env 50 (sampleEvm callAbsent) 10 20 [] 100000).1.stateDb.exist 50 =
        true ∧
      (sampleEvm callIdentity).stateDb.exist 4 = false ∧
      (staticCall sampleEnv 50 (sampleEvm callIdentity) 10 20 [] 100000).1.stateDb.exist 4 =
        true := by
  with_unfolding_all decide

end GoXdn.Vm
