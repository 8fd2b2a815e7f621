import Mathlib
import GoXdn.Proofs.Journal
import GoXdn.Vm.Evm

/-!
# Message calls keep to the journal

Every message call, run and interpreter step changes the state only by journaled operations
and leaves the interpreter's read-only flag as it found it. A call that fails goes back to its
snapshot, so its caller sees the world as before the call.
-/

namespace GoXdn.Vm

open GoStd State StateDb

/-- The state changes an operation other than a call makes. -/
inductive ExecEffect (K : Hash256) : Op → StateDb → StateDb → Prop
  | keep (op : Op) (s : StateDb) : ExecEffect K op s s
  | preimage (s : StateDb) (hash : ℕ) (data : List UInt8) :
      ExecEffect K .sha3 s (s.addPreimage hash data)
  | store (s : StateDb) (a key value : ℕ) : ExecEffect K .sstore s (s.setStateOf K a key value)
  | log (n : ℕ) (s : StateDb) (l : Log) : ExecEffect K (.log n) s (s.addLog l)
  | selfdestruct (s : StateDb) (a self : Address) :
      ExecEffect K .selfdestruct s ((s.addBalance K a (s.getBalance self)).suicide self).1

lemma execute_effect {env : Env} {evm evm' : Evm} {f f' : Frame} {op : Op} {res : List UInt8}
    (h : execute env evm f op = .ok (evm', f', res)) :
    ExecEffect env.keccak op evm.stateDb evm'.stateDb ∧ evm'.readOnly = evm.readOnly ∧
      evm'.depth = evm.depth ∧ f'.contract = f.contract := by
  unfold execute at h
  split at h
  all_goals simp only [bind, Except.bind, pure, Except.pure] at h
  all_goals (repeat' split at h)
  all_goals (cases h)
  all_goals first
    | exact ⟨.keep _ _, rfl, rfl, rfl⟩
    | exact ⟨.preimage _ _ _, rfl, rfl, rfl⟩
    | exact ⟨.store _ _ _ _, rfl, rfl, rfl⟩
    | exact ⟨.log _ _ _, rfl, rfl, rfl⟩
    | exact ⟨.selfdestruct _ _ _, rfl, rfl, rfl⟩

namespace ExecEffect

variable {K : Hash256} {op : Op} {s t u : StateDb}

lemma within (he : ExecEffect K op t u) (h : s.Within t) : s.Within u := by
  cases he with
  | keep => exact h
  | preimage => exact h.addPreimage _ _
  | store => exact h.setStateOf K _ _ _
  | log => exact h.addLog _
  | selfdestruct => exact (h.addBalance K _ _).suicide _

end ExecEffect

namespace Evm

/-- What every message call, run and interpreter step does to the EVM: journaled changes to the
state, and the read-only flag as it found it. -/
structure Reaches (e e' : Evm) : Prop where
  within : e.stateDb.Within e'.stateDb
  readOnly : e'.readOnly = e.readOnly

lemma Reaches.refl (e : Evm) : e.Reaches e := ⟨Within.refl _, rfl⟩

lemma Reaches.trans {e e' e'' : Evm} (h₁ : e.Reaches e') (h₂ : e'.Reaches e'') : e.Reaches e'' :=
  ⟨h₁.within.trans h₂.within, h₂.readOnly.trans h₁.readOnly⟩

lemma Reaches.revisionsBelow {e e' : Evm} (h : e.Reaches e') (hs : e.stateDb.RevisionsBelow) :
    e'.stateDb.RevisionsBelow :=
  h.within.revisionsBelow hs

/-- The return data and the depth are not what `Reaches` looks at. -/
lemma Reaches.withReturnData {e e' : Evm} (h : e.Reaches e') (c : Prop) [Decidable c]
    (d : List UInt8) : e.Reaches (if c then { e' with returnData := d } else e') := by
  split_ifs
  · exact ⟨h.within, h.readOnly⟩
  · exact h

lemma Reaches.withDepth {e e' : Evm} (h : e.Reaches e') (n : ℕ) :
    e.Reaches { e' with depth := n } :=
  ⟨h.within, h.readOnly⟩

end Evm

lemma within_transfer {K : Hash256} {s t : StateDb} (h : s.Within t) (sender recipient : Address)
    (amount : ℕ) : s.Within (transfer K t sender recipient amount) :=
  (h.subBalance K sender _).addBalance K recipient _

section Sound

variable (env : Env)

/-- The call that failed goes back to its snapshot; one that did not keeps its changes. Either
way the state stays `Within` the one the snapshot was taken at. -/
lemma revertOnError_reaches {s : StateDb} (hs : s.RevisionsBelow) {evm : Evm}
    (h : s.snapshot.1.Within evm.stateDb) (contract : Contract) (ret : List UInt8)
    (err : Option VmError) :
    s.Within (revertOnError evm s.snapshot.2 contract ret err).1.stateDb ∧
      (revertOnError evm s.snapshot.2 contract ret err).1.readOnly = evm.readOnly := by
  cases err with
  | none => exact ⟨(Within.snapshot (Within.refl s)).trans h, rfl⟩
  | some e =>
    obtain ⟨t, ht, hwt, -⟩ := h.revert_snapshot hs
    simp only [revertOnError, ht]
    exact ⟨hwt, trivial⟩

lemma revertOnError_some {s : StateDb} (hs : s.RevisionsBelow) {evm : Evm}
    (h : s.snapshot.1.Within evm.stateDb) (contract : Contract) (ret : List UInt8) (e : VmError) :
    (revertOnError evm s.snapshot.2 contract ret (some e)).1.stateDb.world = s.world ∧
      (revertOnError evm s.snapshot.2 contract ret (some e)).2 =
        ⟨ret, if e = .executionReverted then contract.gas else 0, some e⟩ := by
  obtain ⟨t, ht, -, hw⟩ := h.revert_snapshot hs
  simp only [revertOnError, ht]
  exact ⟨hw, trivial⟩

@[simp] lemma afterCall_fst (evm : Evm) (f : Frame) (rest : List ℕ) (retOffset retSize : ℕ)
    (res : CallResult) : (afterCall evm f rest retOffset retSize res).1 = evm := by
  unfold afterCall
  dsimp only
  repeat' split
  all_goals rfl

lemma storeCode_within {s : StateDb} {evm : Evm} (h : s.Within evm.stateDb)
    (contractAddr : Address) (contract : Contract) (ret : List UInt8) (err : Option VmError) :
    s.Within (storeCode env evm contractAddr contract ret err).1.stateDb ∧
      (storeCode env evm contractAddr contract ret err).1.readOnly = evm.readOnly := by
  unfold storeCode
  split_ifs
  · split
    · exact ⟨h.setCodeOf _ _ _, rfl⟩
    · exact ⟨h, rfl⟩
  · exact ⟨h, rfl⟩

/-- The state a frame is charged in: the one it came with, or that with the gas function's
refund added. -/
lemma chargeGas_stateDb {evm : Evm} {f : Frame} {op : Op} {memorySize : UInt64} :
    (∀ evm', chargeGas env evm f op memorySize = .error evm' →
      evm' = { evm with stateDb := evm'.stateDb } ∧ (evm'.stateDb = evm.stateDb ∨
        ∃ n, gasRefund evm f.contract f.stack op = some n ∧
          evm'.stateDb = evm.stateDb.addRefund n)) ∧
    (∀ evm' f', chargeGas env evm f op memorySize = .ok (evm', f') →
      evm' = { evm with stateDb := evm'.stateDb } ∧ (evm'.stateDb = evm.stateDb ∨
        ∃ n, gasRefund evm f.contract f.stack op = some n ∧
          evm'.stateDb = evm.stateDb.addRefund n) ∧ f'.contract.self = f.contract.self) := by
  unfold chargeGas
  have hself : ∀ g c, f.contract.useGas g = some c → c.self = f.contract.self := by
    intro g c hc
    unfold Contract.useGas at hc
    split at hc <;> cases hc
    rfl
  refine ⟨fun evm' h => ?_, fun evm' f' h => ?_⟩
  all_goals
    split at h
    · cases h
      try exact ⟨rfl, .inl rfl, rfl⟩
    cases hg : gasCost env evm f.contract f.stack f.mem op memorySize <;> simp only [hg] at h
    · cases h
      try exact ⟨rfl, .inl rfl⟩
    cases hr : gasRefund evm f.contract f.stack op <;>
      cases hu : f.contract.useGas (GasOut.cost ‹_›) <;> simp only [hr, hu] at h <;> cases h
  · exact ⟨rfl, .inl rfl⟩
  · exact ⟨rfl, .inr ⟨_, rfl, rfl⟩⟩
  · exact ⟨rfl, .inl rfl, hself _ _ hu⟩
  · exact ⟨rfl, .inr ⟨_, rfl, rfl⟩, hself _ _ hu⟩

lemma chargeGas_error_reaches {evm evm' : Evm} {f : Frame} {op : Op} {memorySize : UInt64}
    (h : chargeGas env evm f op memorySize = .error evm') : evm.Reaches evm' := by
  obtain ⟨he, hdb⟩ := (chargeGas_stateDb env).1 evm' h
  refine ⟨?_, by rw [he]⟩
  rcases hdb with hdb | ⟨n, -, hdb⟩
  · rw [hdb]; exact Within.refl _
  · rw [hdb]; exact (Within.refl _).addRefund n

lemma chargeGas_ok_reaches {evm evm' : Evm} {f f' : Frame} {op : Op} {memorySize : UInt64}
    (h : chargeGas env evm f op memorySize = .ok (evm', f')) : evm.Reaches evm' := by
  obtain ⟨he, hdb, -⟩ := (chargeGas_stateDb env).2 evm' f' h
  refine ⟨?_, by rw [he]⟩
  rcases hdb with hdb | ⟨n, -, hdb⟩
  · rw [hdb]; exact Within.refl _
  · rw [hdb]; exact (Within.refl _).addRefund n

/-- Every function of the mutual block, at one fuel, keeps to the journal and the read-only
flag from any state whose revisions are below its next id. -/
structure Sound (fuel : ℕ) : Prop where
  call : ∀ (evm : Evm) (caller addr : Address) (input : List UInt8) (gas : UInt64) (value : ℕ),
    evm.stateDb.RevisionsBelow → evm.Reaches (call env fuel evm caller addr input gas value).1
  callCode : ∀ (evm : Evm) (caller addr : Address) (input : List UInt8) (gas : UInt64)
    (value : ℕ), evm.stateDb.RevisionsBelow →
    evm.Reaches (callCode env fuel evm caller addr input gas value).1
  delegateCall : ∀ (evm : Evm) (parent : Contract) (addr : Address) (input : List UInt8)
    (gas : UInt64), evm.stateDb.RevisionsBelow →
    evm.Reaches (delegateCall env fuel evm parent addr input gas).1
  staticCall : ∀ (evm : Evm) (caller addr : Address) (input : List UInt8) (gas : UInt64),
    evm.stateDb.RevisionsBelow → evm.Reaches (staticCall env fuel evm caller addr input gas).1
  create : ∀ (evm : Evm) (caller : Address) (code : List UInt8) (gas : UInt64) (value : ℕ),
    evm.stateDb.RevisionsBelow → evm.Reaches (create env fuel evm caller code gas value).1
  run : ∀ (evm : Evm) (contract : Contract) (input : List UInt8),
    evm.stateDb.RevisionsBelow → evm.Reaches (run env fuel evm contract input).1
  loop : ∀ (evm : Evm) (f : Frame), evm.stateDb.RevisionsBelow →
    evm.Reaches (loop env fuel evm f).1
  step : ∀ (evm : Evm) (f : Frame) (op : Op), evm.stateDb.RevisionsBelow →
    evm.Reaches (step env fuel evm f op).1

lemma createFinish_reaches {s : StateDb} (hs : s.RevisionsBelow) {evm : Evm}
    (h : s.snapshot.1.Within evm.stateDb) (contractAddr : Address) (contract : Contract)
    (ret : List UInt8) (err : Option VmError) :
    s.Within (createFinish env evm s.snapshot.2 contractAddr contract ret err).1.stateDb ∧
      (createFinish env evm s.snapshot.2 contractAddr contract ret err).1.readOnly =
        evm.readOnly := by
  unfold createFinish
  rcases hp : storeCode env evm contractAddr contract ret err with ⟨evm₁, contract₁, err₁⟩
  obtain ⟨h₁, hro₁⟩ := storeCode_within env h contractAddr contract ret err
  rw [hp] at h₁ hro₁
  dsimp only at h₁ hro₁ ⊢
  split_ifs
  all_goals first
    | (obtain ⟨t, ht, hwt, -⟩ := h₁.revert_snapshot hs
       simp only [ht]
       exact ⟨hwt, hro₁⟩)
    | exact ⟨(Within.snapshot (Within.refl s)).trans h₁, hro₁⟩

lemma sound_zero : Sound env 0 where
  call _ _ _ _ _ _ _ := by rw [call]; exact .refl _
  callCode _ _ _ _ _ _ _ := by rw [callCode]; exact .refl _
  delegateCall _ _ _ _ _ _ := by rw [delegateCall]; exact .refl _
  staticCall _ _ _ _ _ _ := by rw [staticCall]; exact .refl _
  create _ _ _ _ _ _ := by rw [create]; exact .refl _
  run _ _ _ _ := by rw [run]; exact .refl _
  loop _ _ _ := by rw [loop]; exact .refl _
  step _ _ _ _ := by rw [step]; exact .refl _

section Succ

variable {env} {fuel : ℕ} (ih : Sound env fuel)
include ih

/-- A message call's run from its snapshot, then back to the snapshot on an error. -/
lemma run_revert {evm : Evm} (hs : evm.stateDb.RevisionsBelow) {evm₁ : Evm}
    (h₁ : evm.stateDb.snapshot.1.Within evm₁.stateDb) (contract : Contract) (input : List UInt8) :
    evm.stateDb.Within (revertOnError (run env fuel evm₁ contract input).1 evm.stateDb.snapshot.2
      (run env fuel evm₁ contract input).2.1 (run env fuel evm₁ contract input).2.2.1
      (run env fuel evm₁ contract input).2.2.2).1.stateDb ∧
    (revertOnError (run env fuel evm₁ contract input).1 evm.stateDb.snapshot.2
      (run env fuel evm₁ contract input).2.1 (run env fuel evm₁ contract input).2.2.1
      (run env fuel evm₁ contract input).2.2.2).1.readOnly = evm₁.readOnly := by
  have hs₁ : evm₁.stateDb.RevisionsBelow :=
    ((Within.snapshot (Within.refl _)).trans h₁).revisionsBelow hs
  have hr := ih.run evm₁ contract input hs₁
  obtain ⟨hw, hro'⟩ := revertOnError_reaches hs (h₁.trans hr.within)
    (run env fuel evm₁ contract input).2.1 (run env fuel evm₁ contract input).2.2.1
    (run env fuel evm₁ contract input).2.2.2
  exact ⟨hw, hro'.trans hr.readOnly⟩

lemma run_revert_reaches {evm : Evm} (hs : evm.stateDb.RevisionsBelow) {evm₁ : Evm}
    (h₁ : evm.stateDb.snapshot.1.Within evm₁.stateDb) (hro : evm₁.readOnly = evm.readOnly)
    (contract : Contract) (input : List UInt8) :
    evm.Reaches (revertOnError (run env fuel evm₁ contract input).1 evm.stateDb.snapshot.2
      (run env fuel evm₁ contract input).2.1 (run env fuel evm₁ contract input).2.2.1
      (run env fuel evm₁ contract input).2.2.2).1 :=
  have h := run_revert ih hs h₁ contract input
  ⟨h.1, h.2.trans hro⟩

lemma call_reaches (evm : Evm) (caller addr : Address) (input : List UInt8) (gas : UInt64)
    (value : ℕ) (hs : evm.stateDb.RevisionsBelow) :
    evm.Reaches (call env (fuel + 1) evm caller addr input gas value).1 := by
  simp only [call]
  split_ifs
  · exact .refl _
  · exact .refl _
  · exact .refl _
  · exact ⟨Within.snapshot (Within.refl _), rfl⟩
  · refine run_revert_reaches ih hs ?_ ?_ _ _
    · exact within_transfer ((Within.refl _).createAccount env.keccak addr) caller addr value
    · rfl
  · refine run_revert_reaches ih hs ?_ ?_ _ _
    · exact within_transfer (Within.refl _) caller addr value
    · rfl

lemma callCode_reaches (evm : Evm) (caller addr : Address) (input : List UInt8) (gas : UInt64)
    (value : ℕ) (hs : evm.stateDb.RevisionsBelow) :
    evm.Reaches (callCode env (fuel + 1) evm caller addr input gas value).1 := by
  simp only [callCode]
  split_ifs
  · exact .refl _
  · exact .refl _
  · exact .refl _
  · refine run_revert_reaches ih hs ?_ ?_ _ _
    · exact Within.refl _
    · rfl

lemma delegateCall_reaches (evm : Evm) (parent : Contract) (addr : Address) (input : List UInt8)
    (gas : UInt64) (hs : evm.stateDb.RevisionsBelow) :
    evm.Reaches (delegateCall env (fuel + 1) evm parent addr input gas).1 := by
  simp only [delegateCall]
  split_ifs
  · exact .refl _
  · exact .refl _
  · refine run_revert_reaches ih hs ?_ ?_ _ _
    · exact Within.refl _
    · rfl

/-- The static frame runs read-only; the flag is put back only by the frame that set it, so
it ends as it was. -/
lemma staticCall_reaches (evm : Evm) (caller addr : Address) (input : List UInt8) (gas : UInt64)
    (hs : evm.stateDb.RevisionsBelow) :
    evm.Reaches (staticCall env (fuel + 1) evm caller addr input gas).1 := by
  simp only [staticCall]
  split_ifs with _ _ hro
  · exact .refl _
  · exact .refl _
  · refine ⟨(run_revert ih hs ?_ _ _).1, ?_⟩
    · exact Within.refl _
    · simpa using hro
  · refine run_revert_reaches ih hs ?_ ?_ _ _
    · exact Within.refl _
    · simpa using hro

/-- `Create`'s run of the init code from its snapshot, taken after the nonce bump `hn`, then
`createFinish`. -/
lemma run_createFinish_reaches {evm : Evm} (hs : evm.stateDb.RevisionsBelow) {s : StateDb}
    (hn : evm.stateDb.Within s) {evm₁ : Evm} (h₁ : s.snapshot.1.Within evm₁.stateDb)
    (hro : evm₁.readOnly = evm.readOnly) (contractAddr : Address) (contract : Contract) :
    evm.Reaches (createFinish env (run env fuel evm₁ contract []).1 s.snapshot.2 contractAddr
      (run env fuel evm₁ contract []).2.1 (run env fuel evm₁ contract []).2.2.1
      (run env fuel evm₁ contract []).2.2.2).1 := by
  have hs₀ := hn.revisionsBelow hs
  have hs₁ : evm₁.stateDb.RevisionsBelow :=
    ((Within.snapshot (Within.refl _)).trans h₁).revisionsBelow hs₀
  have hr := ih.run evm₁ contract [] hs₁
  obtain ⟨hw, hro'⟩ := createFinish_reaches env hs₀ (h₁.trans hr.within) contractAddr
    (run env fuel evm₁ contract []).2.1 (run env fuel evm₁ contract []).2.2.1
    (run env fuel evm₁ contract []).2.2.2
  exact ⟨hn.trans hw, hro'.trans (hr.readOnly.trans hro)⟩

lemma create_reaches (evm : Evm) (caller : Address) (code : List UInt8) (gas : UInt64)
    (value : ℕ) (hs : evm.stateDb.RevisionsBelow) :
    evm.Reaches (create env (fuel + 1) evm caller code gas value).1 := by
  simp only [create]
  have hn := (Within.refl evm.stateDb).setNonceOf env.keccak caller
    (evm.stateDb.getNonce caller + 1)
  split_ifs
  · exact .refl _
  · exact .refl _
  · exact ⟨hn, rfl⟩
  · refine ⟨hn.trans ?_, rfl⟩
    exact within_transfer ((((Within.refl _).snapshot).createAccount _ _).setNonceOf _ _ _) _ _ _
  · refine ⟨hn.trans ?_, rfl⟩
    exact within_transfer (((Within.refl _).snapshot).createAccount _ _) _ _ _
  · refine run_createFinish_reaches ih hs hn ?_ ?_ _ _
    · exact within_transfer (((Within.refl _).createAccount _ _).setNonceOf _ _ _) _ _ _
    · rfl
  · refine run_createFinish_reaches ih hs hn ?_ ?_ _ _
    · exact within_transfer ((Within.refl _).createAccount _ _) _ _ _
    · rfl

lemma run_reaches (evm : Evm) (contract : Contract) (input : List UInt8)
    (hs : evm.stateDb.RevisionsBelow) :
    evm.Reaches (run env (fuel + 1) evm contract input).1 := by
  simp only [run]
  split
  · split
    · split <;> exact .refl _
    · exact .refl _
  · have hd : evm.Reaches { evm with depth := evm.depth + 1, returnData := [] } :=
      ⟨Within.refl _, rfl⟩
    split_ifs
    · exact hd.withDepth _
    · exact hd.trans ((ih.loop { evm with depth := evm.depth + 1, returnData := [] } _ hs).withDepth _)

lemma loop_reaches (evm : Evm) (f : Frame) (hs : evm.stateDb.RevisionsBelow) :
    evm.Reaches (loop env (fuel + 1) evm f).1 := by
  simp only [loop]
  split
  · exact .refl _
  next op _ =>
  split
  · exact .refl _
  · exact .refl _
  · exact .refl _
  next memorySize _ _ _ =>
  split
  next evm' hc => exact chargeGas_error_reaches env hc
  next evm₁ f₁ hc =>
    have h₁ := chargeGas_ok_reaches env hc
    have h₂ := h₁.trans (ih.step evm₁
      (if 0 < memorySize then { f₁ with mem := f₁.mem.resize memorySize.toNat } else f₁) op
      (h₁.revisionsBelow hs))
    split
    · exact h₂.withReturnData (op.returns = true) _
    · by_cases hrev : op.reverts = true
      · rw [if_pos hrev]
        exact h₂.withReturnData (op.returns = true) _
      rw [if_neg hrev]
      by_cases hhalt : op.halts = true
      · rw [if_pos hhalt]
        exact h₂.withReturnData (op.returns = true) _
      · rw [if_neg hhalt]
        have h₃ := h₂.withReturnData (op.returns = true) (step env fuel evm₁
          (if 0 < memorySize then { f₁ with mem := f₁.mem.resize memorySize.toNat } else f₁)
          op).2.2.1
        exact h₃.trans (ih.loop _ _ (h₃.revisionsBelow hs))

lemma step_reaches (evm : Evm) (f : Frame) (op : Op) (hs : evm.stateDb.RevisionsBelow) :
    evm.Reaches (step env (fuel + 1) evm f op).1 := by
  unfold GoXdn.Vm.step
  dsimp only
  split
  case h_6 =>
    split
    · rename_i evm' f' res hx
      obtain ⟨he, hro, -, -⟩ := execute_effect hx
      exact ⟨he.within (Within.refl _), hro⟩
    · exact .refl _
  all_goals
    split
    · exact .refl _
    try rw [afterCall_fst]
  · exact ih.call _ _ _ _ _ _ hs
  · exact ih.callCode _ _ _ _ _ _ hs
  · exact ih.delegateCall _ _ _ _ _ hs
  · exact ih.staticCall _ _ _ _ _ hs
  · exact ih.create _ _ _ _ _ hs

end Succ

/-- Every function of the mutual block keeps to the journal, at every fuel. -/
theorem sound : ∀ fuel, Sound env fuel
  | 0 => sound_zero env
  | fuel + 1 =>
    have ih := sound fuel
    { call := call_reaches ih
      callCode := callCode_reaches ih
      delegateCall := delegateCall_reaches ih
      staticCall := staticCall_reaches ih
      create := create_reaches ih
      run := run_reaches ih
      loop := loop_reaches ih
      step := step_reaches ih }

/-- A run from a snapshot stays within the state the snapshot was taken at. -/
lemma run_within (fuel : ℕ) {s : StateDb} (hs : s.RevisionsBelow) {evm₁ : Evm}
    (h₁ : s.snapshot.1.Within evm₁.stateDb) (contract : Contract) (input : List UInt8) :
    s.snapshot.1.Within (run env fuel evm₁ contract input).1.stateDb :=
  h₁.trans ((sound env fuel).run evm₁ contract input
    (((Within.refl s).snapshot.trans h₁).revisionsBelow hs)).within

end Sound

end GoXdn.Vm
