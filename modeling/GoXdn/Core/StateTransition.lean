import Mathlib
import GoXdn.Vm.Evm
import GoXdn.Consensus.Dao

/-!
# State transitions and block processing

A model of `core/state_transition.go`, `core/state_processor.go` and `core/gaspool.go`: a
message buys its gas, pays the intrinsic gas, runs `EVM.Call` or `EVM.Create`, gets its unused gas
and its refund back at the gas price, and the coinbase is paid for the gas used; `Process` runs a
block's transactions in turn against one gas pool, finalising the state after each, after the DAO
hard fork at the fork block of a chain that supports it.

The signature recovery of `AsMessage` is left out: a transaction carries its message. The
`*big.Int` amounts are integers, natural numbers where the source never makes them negative.
Each message runs its EVM with the model's `fuel`; running out of it is one more VM error.
-/

namespace GoXdn.State.StateDb

/-- `Prepare`: the transaction and block hashes and the index the logs are filed under. -/
def prepare (db : StateDb) (thash bhash ti : ℕ) : StateDb :=
  { db with thash := thash, bhash := bhash, txIndex := ti }

end GoXdn.State.StateDb

namespace GoXdn.Core

open GoStd State StateDb Vm

/-- `Message`. `From()` and `To()` are `fromAddr` and `toAddr`. -/
structure Message where
  fromAddr : Address
  toAddr : Option Address
  gasPrice : ℕ
  gas : ℕ
  value : ℕ
  nonce : UInt64
  checkNonce : Bool
  data : List UInt8

structure Transaction where
  hash : ℕ
  msg : Message

/-- The errors that make a block invalid: those of `core/error.go`, a VM error that
`TransitionDb` passes on, and the nil dereference of a dirty address without an object in
`Finalise`. -/
inductive TxError
  | nonceTooHigh
  | nonceTooLow
  | insufficientBalanceForGas
  | gasLimitReached
  | vm (e : VmError)
  | finalise
deriving DecidableEq, Repr

def txGas : ℕ := 21000
def txGasContractCreation : ℕ := 53000
def txDataZeroGas : ℕ := 4
def txDataNonZeroGas : ℕ := 68

/-- `IntrinsicGas`. -/
def intrinsicGas (data : List UInt8) (contractCreation homestead : Bool) : ℕ :=
  let igas := if contractCreation ∧ homestead then txGasContractCreation else txGas
  if 0 < data.length then
    let nz := (data.filter (· ≠ 0)).length
    igas + nz * txDataNonZeroGas + (data.length - nz) * txDataZeroGas
  else igas

/-- `GasPool.SubGas`. -/
def subGas (gp amount : ℕ) : Except TxError ℕ :=
  if gp < amount then .error .gasLimitReached else .ok (gp - amount)

/-- `StateTransition`; the value, the data and the gas price are read off the message. -/
structure StateTransition where
  gp : ℕ
  msg : Message
  gas : UInt64
  initialGas : ℕ
  evm : Evm

/-- `NewStateTransition`. -/
def newStateTransition (evm : Evm) (msg : Message) (gp : ℕ) : StateTransition :=
  ⟨gp, msg, 0, 0, evm⟩

/-- What `TransitionDb` returns besides the error. -/
structure TransitionResult where
  ret : List UInt8
  requiredGas : ℤ
  usedGas : ℤ
  failed : Bool

namespace StateTransition

variable (env : Env)

def withState (st : StateTransition) (db : StateDb) : StateTransition :=
  { st with evm := { st.evm with stateDb := db } }

/-- `from`: the sender's account, created if missing. -/
def from' (st : StateTransition) : StateTransition :=
  if !st.evm.stateDb.exist st.msg.fromAddr then
    st.withState (st.evm.stateDb.createAccount env.keccak st.msg.fromAddr)
  else st

/-- `to`: the recipient's account, created if missing; the zero address for a creation. -/
def to' (st : StateTransition) : StateTransition × Address :=
  match st.msg.toAddr with
  | none => (st, 0)
  | some a =>
    (if !st.evm.stateDb.exist a then st.withState (st.evm.stateDb.createAccount env.keccak a)
      else st, a)

def useGas (st : StateTransition) (amount : UInt64) : Except VmError StateTransition :=
  if st.gas < amount then .error .outOfGas else .ok { st with gas := st.gas - amount }

/-- `buyGas`: the sender pays `gas * gasPrice` up front, and the block's pool gives the gas. -/
def buyGas (st : StateTransition) : Except TxError StateTransition :=
  let mgas := st.msg.gas
  if 2 ^ 64 ≤ mgas then .error (.vm .outOfGas)
  else
    let mgval := mgas * st.msg.gasPrice
    let st := st.from' env
    if st.evm.stateDb.getBalance st.msg.fromAddr < mgval then .error .insufficientBalanceForGas
    else
      match subGas st.gp mgas with
      | .error e => .error e
      | .ok gp =>
        let st := { st with gp := gp, gas := st.gas + UInt64.ofNat mgas, initialGas := mgas }
        .ok (st.withState (st.evm.stateDb.subBalance env.keccak st.msg.fromAddr mgval))

def preCheck (st : StateTransition) : Except TxError StateTransition :=
  let st := st.from' env
  let nonce := st.evm.stateDb.getNonce st.msg.fromAddr
  if st.msg.checkNonce ∧ nonce < st.msg.nonce then .error .nonceTooHigh
  else if st.msg.checkNonce ∧ st.msg.nonce < nonce then .error .nonceTooLow
  else st.buyGas env

/-- `gasUsed`: `initialGas - gas`, a `*big.Int`. -/
def gasUsed (st : StateTransition) : ℤ := st.initialGas - st.gas.toNat

/-- `refundGas`: the unused gas back to the sender at the gas price, then the refund counter,
capped at half the gas used, likewise; the gas left goes back to the pool. `Uint64` of a
`*big.Int` keeps the low 64 bits of its absolute value. -/
def refundGas (st : StateTransition) : StateTransition :=
  let st := st.from' env
  let sender := st.msg.fromAddr
  let remaining : ℤ := st.gas.toNat * st.msg.gasPrice
  let st := st.withState (st.evm.stateDb.addBalance env.keccak sender remaining)
  let uhalf := st.gasUsed / 2
  let refund := min uhalf st.evm.stateDb.refund
  let st := { st with gas := st.gas + UInt64.ofNat refund.natAbs }
  let st := st.withState (st.evm.stateDb.addBalance env.keccak sender (refund * st.msg.gasPrice))
  { st with gp := st.gp + st.gas.toNat }

/-- The message's run on the EVM: `Create` of its data, or the nonce bump and `Call` of its
recipient; the gas left, the output and the VM error. -/
def runMessage (fuel : ℕ) (st : StateTransition) : StateTransition × List UInt8 × Option VmError :=
  let sender := st.msg.fromAddr
  match st.msg.toAddr with
  | none =>
    let (evm, res, _) := create env fuel st.evm sender st.msg.data st.gas st.msg.value
    ({ st with evm := evm, gas := res.gas }, res.ret, res.err)
  | some _ =>
    let st := st.withState
      (st.evm.stateDb.setNonceOf env.keccak sender (st.evm.stateDb.getNonce sender + 1))
    let (st, toAddr) := st.to' env
    let (evm, res) := call env fuel st.evm sender toAddr st.msg.data st.gas st.msg.value
    ({ st with evm := evm, gas := res.gas }, res.ret, res.err)

/-- `TransitionDb`: a VM error fails the message but not the block, except
`ErrInsufficientBalance`. -/
def transitionDb (fuel : ℕ) (st : StateTransition) :
    Except TxError (StateTransition × TransitionResult) :=
  match st.preCheck env with
  | .error e => .error e
  | .ok st =>
    let st := st.from' env
    let igas := intrinsicGas st.msg.data st.msg.toAddr.isNone env.rules.isHomestead
    if 2 ^ 64 ≤ igas then .error (.vm .outOfGas)
    else
      match st.useGas (UInt64.ofNat igas) with
      | .error e => .error (.vm e)
      | .ok st =>
        let (st, ret, vmerr) := st.runMessage env fuel
        if vmerr = some .insufficientBalance then .error (.vm .insufficientBalance)
        else
          let requiredGas := st.gasUsed
          let st := st.refundGas env
          let st := st.withState (st.evm.stateDb.addBalance env.keccak env.ctx.coinbase
            (st.gasUsed * st.msg.gasPrice))
          .ok (st, ⟨ret, requiredGas, st.gasUsed, vmerr.isSome⟩)

end StateTransition

/-- `ApplyMessage`: the state transition and the gas pool after it, with the gas used and
whether the message failed. -/
def applyMessage (env : Env) (fuel : ℕ) (evm : Evm) (msg : Message) (gp : ℕ) :
    Except TxError (StateTransition × TransitionResult) :=
  (newStateTransition evm msg gp).transitionDb env fuel

/-- The EVM context `NewEVMContext` makes for a message: its sender is the origin, its gas
price the gas price; the block's data and the coinbase stay. -/
def newEVMContext (env : Env) (msg : Message) : Env :=
  { env with ctx := { env.ctx with origin := msg.fromAddr, gasPrice := msg.gasPrice } }

structure Receipt where
  failed : Bool
  cumulativeGasUsed : ℤ
  txHash : ℕ
  gasUsed : ℤ
  contractAddress : Option Address
  logs : List Log

/-- `ApplyTransaction`: the message applied, then the state finalised (the source takes the
intermediate root before Byzantium, which finalises the same way), the receipt with the running
total of gas; with the gas pool and the total after it. -/
def applyTransaction (env : Env) (fuel : ℕ) (gp : ℕ) (db : StateDb) (tx : Transaction)
    (usedGas : ℤ) : Except TxError (Receipt × ℕ × StateDb × ℤ) :=
  let env := newEVMContext env tx.msg
  match applyMessage env fuel ⟨db, 0, false, []⟩ tx.msg gp with
  | .error e => .error e
  | .ok (st, res) =>
    match st.evm.stateDb.finalise env.keccak (env.rules.isByzantium || env.rules.isEIP158) with
    | none => .error .finalise
    | some db =>
      let usedGas := usedGas + res.usedGas
      let receipt : Receipt := ⟨res.failed, usedGas, tx.hash, res.usedGas,
        if tx.msg.toAddr = none then some (env.createAddress env.ctx.origin tx.msg.nonce) else none,
        db.logs tx.hash⟩
      .ok (receipt, st.gp, db, usedGas)

/-- The loop of `Process` over the transactions from index `i`, with the gas pool and the
running total. -/
def applyTransactions (env : Env) (fuel bhash : ℕ) :
    ℕ → ℕ → ℤ → List Transaction → StateDb → Except TxError (List Receipt × ℤ × StateDb)
  | _, _, usedGas, [], db => .ok ([], usedGas, db)
  | i, gp, usedGas, tx :: txs, db =>
    match applyTransaction env fuel gp (db.prepare tx.hash bhash i) tx usedGas with
    | .error e => .error e
    | .ok (receipt, gp, db, usedGas) =>
      match applyTransactions env fuel bhash (i + 1) gp usedGas txs db with
      | .error e => .error e
      | .ok (receipts, usedGas, db) => .ok (receipt :: receipts, usedGas, db)

/-- `Process` up to `engine.Finalize`: the DAO hard fork at the fork block of a configuration
that supports it, then the transactions; the receipts, all their logs, the gas used and the
state. The gas pool starts at the block's gas limit. -/
def process (config : Consensus.ChainConfig) (env : Env) (fuel bhash : ℕ) (txs : List Transaction)
    (db : StateDb) : Except TxError (List Receipt × List Log × ℤ × StateDb) :=
  let db := if config.daoForkSupport && config.daoForkBlock == some env.ctx.blockNumber then
    Consensus.applyDAOHardFork env.keccak db else db
  match applyTransactions env fuel bhash 0 env.ctx.gasLimit 0 txs db with
  | .error e => .error e
  | .ok (receipts, usedGas, db) => .ok (receipts, receipts.flatMap (·.logs), usedGas, db)

end GoXdn.Core
