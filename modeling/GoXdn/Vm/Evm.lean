import Mathlib
import GoXdn.Lib.Buffer
import GoXdn.Lib.GoStd
import GoXdn.State.StateDb
import GoXdn.Vm.Instructions

/-!
# The EVM

A model of `core/vm`'s interpreter loop (`Interpreter.Run` with `enforceRestrictions`), the gas
functions, the execution functions of `instructions.go`, and the message calls of `evm.go`
(`Call`, `CallCode`, `DelegateCall`, `StaticCall`, `Create`, and `run` with the precompiled
contracts).

The message calls and the interpreter call each other; one `fuel` argument bounds the whole
recursion, every call and every interpreter step spending one unit. `CanTransfer` and
`Transfer` are the functions `core/evm.go` puts into the `Context`. The hash, the contract
address derivation `crypto.CreateAddress` and the precompiled contracts other than the identity
are parameters: they are cryptography, not the EVM.
-/

namespace GoXdn.Vm

open GoStd State

structure Config where
  noRecursion : Bool
  enablePreimageRecording : Bool
  disableGasMetering : Bool

/-- The block and message data of `vm.Context`. -/
structure Context where
  getHash : ℕ → ℕ
  origin : Address
  gasPrice : ℕ
  coinbase : Address
  gasLimit : ℕ
  blockNumber : ℕ
  time : ℕ
  difficulty : ℕ

structure PrecompiledContract where
  requiredGas : List UInt8 → UInt64
  run : List UInt8 → Except VmError (List UInt8)

/-- The identity contract `dataCopy`. -/
def dataCopy : PrecompiledContract :=
  ⟨fun input => UInt64.ofNat ((input.length + 31) / 32) * 3 + 15, fun input => .ok input⟩

/-- The cryptographic precompiled contracts. -/
structure Crypto where
  ecrecover : PrecompiledContract
  sha256hash : PrecompiledContract
  ripemd160hash : PrecompiledContract
  bigModExp : PrecompiledContract
  bn256Add : PrecompiledContract
  bn256ScalarMul : PrecompiledContract
  bn256Pairing : PrecompiledContract

def precompiledContractsHomestead (c : Crypto) : Address → Option PrecompiledContract
  | 1 => some c.ecrecover
  | 2 => some c.sha256hash
  | 3 => some c.ripemd160hash
  | 4 => some dataCopy
  | _ => none

def precompiledContractsByzantium (c : Crypto) : Address → Option PrecompiledContract
  | 5 => some c.bigModExp
  | 6 => some c.bn256Add
  | 7 => some c.bn256ScalarMul
  | 8 => some c.bn256Pairing
  | a => precompiledContractsHomestead c a

/-- What an EVM is built with and never changes. -/
structure Env where
  keccak : Hash256
  createAddress : Address → UInt64 → Address
  crypto : Crypto
  ctx : Context
  rules : Rules
  config : Config

def Env.precompiles (env : Env) : Address → Option PrecompiledContract :=
  if env.rules.isByzantium then precompiledContractsByzantium env.crypto
  else precompiledContractsHomestead env.crypto

/-- The mutable part of the EVM and its interpreter: the state, the call depth, the
interpreter's `readOnly` flag and its last return data. -/
structure Evm where
  stateDb : StateDb
  depth : ℕ
  readOnly : Bool
  returnData : List UInt8

/-- An interpreter frame: program counter, stack, memory and the running contract. -/
structure Frame where
  pc : UInt64
  stack : List ℕ
  mem : Memory
  contract : Contract

/-- What a message call returns: its output, the gas left, and its error. -/
structure CallResult where
  ret : List UInt8
  gas : UInt64
  err : Option VmError

/-- `common.BigToAddress`: the low `AddressLength` bytes of a number, and an address has 23 bytes
in this fork (`crypto.CreateAddress` keeps the last 23 bytes of a Keccak-256). -/
def bigToAddress (x : ℕ) : Address := x % 2 ^ 184

def canTransfer (db : StateDb) (addr : Address) (amount : ℕ) : Bool :=
  decide ((amount : ℤ) ≤ db.getBalance addr)

def transfer (K : Hash256) (db : StateDb) (sender recipient : Address) (amount : ℕ) : StateDb :=
  (db.subBalance K sender amount).addBalance K recipient amount

/-- `NewContract` with `SetCallCode`. -/
def newContract (caller self : Address) (value : ℕ) (gas : UInt64) (codeAddr : Address)
    (codeHash code : List UInt8) : Contract :=
  ⟨caller, self, code, codeHash, some codeAddr, [], gas, value, false⟩

section Gas

variable (env : Env) (evm : Evm) (contract : Contract) (st : List ℕ) (mem : Memory)

/-- What a gas function returns: the cost, and the stack and memory it leaves (the call gas
functions rewrite the top of the stack). -/
structure GasOut where
  cost : UInt64
  stack : List ℕ
  mem : Memory

def constGas (g : UInt64) : Except VmError GasOut := .ok ⟨g, st, mem⟩

/-- `memoryGasCost` followed by a checked addition of `g`. -/
def memoryGasPlus (memorySize g : UInt64) : Except VmError (UInt64 × Memory) := do
  let (gas, mem) ← memoryGasCost mem memorySize
  let (gas, overflow) := safeAdd gas g
  if overflow then throw .gasUintOverflow
  pure (gas, mem)

/-- The copy operations' gas: memory, a base, and `CopyGas` per word of the item at `i`. -/
def gasCopy (base : UInt64) (i : ℕ) (memorySize : UInt64) : Except VmError GasOut := do
  let (gas, mem) ← memoryGasPlus mem memorySize base
  let (words, overflow) := bigUint64 (st.getD i 0)
  if overflow then throw .gasUintOverflow
  let (words, overflow) := safeMul (toWordSize words) copyGas
  if overflow then throw .gasUintOverflow
  let (gas, overflow) := safeAdd gas words
  if overflow then throw .gasUintOverflow
  pure ⟨gas, st, mem⟩

/-- `callGas`: from EIP-150 on, at most all but one 64th of what is left after `base`. -/
def callGas (gt : GasTable) (availableGas base : UInt64) (callCost : ℕ) : Except VmError UInt64 :=
  let availableGas := availableGas - base
  let gas := availableGas - availableGas / 64
  if 0 < gt.createBySuicide ∧ (2 ^ 64 ≤ callCost ∨ gas < UInt64.ofNat callCost) then .ok gas
  else if 2 ^ 64 ≤ callCost then .error .gasUintOverflow
  else .ok (UInt64.ofNat callCost)

/-- The tail of the call gas functions: memory, the call's own gas put on top of the stack. -/
def gasCallTail (gas memorySize : UInt64) : Except VmError GasOut := do
  let (gas, mem) ← memoryGasPlus mem memorySize gas
  let cg ← callGas env.rules.gasTable contract.gas gas (st.getD 0 0)
  let (gas, overflow) := safeAdd gas cg
  if overflow then throw .gasUintOverflow
  pure ⟨gas, (cg.toNat :: st.drop 1), mem⟩

def gasCall (memorySize : UInt64) : Except VmError GasOut :=
  let transfersValue := st.getD 2 0 ≠ 0
  let address := bigToAddress (st.getD 1 0)
  let gas := env.rules.gasTable.calls
  let gas := if env.rules.isEIP158 then
      (if transfersValue ∧ evm.stateDb.empty env.keccak address then gas + callNewAccountGas else gas)
    else if !evm.stateDb.exist address then gas + callNewAccountGas else gas
  let gas := if transfersValue then gas + callValueTransferGas else gas
  gasCallTail env contract st mem gas memorySize

def gasCallCode (memorySize : UInt64) : Except VmError GasOut :=
  let gas := env.rules.gasTable.calls
  let gas := if st.getD 2 0 ≠ 0 then gas + callValueTransferGas else gas
  gasCallTail env contract st mem gas memorySize

def gasSStore : Except VmError GasOut :=
  let val := evm.stateDb.getState contract.self (st.getD 0 0)
  let y := st.getD 1 0
  if val = 0 ∧ y ≠ 0 then .ok ⟨sstoreSetGas, st, mem⟩
  else if val ≠ 0 ∧ y = 0 then .ok ⟨sstoreClearGas, st, mem⟩
  else .ok ⟨sstoreResetGas, st, mem⟩

/-- The `AddRefund` that `gasSStore` makes when a slot is cleared. -/
def gasSStoreRefund : Option ℕ :=
  let val := evm.stateDb.getState contract.self (st.getD 0 0)
  let y := st.getD 1 0
  if val = 0 ∧ y ≠ 0 then none
  else if val ≠ 0 ∧ y = 0 then some sstoreRefundGas.toNat
  else none

def gasSuicide : Except VmError GasOut :=
  let gt := env.rules.gasTable
  let address := bigToAddress (st.getD 0 0)
  let db := evm.stateDb
  let gas : UInt64 := if env.rules.isEIP150 then
      if env.rules.isEIP158 then
        (if db.empty env.keccak address ∧ db.getBalance contract.self ≠ 0 then
          gt.suicide + gt.createBySuicide else gt.suicide)
      else if !db.exist address then gt.suicide + gt.createBySuicide else gt.suicide
    else 0
  .ok ⟨gas, st, mem⟩

/-- The `AddRefund` that `gasSuicide` makes for a contract not yet suicided. -/
def gasSuicideRefund : Option ℕ :=
  if !evm.stateDb.hasSuicided contract.self then some suicideRefundGas.toNat else none

def makeGasLog (n : ℕ) (memorySize : UInt64) : Except VmError GasOut := do
  let (requestedSize, overflow) := bigUint64 (st.getD 1 0)
  if overflow then throw .gasUintOverflow
  let (gas, mem) ← memoryGasPlus mem memorySize logGas
  let (gas, overflow) := safeAdd gas (UInt64.ofNat n * logTopicGas)
  if overflow then throw .gasUintOverflow
  let (memorySizeGas, overflow) := safeMul requestedSize logDataGas
  if overflow then throw .gasUintOverflow
  let (gas, overflow) := safeAdd gas memorySizeGas
  if overflow then throw .gasUintOverflow
  pure ⟨gas, st, mem⟩

def gasSha3 (memorySize : UInt64) : Except VmError GasOut := do
  let (gas, mem) ← memoryGasPlus mem memorySize sha3Gas
  let (wordGas, overflow) := bigUint64 (st.getD 1 0)
  if overflow then throw .gasUintOverflow
  let (wordGas, overflow) := safeMul (toWordSize wordGas) sha3WordGas
  if overflow then throw .gasUintOverflow
  let (gas, overflow) := safeAdd gas wordGas
  if overflow then throw .gasUintOverflow
  pure ⟨gas, st, mem⟩

def gasExp : Except VmError GasOut :=
  let expByteLen := UInt64.ofNat ((Nat.size (st.getD 1 0) + 7) / 8)
  let (gas, overflow) := safeAdd (expByteLen * env.rules.gasTable.expByte) gasSlowStep
  if overflow then .error .gasUintOverflow else .ok ⟨gas, st, mem⟩

/-- The memory-only gas functions (`gasMLoad`, `gasMStore`, `gasMStore8`, `gasCreate`,
`gasReturn`, `gasRevert`, and the start of `gasDelegateCall` and `gasStaticCall`). -/
def gasMemory (g memorySize : UInt64) : Except VmError GasOut := do
  let (gas, mem) ← memoryGasPlus mem memorySize g
  pure ⟨gas, st, mem⟩

/-- The `gasCost` of each jump-table entry. -/
def gasCost (op : Op) (memorySize : UInt64) : Except VmError GasOut :=
  let gt := env.rules.gasTable
  match op with
  | .stop => constGas st mem 0
  | .add | .sub | .lt | .gt | .slt | .sgt | .eq | .iszero | .and | .xor | .or | .not | .byte
  | .calldataload | .push _ | .dup _ | .swap _ => constGas st mem gasFastestStep
  | .mul | .div | .sdiv | .mod | .smod | .signextend => constGas st mem gasFastStep
  | .addmod | .mulmod | .jump => constGas st mem gasMidStep
  | .exp => gasExp env st mem
  | .sha3 => gasSha3 st mem memorySize
  | .address | .origin | .caller | .callvalue | .calldatasize | .codesize | .gasprice
  | .coinbase | .timestamp | .number | .difficulty | .gaslimit | .pop | .pc | .msize | .gas
  | .returndatasize => constGas st mem gasQuickStep
  | .balance => constGas st mem gt.balance
  | .extcodesize => constGas st mem gt.extcodeSize
  | .sload => constGas st mem gt.sLoad
  | .calldatacopy | .returndatacopy | .codecopy => gasCopy st mem gasFastestStep 2 memorySize
  | .extcodecopy => gasCopy st mem gt.extcodeCopy 3 memorySize
  | .blockhash => constGas st mem gasExtStep
  | .mload | .mstore | .mstore8 => gasMemory st mem gasFastestStep memorySize
  | .sstore => gasSStore evm contract st mem
  | .jumpi => constGas st mem gasSlowStep
  | .jumpdest => constGas st mem jumpdestGas
  | .log n => makeGasLog st mem n memorySize
  | .create => gasMemory st mem createGas memorySize
  | .call => gasCall env evm contract st mem memorySize
  | .callcode => gasCallCode env contract st mem memorySize
  | .delegatecall | .staticcall => gasCallTail env contract st mem gt.calls memorySize
  | .ret | .revert => gasMemory st mem 0 memorySize
  | .selfdestruct => gasSuicide env evm contract st mem

/-- The refund a gas function adds to the state; the source makes it inside `gasSStore` and
`gasSuicide`, which never fail, before the cost is charged. -/
def gasRefund (op : Op) : Option ℕ :=
  match op with
  | .sstore => gasSStoreRefund evm contract st
  | .selfdestruct => gasSuicideRefund evm contract
  | _ => none

end Gas

section Execute

variable (env : Env)

def Frame.push (f : Frame) (v : ℕ) (rest : List ℕ) : Frame := { f with stack := v :: rest }

/-- The execution functions of `instructions.go` other than the calls: the new state, frame
and return data; the pops of an entry below its stack bound are the panics of the source. -/
def execute (evm : Evm) (f : Frame) (op : Op) : Except VmError (Evm × Frame × List UInt8) :=
  let ok := fun (f' : Frame) => Except.ok (evm, f', ([] : List UInt8))
  let c := f.contract
  let db := evm.stateDb
  match op, f.stack with
  | .stop, _ => ok f
  | .add, x :: y :: r => ok (f.push (u256 (x + y)) r)
  | .mul, x :: y :: r => ok (f.push (u256 (x * y)) r)
  | .sub, x :: y :: r => ok (f.push (u256 ((x : ℤ) - y)) r)
  | .div, x :: y :: r => ok (f.push (if y ≠ 0 then x / y else 0) r)
  | .sdiv, x :: y :: r =>
    let x := s256 x
    let y := s256 y
    ok (f.push (if y = 0 then 0
      else u256 ((x.natAbs / y.natAbs : ℕ) * (if x * y < 0 then -1 else 1))) r)
  | .mod, x :: y :: r => ok (f.push (if y = 0 then 0 else x % y) r)
  | .smod, x :: y :: r =>
    let x := s256 x
    let y := s256 y
    ok (f.push (if y = 0 then 0
      else u256 ((x.natAbs % y.natAbs : ℕ) * (if x < 0 then -1 else 1))) r)
  | .addmod, x :: y :: z :: r => ok (f.push (if 0 < z then (x + y) % z else 0) r)
  | .mulmod, x :: y :: z :: r => ok (f.push (if 0 < z then (x * y) % z else 0) r)
  | .exp, base :: exponent :: r => ok (f.push (mathExp base exponent) r)
  | .signextend, back :: r =>
    if back < 31 then
      match r with
      | num :: r => ok (f.push (signExtend back num) r)
      | [] => .error .panic
    else ok { f with stack := r }
  | .lt, x :: y :: r => ok (f.push (if x < y then 1 else 0) r)
  | .gt, x :: y :: r => ok (f.push (if y < x then 1 else 0) r)
  | .slt, x :: y :: r => ok (f.push (if s256 x < s256 y then 1 else 0) r)
  | .sgt, x :: y :: r => ok (f.push (if s256 y < s256 x then 1 else 0) r)
  | .eq, x :: y :: r => ok (f.push (if x = y then 1 else 0) r)
  | .iszero, x :: r => ok (f.push (if 0 < x then 0 else 1) r)
  | .and, x :: y :: r => ok (f.push (x &&& y) r)
  | .or, x :: y :: r => ok (f.push (x ||| y) r)
  | .xor, x :: y :: r => ok (f.push (x ^^^ y) r)
  | .not, x :: r => ok (f.push (u256 (-(x : ℤ) - 1)) r)
  | .byte, th :: val :: r => ok (f.push (if th < 32 then val / 256 ^ (31 - th) % 256 else 0) r)
  | .sha3, offset :: size :: r => do
    let data ← f.mem.get offset size
    let hash := env.keccak.sum data
    let db := if env.config.enablePreimageRecording then db.addPreimage (beNat hash) data else db
    pure ({ evm with stateDb := db }, f.push (beNat hash) r, [])
  | .address, r => ok (f.push c.self r)
  | .balance, x :: r => ok (f.push (db.getBalance (bigToAddress x)).toNat r)
  | .origin, r => ok (f.push env.ctx.origin r)
  | .caller, r => ok (f.push c.callerAddress r)
  | .callvalue, r => ok (f.push c.value r)
  | .calldataload, x :: r => ok (f.push (beNat (getDataBig c.input x 32)) r)
  | .calldatasize, r => ok (f.push c.input.length r)
  | .calldatacopy, memOffset :: dataOffset :: length :: r => do
    let mem ← f.mem.set (memOffset % 2 ^ 64) (length % 2 ^ 64) (getDataBig c.input dataOffset length)
    ok { f with stack := r, mem := mem }
  | .codesize, r => ok (f.push c.code.length r)
  | .codecopy, memOffset :: codeOffset :: length :: r => do
    let mem ← f.mem.set (memOffset % 2 ^ 64) (length % 2 ^ 64) (getDataBig c.code codeOffset length)
    ok { f with stack := r, mem := mem }
  | .gasprice, r => ok (f.push env.ctx.gasPrice r)
  | .extcodesize, x :: r => ok (f.push (db.getCode (bigToAddress x)).length r)
  | .extcodecopy, a :: memOffset :: codeOffset :: length :: r => do
    let mem ← f.mem.set (memOffset % 2 ^ 64) (length % 2 ^ 64)
      (getDataBig (db.getCode (bigToAddress a)) codeOffset length)
    ok { f with stack := r, mem := mem }
  | .returndatasize, r => ok (f.push evm.returnData.length r)
  | .returndatacopy, memOffset :: dataOffset :: length :: r =>
    let stop := dataOffset + length
    if 2 ^ 64 ≤ stop ∨ evm.returnData.length < stop then .error .returnDataOutOfBounds
    else do
      let mem ← f.mem.set (memOffset % 2 ^ 64) (length % 2 ^ 64)
        (Buffer.slice evm.returnData dataOffset stop)
      ok { f with stack := r, mem := mem }
  | .blockhash, num :: r =>
    let n : ℤ := (env.ctx.blockNumber : ℤ) - 257
    ok (f.push (if n < num ∧ num < env.ctx.blockNumber then env.ctx.getHash (num % 2 ^ 64) else 0) r)
  | .coinbase, r => ok (f.push env.ctx.coinbase r)
  | .timestamp, r => ok (f.push (u256 env.ctx.time) r)
  | .number, r => ok (f.push (u256 env.ctx.blockNumber) r)
  | .difficulty, r => ok (f.push (u256 env.ctx.difficulty) r)
  | .gaslimit, r => ok (f.push (u256 env.ctx.gasLimit) r)
  | .pop, _ :: r => ok { f with stack := r }
  | .mload, offset :: r => do
    let word ← f.mem.get offset 32
    ok (f.push (beNat word) r)
  | .mstore, mStart :: val :: r => do
    let mem ← f.mem.set (mStart % 2 ^ 64) 32 (wordBytes val)
    ok { f with stack := r, mem := mem }
  | .mstore8, off :: val :: r =>
    if off < f.mem.store.length then
      ok { f with stack := r, mem := { f.mem with store := f.mem.store.set off (UInt8.ofNat val) } }
    else .error .panic
  | .sload, loc :: r => ok (f.push (db.getState c.self loc) r)
  | .sstore, loc :: val :: r =>
    pure ({ evm with stateDb := db.setStateOf env.keccak c.self loc val }, { f with stack := r }, [])
  | .jump, pos :: r =>
    match jumpdestHas c.code pos with
    | some true => ok { f with stack := r, pc := UInt64.ofNat pos }
    | some false => .error (.invalidJump pos)
    | none => .error .panic
  | .jumpi, pos :: cond :: r =>
    if cond ≠ 0 then
      match jumpdestHas c.code pos with
      | some true => ok { f with stack := r, pc := UInt64.ofNat pos }
      | some false => .error (.invalidJump pos)
      | none => .error .panic
    else ok { f with stack := r, pc := f.pc + 1 }
  | .pc, r => ok (f.push f.pc.toNat r)
  | .msize, r => ok (f.push f.mem.store.length r)
  | .gas, r => ok (f.push c.gas.toNat r)
  | .jumpdest, _ => ok f
  | .push n, r =>
    let codeLen := c.code.length
    let startMin := min codeLen (f.pc.toNat + 1)
    let endMin := min codeLen (startMin + n)
    ok { f.push (beNat (rightPadBytes (Buffer.slice c.code startMin endMin) n)) r with
         pc := f.pc + UInt64.ofNat n }
  | .dup n, r =>
    if 0 < n ∧ n ≤ r.length then ok (f.push (r.getD (n - 1) 0) r) else .error .panic
  | .swap n, r =>
    if n < r.length then
      ok { f with stack := (r.set 0 (r.getD n 0)).set n (r.getD 0 0) }
    else .error .panic
  | .log n, mStart :: mSize :: r =>
    if n ≤ r.length then do
      let d ← f.mem.get mStart mSize
      let log : Log := ⟨c.self, r.take n, d, env.ctx.blockNumber % 2 ^ 64, 0, 0, 0, 0⟩
      pure ({ evm with stateDb := db.addLog log }, { f with stack := r.drop n }, [])
    else .error .panic
  | .ret, offset :: size :: r => do
    let ret ← f.mem.get offset size
    pure (evm, { f with stack := r }, ret)
  | .revert, offset :: size :: r => do
    let ret ← f.mem.get offset size
    pure (evm, { f with stack := r }, ret)
  | .selfdestruct, x :: r =>
    let balance := db.getBalance c.self
    let db := db.addBalance env.keccak (bigToAddress x) balance
    pure ({ evm with stateDb := (db.suicide c.self).1 }, { f with stack := r }, [])
  | _, _ => .error .panic

/-- `enforceRestrictions`: under Byzantium a read-only frame may run no writing operation, and
no `CALL` with a value. -/
def enforceRestrictions (evm : Evm) (op : Op) (stack : List ℕ) : Option VmError :=
  if env.rules.isByzantium ∧ evm.readOnly ∧ (op.writes ∨ (op = .call ∧ stack.getD 2 0 ≠ 0)) then
    some .writeProtection
  else none

/-- The memory size an entry asks for, rounded up to words: `bigUint64` of its `memorySize`
and `toWordSize * 32`, each checked for overflow. -/
def memorySizeOf (op : Op) (stack : List ℕ) : Except VmError UInt64 :=
  match op.memorySize stack with
  | none => .ok 0
  | some size =>
    let (memSize, overflow) := bigUint64 size
    if overflow then .error .gasUintOverflow
    else
      let (memorySize, overflow) := safeMul (toWordSize memSize) 32
      if overflow then .error .gasUintOverflow else .ok memorySize

end Execute

section Calls

variable (env : Env)

/-- The end of every message call on an error: back to the snapshot, and all the gas gone
unless the error is `errExecutionReverted`. -/
def revertOnError (evm : Evm) (snapshot : ℕ) (contract : Contract) (ret : List UInt8) :
    Option VmError → Evm × CallResult
  | none => (evm, ⟨ret, contract.gas, none⟩)
  | some e =>
    match evm.stateDb.revertToSnapshot snapshot with
    | none => (evm, ⟨ret, contract.gas, some .panic⟩)
    | some db =>
      ({ evm with stateDb := db }, ⟨ret, if e = .executionReverted then contract.gas else 0, some e⟩)

/-- The gas a frame is charged before an operation runs; an error, carrying the EVM, for the
gas function's error or a short `UseGas`, after the refund the gas function makes. -/
def chargeGas (evm : Evm) (f : Frame) (op : Op) (memorySize : UInt64) : Except Evm (Evm × Frame) :=
  if env.config.disableGasMetering then .ok (evm, f)
  else
    match gasCost env evm f.contract f.stack f.mem op memorySize with
    | .error _ => .error evm
    | .ok g =>
      let db := match gasRefund evm f.contract f.stack op with
        | some n => evm.stateDb.addRefund n
        | none => evm.stateDb
      match f.contract.useGas g.cost with
      | none => .error { evm with stateDb := db }
      | some c => .ok ({ evm with stateDb := db },
          { f with stack := g.stack, mem := g.mem, contract := c })

/-- The stack and return-data update after a call operation, and `contract.Gas += returnGas`. -/
def afterCall (evm : Evm) (f : Frame) (rest : List ℕ) (retOffset retSize : ℕ) (res : CallResult) :
    Evm × Frame × List UInt8 × Option VmError :=
  let f := { f with stack := (if res.err.isSome then 0 else 1) :: rest }
  let mem := if res.err = none ∨ res.err = some .executionReverted then
      f.mem.set (retOffset % 2 ^ 64) (retSize % 2 ^ 64) res.ret
    else .ok f.mem
  match mem with
  | .error e => (evm, f, [], some e)
  | .ok mem =>
    (evm, { f with mem := mem, contract := { f.contract with gas := f.contract.gas + res.gas } },
      res.ret, none)

/-- The code storage of `EVM.Create` after the init code ran without error and within the code
size limit: the code is stored if `CreateDataGas` per byte is left, else `ErrCodeStoreOutOfGas`. -/
def storeCode (evm : Evm) (contractAddr : Address) (contract : Contract) (ret : List UInt8)
    (err : Option VmError) : Evm × Contract × Option VmError :=
  if err = none ∧ ¬(env.rules.isEIP158 ∧ maxCodeSize < ret.length) then
    match contract.useGas (UInt64.ofNat ret.length * createDataGas) with
    | some c => ({ evm with stateDb := evm.stateDb.setCodeOf env.keccak contractAddr ret }, c, none)
    | none => (evm, contract, some .codeStoreOutOfGas)
  else (evm, contract, err)

/-- The end of `EVM.Create` after the init code ran: the code stored, and on an error (under
Frontier, not for a short code-storage gas) back to the snapshot with all the gas gone unless the
error is `errExecutionReverted`. -/
def createFinish (evm : Evm) (snapshot : ℕ) (contractAddr : Address) (contract : Contract)
    (ret : List UInt8) (err : Option VmError) : Evm × CallResult × Address :=
  let maxCodeSizeExceeded := env.rules.isEIP158 ∧ maxCodeSize < ret.length
  let (evm, contract, err) := storeCode env evm contractAddr contract ret err
  if maxCodeSizeExceeded ∨
      (err.isSome ∧ (env.rules.isHomestead ∨ err ≠ some .codeStoreOutOfGas)) then
    match evm.stateDb.revertToSnapshot snapshot with
    | none => (evm, ⟨ret, contract.gas, some .panic⟩, contractAddr)
    | some db =>
      ({ evm with stateDb := db },
        ⟨ret, if err = some .executionReverted then contract.gas else 0,
          if maxCodeSizeExceeded ∧ err = none then some .maxCodeSizeExceeded else err⟩,
        contractAddr)
  else (evm, ⟨ret, contract.gas, err⟩, contractAddr)

mutual

/-- `EVM.Call`. -/
def call : ℕ → Evm → Address → Address → List UInt8 → UInt64 → ℕ → Evm × CallResult
  | 0, evm, _, _, _, gas, _ => (evm, ⟨[], gas, some .outOfFuel⟩)
  | fuel + 1, evm, caller, addr, input, gas, value =>
    if env.config.noRecursion ∧ 0 < evm.depth then (evm, ⟨[], gas, none⟩)
    else if callCreateDepth < evm.depth then (evm, ⟨[], gas, some .depth⟩)
    else if !canTransfer evm.stateDb caller value then (evm, ⟨[], gas, some .insufficientBalance⟩)
    else
      let (db, snapshot) := evm.stateDb.snapshot
      if !db.exist addr ∧ env.precompiles addr = none ∧ env.rules.isEIP158 ∧ value = 0 then
        ({ evm with stateDb := db }, ⟨[], gas, none⟩)
      else
        let db := if !db.exist addr then db.createAccount env.keccak addr else db
        let db := transfer env.keccak db caller addr value
        let contract := newContract caller addr value gas addr (db.getCodeHash addr) (db.getCode addr)
        let (evm, contract, ret, err) := run fuel { evm with stateDb := db } contract input
        revertOnError evm snapshot contract ret err

/-- `EVM.CallCode`: the code of `addr` run on the caller's own account, with no transfer. -/
def callCode : ℕ → Evm → Address → Address → List UInt8 → UInt64 → ℕ → Evm × CallResult
  | 0, evm, _, _, _, gas, _ => (evm, ⟨[], gas, some .outOfFuel⟩)
  | fuel + 1, evm, caller, addr, input, gas, value =>
    if env.config.noRecursion ∧ 0 < evm.depth then (evm, ⟨[], gas, none⟩)
    else if callCreateDepth < evm.depth then (evm, ⟨[], gas, some .depth⟩)
    else if !canTransfer evm.stateDb caller value then (evm, ⟨[], gas, some .insufficientBalance⟩)
    else
      let (db, snapshot) := evm.stateDb.snapshot
      let contract := newContract caller caller value gas addr (db.getCodeHash addr) (db.getCode addr)
      let (evm, contract, ret, err) := run fuel { evm with stateDb := db } contract input
      revertOnError evm snapshot contract ret err

/-- `EVM.DelegateCall`: the caller's caller and value carried over (`AsDelegate`). -/
def delegateCall : ℕ → Evm → Contract → Address → List UInt8 → UInt64 → Evm × CallResult
  | 0, evm, _, _, _, gas => (evm, ⟨[], gas, some .outOfFuel⟩)
  | fuel + 1, evm, parent, addr, input, gas =>
    if env.config.noRecursion ∧ 0 < evm.depth then (evm, ⟨[], gas, none⟩)
    else if callCreateDepth < evm.depth then (evm, ⟨[], gas, some .depth⟩)
    else
      let (db, snapshot) := evm.stateDb.snapshot
      let contract := newContract parent.self parent.self 0 gas addr (db.getCodeHash addr)
        (db.getCode addr)
      let contract := { contract with
        callerAddress := parent.callerAddress, value := parent.value, delegateCall := true }
      let (evm, contract, ret, err) := run fuel { evm with stateDb := db } contract input
      revertOnError evm snapshot contract ret err

/-- `EVM.StaticCall`: the interpreter is read-only for the call, and the flag is cleared on the
way out only by the frame that set it. -/
def staticCall : ℕ → Evm → Address → Address → List UInt8 → UInt64 → Evm × CallResult
  | 0, evm, _, _, _, gas => (evm, ⟨[], gas, some .outOfFuel⟩)
  | fuel + 1, evm, caller, addr, input, gas =>
    if env.config.noRecursion ∧ 0 < evm.depth then (evm, ⟨[], gas, none⟩)
    else if callCreateDepth < evm.depth then (evm, ⟨[], gas, some .depth⟩)
    else
      let setsReadOnly := !evm.readOnly
      let (db, snapshot) := evm.stateDb.snapshot
      let contract := newContract caller addr 0 gas addr (db.getCodeHash addr) (db.getCode addr)
      let (evm, contract, ret, err) :=
        run fuel { evm with stateDb := db, readOnly := true } contract input
      let (evm, res) := revertOnError evm snapshot contract ret err
      (if setsReadOnly then { evm with readOnly := false } else evm, res)

/-- `EVM.Create`, with the address of the new contract. -/
def create : ℕ → Evm → Address → List UInt8 → UInt64 → ℕ → Evm × CallResult × Address
  | 0, evm, _, _, gas, _ => (evm, ⟨[], gas, some .outOfFuel⟩, 0)
  | fuel + 1, evm, caller, code, gas, value =>
    if callCreateDepth < evm.depth then (evm, ⟨[], gas, some .depth⟩, 0)
    else if !canTransfer evm.stateDb caller value then
      (evm, ⟨[], gas, some .insufficientBalance⟩, 0)
    else
      let K := env.keccak
      let nonce := evm.stateDb.getNonce caller
      let db := evm.stateDb.setNonceOf K caller (nonce + 1)
      let contractAddr := env.createAddress caller nonce
      let contractHash := db.getCodeHash contractAddr
      if db.getNonce contractAddr ≠ 0 ∨
          (contractHash ≠ List.replicate 32 0 ∧ contractHash ≠ emptyCodeHash K) then
        ({ evm with stateDb := db }, ⟨[], 0, some .contractAddressCollision⟩, 0)
      else
        let (db, snapshot) := db.snapshot
        let db := db.createAccount K contractAddr
        let db := if env.rules.isEIP158 then db.setNonceOf K contractAddr 1 else db
        let db := transfer K db caller contractAddr value
        let contract := newContract caller contractAddr value gas contractAddr (K.sum code) code
        if env.config.noRecursion ∧ 0 < evm.depth then
          ({ evm with stateDb := db }, ⟨[], gas, none⟩, contractAddr)
        else
          let (evm, contract, ret, err) := run fuel { evm with stateDb := db } contract []
          createFinish env evm snapshot contractAddr contract ret err

/-- `run`: a precompiled contract at the code address, else `Interpreter.Run`, which counts the
call depth and resets the return data. -/
def run : ℕ → Evm → Contract → List UInt8 → Evm × Contract × List UInt8 × Option VmError
  | 0, evm, contract, _ => (evm, contract, [], some .outOfFuel)
  | fuel + 1, evm, contract, input =>
    match contract.codeAddr.bind env.precompiles with
    | some p =>
      match contract.useGas (p.requiredGas input) with
      | some c =>
        match p.run input with
        | .ok out => (evm, c, out, none)
        | .error e => (evm, c, [], some e)
      | none => (evm, contract, [], some .outOfGas)
    | none =>
      let evm := { evm with depth := evm.depth + 1, returnData := [] }
      if contract.code = [] then ({ evm with depth := evm.depth - 1 }, contract, [], none)
      else
        let (evm, f, ret, err) := loop fuel evm ⟨0, [], Memory.new, { contract with input := input }⟩
        ({ evm with depth := evm.depth - 1 }, f.contract, ret, err)

/-- The main loop of `Interpreter.Run`: fetch, validate the stack, enforce the restrictions,
size the memory, charge the gas, grow the memory, execute. -/
def loop : ℕ → Evm → Frame → Evm × Frame × List UInt8 × Option VmError
  | 0, evm, f => (evm, f, [], some .outOfFuel)
  | fuel + 1, evm, f =>
    let opByte := f.contract.getByte f.pc
    match Op.jumpTable env.rules opByte with
    | none => (evm, f, [], some (.invalidOpcode opByte))
    | some op =>
      match op.validateStack f.stack, enforceRestrictions env evm op f.stack,
          memorySizeOf op f.stack with
      | some e, _, _ => (evm, f, [], some e)
      | none, some e, _ => (evm, f, [], some e)
      | none, none, .error e => (evm, f, [], some e)
      | none, none, .ok memorySize =>
        match chargeGas env evm f op memorySize with
        | .error evm => (evm, f, [], some .outOfGas)
        | .ok (evm, f) =>
          let f := if 0 < memorySize then { f with mem := f.mem.resize memorySize.toNat } else f
          let (evm, f, res, err) := step fuel evm f op
          let evm := if op.returns then { evm with returnData := res } else evm
          match err with
          | some e => (evm, f, [], some e)
          | none =>
            if op.reverts then (evm, f, res, some .executionReverted)
            else if op.halts then (evm, f, res, none)
            else loop fuel evm (if op.jumps then f else { f with pc := f.pc + 1 })

/-- One operation: the calls of `opCall`, `opCallCode`, `opDelegateCall`, `opStaticCall` and
`opCreate`, and `execute` for the rest. -/
def step : ℕ → Evm → Frame → Op → Evm × Frame × List UInt8 × Option VmError
  | 0, evm, f, _ => (evm, f, [], some .outOfFuel)
  | fuel + 1, evm, f, op =>
    match op, f.stack with
    | .call, g :: addr :: value :: inOffset :: inSize :: retOffset :: retSize :: r =>
      match f.mem.get inOffset inSize with
      | .error e => (evm, f, [], some e)
      | .ok args =>
        let gas := (bigUint64 g).1
        let gas := if value ≠ 0 then gas + callStipend else gas
        let (evm, res) := call fuel evm f.contract.self (bigToAddress addr) args gas value
        afterCall evm f r retOffset retSize res
    | .callcode, g :: addr :: value :: inOffset :: inSize :: retOffset :: retSize :: r =>
      match f.mem.get inOffset inSize with
      | .error e => (evm, f, [], some e)
      | .ok args =>
        let gas := (bigUint64 g).1
        let gas := if value ≠ 0 then gas + callStipend else gas
        let (evm, res) := callCode fuel evm f.contract.self (bigToAddress addr) args gas value
        afterCall evm f r retOffset retSize res
    | .delegatecall, g :: toAddr :: inOffset :: inSize :: outOffset :: outSize :: r =>
      match f.mem.get inOffset inSize with
      | .error e => (evm, f, [], some e)
      | .ok args =>
        let (evm, res) := delegateCall fuel evm f.contract (bigToAddress toAddr) args (bigUint64 g).1
        afterCall evm f r outOffset outSize res
    | .staticcall, g :: addr :: inOffset :: inSize :: retOffset :: retSize :: r =>
      match f.mem.get inOffset inSize with
      | .error e => (evm, f, [], some e)
      | .ok args =>
        let (evm, res) := staticCall fuel evm f.contract.self (bigToAddress addr) args (bigUint64 g).1
        afterCall evm f r retOffset retSize res
    | .create, value :: offset :: size :: r =>
      match f.mem.get offset size with
      | .error e => (evm, f, [], some e)
      | .ok input =>
        let gas := f.contract.gas
        let gas := if env.rules.isEIP150 then gas - gas / 64 else gas
        let f := { f with contract := { f.contract with gas := f.contract.gas - gas } }
        let (evm, res, addr) := create fuel evm f.contract.self input gas value
        let pushed := if env.rules.isHomestead ∧ res.err = some .codeStoreOutOfGas then 0
          else if res.err.isSome ∧ res.err ≠ some .codeStoreOutOfGas then 0 else addr
        (evm, { f with stack := pushed :: r,
                       contract := { f.contract with gas := f.contract.gas + res.gas } },
          if res.err = some .executionReverted then res.ret else [], none)
    | _, _ =>
      match execute env evm f op with
      | .ok (evm, f, res) => (evm, f, res, none)
      | .error e => (evm, f, [], some e)

end

end Calls

end GoXdn.Vm
