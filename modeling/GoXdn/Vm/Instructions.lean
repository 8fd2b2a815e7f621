import Mathlib
import GoXdn.Lib.Buffer
import GoXdn.Lib.GoStd
import GoXdn.State.StateDb

/-!
# The instruction set

The data of `core/vm`: stack words, `Memory`, `Contract`, the jump-destination analysis, the
opcodes with their entries of the jump tables (`jump_table.go`: stack bounds, memory size, the
flags), the gas functions (`gas_table.go`, `gas.go`) and the constants of `params`.

A stack item is a natural number, the `*big.Int` the source keeps below `2^256` by `math.U256`;
the stack's head is its top, so `Back(n)` is the item at index `n`. Gas is `uint64` as in the
source, so its arithmetic wraps where the source's does.
-/

namespace GoXdn.Vm

open GoStd State

/-- The fork rules the EVM reads (`params.Rules`, and the `ChainConfig.IsX` tests at the block
number). -/
structure Rules where
  isHomestead : Bool
  isEIP150 : Bool
  isEIP158 : Bool
  isByzantium : Bool

structure GasTable where
  extcodeSize : UInt64
  extcodeCopy : UInt64
  balance : UInt64
  sLoad : UInt64
  calls : UInt64
  suicide : UInt64
  expByte : UInt64
  createBySuicide : UInt64

def gasTableHomestead : GasTable := ⟨20, 20, 20, 50, 40, 0, 10, 0⟩
def gasTableEIP150 : GasTable := ⟨700, 700, 400, 200, 700, 5000, 10, 25000⟩
def gasTableEIP158 : GasTable := ⟨700, 700, 400, 200, 700, 5000, 50, 25000⟩

/-- `ChainConfig.GasTable`. -/
def Rules.gasTable (r : Rules) : GasTable :=
  if r.isEIP158 then gasTableEIP158 else if r.isEIP150 then gasTableEIP150 else gasTableHomestead

section Params

def gasQuickStep : UInt64 := 2
def gasFastestStep : UInt64 := 3
def gasFastStep : UInt64 := 5
def gasMidStep : UInt64 := 8
def gasSlowStep : UInt64 := 10
def gasExtStep : UInt64 := 20
def jumpdestGas : UInt64 := 1
def callValueTransferGas : UInt64 := 9000
def callNewAccountGas : UInt64 := 25000
def quadCoeffDiv : UInt64 := 512
def sstoreSetGas : UInt64 := 20000
def logDataGas : UInt64 := 8
def callStipend : UInt64 := 2300
def sha3Gas : UInt64 := 30
def sha3WordGas : UInt64 := 6
def sstoreResetGas : UInt64 := 5000
def sstoreClearGas : UInt64 := 5000
def sstoreRefundGas : UInt64 := 15000
def createDataGas : UInt64 := 200
def callCreateDepth : ℕ := 1024
def logGas : UInt64 := 375
def copyGas : UInt64 := 3
def stackLimit : ℕ := 1024
def logTopicGas : UInt64 := 375
def createGas : UInt64 := 32000
def suicideRefundGas : UInt64 := 24000
def memoryGas : UInt64 := 3
def maxCodeSize : ℕ := 24576

end Params

/-- The errors of the interpreter and the call paths, with the texts of `errors.go` and
`instructions.go`; `panic` is a runtime panic of the source, and `outOfFuel` the end of the
model's fuel, which has no counterpart in the source. -/
inductive VmError
  | outOfGas
  | codeStoreOutOfGas
  | depth
  | insufficientBalance
  | contractAddressCollision
  | writeProtection
  | returnDataOutOfBounds
  | executionReverted
  | maxCodeSizeExceeded
  | gasUintOverflow
  | invalidOpcode (op : UInt8)
  | stackUnderflow (len required : ℕ)
  | stackLimitReached (len limit : ℕ)
  | invalidJump (dest : ℕ)
  | precompile (text : String)
  | panic
  | outOfFuel
deriving DecidableEq, Repr

def VmError.text : VmError → String
  | .outOfGas => "out of gas"
  | .codeStoreOutOfGas => "contract creation code storage out of gas"
  | .depth => "max call depth exceeded"
  | .insufficientBalance => "insufficient balance for transfer"
  | .contractAddressCollision => "contract address collision"
  | .writeProtection => "evm: write protection"
  | .returnDataOutOfBounds => "evm: return data out of bounds"
  | .executionReverted => "evm: execution reverted"
  | .maxCodeSizeExceeded => "evm: max code size exceeded"
  | .gasUintOverflow => "gas uint64 overflow"
  | .invalidOpcode _ => "invalid opcode"
  | .stackUnderflow _ _ => "stack underflow"
  | .stackLimitReached _ _ => "stack limit reached"
  | .invalidJump _ => "invalid jump destination"
  | .precompile text => text
  | .panic => "panic"
  | .outOfFuel => "out of fuel"

/-! ## Words -/

/-- `math.U256`. -/
def u256 (x : ℤ) : ℕ := (x % 2 ^ 256).toNat

/-- `math.S256`. -/
def s256 (x : ℕ) : ℤ := if x < 2 ^ 255 then x else (x : ℤ) - 2 ^ 256

/-- `bigUint64`: the low 64 bits, and whether the value needs more. -/
def bigUint64 (v : ℕ) : UInt64 × Bool := (UInt64.ofNat v, decide (2 ^ 64 ≤ v))

/-- `math.SafeAdd`. -/
def safeAdd (x y : UInt64) : UInt64 × Bool := (x + y, decide (UInt64.ofNat (2 ^ 64 - 1) - x < y))

/-- `math.SafeMul`. -/
def safeMul (x y : UInt64) : UInt64 × Bool :=
  if x = 0 ∨ y = 0 then (0, false) else (x * y, decide (UInt64.ofNat (2 ^ 64 - 1) / x < y))

/-- `toWordSize`. -/
def toWordSize (size : UInt64) : UInt64 :=
  if UInt64.ofNat (2 ^ 64 - 1) - 31 < size then UInt64.ofNat (2 ^ 64 - 1) / 32 + 1
  else (size + 31) / 32

/-- `common.RightPadBytes`. -/
def rightPadBytes (b : List UInt8) (l : ℕ) : List UInt8 :=
  if l ≤ b.length then b else b ++ List.replicate (l - b.length) 0

/-- `getDataBig`: `size` bytes of `data` from `start`, zero-padded. -/
def getDataBig (data : List UInt8) (start size : ℕ) : List UInt8 :=
  let s := min start data.length
  let e := min (s + size) data.length
  rightPadBytes (Buffer.slice data s e) (size % 2 ^ 64)

/-- `calcMemSize`. -/
def calcMemSize (off l : ℕ) : ℕ := if l = 0 then 0 else off + l

/-- The 32 big-endian bytes of a word (`math.PaddedBigBytes(v, 32)` for `v < 2^256`). -/
def wordBytes (v : ℕ) : List UInt8 :=
  (List.range 32).map fun i => UInt8.ofNat (v / 256 ^ (31 - i))

/-- `math.Exp`: square-and-multiply over the 64-bit words of the exponent, truncated to 256
bits after every product. -/
def expBits : ℕ → ℕ → ℕ → ℕ → ℕ
  | 0, _, result, _ => result
  | n + 1, e, result, base =>
    expBits n (e / 2) (if e % 2 = 1 then u256 (result * base) else result) (u256 (base * base))

def mathExp (base exponent : ℕ) : ℕ := expBits (64 * ((Nat.size exponent + 63) / 64)) exponent 1 base

/-- `opSignExtend` on `back < 31`. -/
def signExtend (back num : ℕ) : ℕ :=
  let bit := back * 8 + 7
  let mask := 2 ^ bit - 1
  if num.testBit bit then u256 ((num ||| (2 ^ 256 - 1 - mask) : ℕ)) else num &&& mask

/-! ## Memory -/

structure Memory where
  store : List UInt8
  lastGasCost : UInt64

namespace Memory

def new : Memory := ⟨[], 0⟩

def resize (m : Memory) (size : ℕ) : Memory :=
  if m.store.length < size then { m with store := m.store ++ List.replicate (size - m.store.length) 0 }
  else m

/-- `Set`: the panics of the source for a store too small. -/
def set (m : Memory) (offset size : ℕ) (value : List UInt8) : Except VmError Memory :=
  if m.store.length < size then .error .panic
  else if size = 0 then .ok m
  else if m.store.length < offset + size then .error .panic
  else
    let n := min size value.length
    .ok { m with store := m.store.take offset ++ value.take n ++ m.store.drop (offset + n) }

/-- `Get` (and `GetPtr`, which differs only in sharing the store). -/
def get (m : Memory) (offset size : ℕ) : Except VmError (List UInt8) :=
  if size = 0 then .ok []
  else if offset < m.store.length then
    if m.store.length < offset + size then .error .panic
    else .ok (Buffer.slice m.store offset (offset + size))
  else .ok []

end Memory

/-- `memoryGasCost`: the quadratic fee for growing to `newMemSize`, charged for the growth only;
the memory records the new total. -/
def memoryGasCost (mem : Memory) (newMemSize : UInt64) : Except VmError (UInt64 × Memory) :=
  if newMemSize = 0 then .ok (0, mem)
  else if (0xffffffffe0 : UInt64) < newMemSize then .error .gasUintOverflow
  else
    let newMemSizeWords := toWordSize newMemSize
    let newMemSize := newMemSizeWords * 32
    if UInt64.ofNat mem.store.length < newMemSize then
      let square := newMemSizeWords * newMemSizeWords
      let linCoef := newMemSizeWords * memoryGas
      let quadCoef := square / quadCoeffDiv
      let newTotalFee := linCoef + quadCoef
      .ok (newTotalFee - mem.lastGasCost, { mem with lastGasCost := newTotalFee })
    else .ok (0, mem)

/-! ## Contracts and jump destinations -/

structure Contract where
  callerAddress : Address
  self : Address
  code : List UInt8
  codeHash : List UInt8
  codeAddr : Option Address
  input : List UInt8
  gas : UInt64
  value : ℕ
  delegateCall : Bool

namespace Contract

def getByte (c : Contract) (n : UInt64) : UInt8 := c.code.getD n.toNat 0

/-- `UseGas`: `none` when the gas left is short. -/
def useGas (c : Contract) (gas : UInt64) : Option Contract :=
  if c.gas < gas then none else some { c with gas := c.gas - gas }

end Contract

/-- `bitvec.set`: marks position `pos` (bit `7 - pos % 8` of byte `pos / 8`); `none` is the index
panic of a byte past the end. -/
def bitvecSet (bits : List UInt8) (pos : ℕ) : Option (List UInt8) :=
  if pos / 8 < bits.length then
    some (bits.modify (pos / 8) (· ||| ((0x80 : UInt8) >>> UInt8.ofNat (pos % 8))))
  else none

/-- `bitvec.set8`: marks the eight positions from `pos`, which straddle bytes `pos / 8` and
`pos / 8 + 1`. -/
def bitvecSet8 (bits : List UInt8) (pos : ℕ) : Option (List UInt8) :=
  if pos / 8 + 1 < bits.length then
    some ((bits.modify (pos / 8) (· ||| ((0xFF : UInt8) >>> UInt8.ofNat (pos % 8)))).modify (pos / 8 + 1)
      (· ||| ~~~((0xFF : UInt8) >>> UInt8.ofNat (pos % 8))))
  else none

/-- `bitvec.codeSegment`: whether position `pos` is not marked. -/
def codeSegment (bits : List UInt8) (pos : ℕ) : Option Bool :=
  bits[pos / 8]?.map fun b => (b &&& ((0x80 : UInt8) >>> UInt8.ofNat (pos % 8))) == 0

/-- The loop of `codeBitmap`, marking the argument bytes of each `PUSHn` (`fuel` bounds the
passes; each advances `pc`). -/
def codeBitmapLoop (code : List UInt8) : ℕ → ℕ → List UInt8 → Option (List UInt8)
  | 0, _, bits => some bits
  | fuel + 1, pc, bits =>
    if pc < code.length then
      let op := code.getD pc 0
      if 0x60 ≤ op ∧ op ≤ 0x7f then do
        let numbits := (op - 0x60 + 1).toNat
        let bits ← (List.range (numbits / 8)).foldlM (fun b i => bitvecSet8 b (pc + 1 + 8 * i)) bits
        let pc8 := pc + 1 + 8 * (numbits / 8)
        let bits ← (List.range (numbits % 8)).foldlM (fun b i => bitvecSet b (pc8 + i)) bits
        codeBitmapLoop code fuel (pc8 + numbits % 8) bits
      else codeBitmapLoop code fuel (pc + 1) bits
    else some bits

/-- `codeBitmap`: four spare bytes for a `PUSH32` that runs off the end of the code. -/
def codeBitmap (code : List UInt8) : Option (List UInt8) :=
  codeBitmapLoop code (code.length + 1) 0 (List.replicate (code.length / 8 + 1 + 4) 0)

/-- `destinations.has`; the analysis is cached per code hash in the source, which gives the
same bitmap for the same code. `none` is a panic of the analysis. -/
def jumpdestHas (code : List UInt8) (dest : ℕ) : Option Bool :=
  if 2 ^ 62 ≤ dest ∨ code.length ≤ dest then some false
  else do
    let m ← codeBitmap code
    if code.getD dest 0 = 0x5b then codeSegment m dest else some false

/-! ## Opcodes and the jump tables -/

/-- The operations of the jump tables; `push n`, `dup n`, `swap n` and `log n` stand for
`PUSHn`, `DUPn`, `SWAPn` and `LOGn`, and `ret` for `RETURN`. -/
inductive Op
  | stop | add | mul | sub | div | sdiv | mod | smod | addmod | mulmod | exp | signextend
  | lt | gt | slt | sgt | eq | iszero | and | or | xor | not | byte | sha3
  | address | balance | origin | caller | callvalue | calldataload | calldatasize
  | calldatacopy | codesize | codecopy | gasprice | extcodesize | extcodecopy
  | returndatasize | returndatacopy
  | blockhash | coinbase | timestamp | number | difficulty | gaslimit
  | pop | mload | mstore | mstore8 | sload | sstore | jump | jumpi | pc | msize | gas | jumpdest
  | push (n : ℕ) | dup (n : ℕ) | swap (n : ℕ) | log (n : ℕ)
  | create | call | callcode | ret | delegatecall | staticcall | revert | selfdestruct
deriving DecidableEq, Repr

namespace Op

/-- The opcode byte values of `opcodes.go`. -/
def decode (b : UInt8) : Option Op :=
  let n := b.toNat
  if 0x60 ≤ n ∧ n ≤ 0x7f then some (push (n - 0x5f))
  else if 0x80 ≤ n ∧ n ≤ 0x8f then some (dup (n - 0x7f))
  else if 0x90 ≤ n ∧ n ≤ 0x9f then some (swap (n - 0x8f))
  else if 0xa0 ≤ n ∧ n ≤ 0xa4 then some (log (n - 0xa0))
  else
    match n with
    | 0x00 => some stop | 0x01 => some add | 0x02 => some mul | 0x03 => some sub
    | 0x04 => some div | 0x05 => some sdiv | 0x06 => some mod | 0x07 => some smod
    | 0x08 => some addmod | 0x09 => some mulmod | 0x0a => some exp | 0x0b => some signextend
    | 0x10 => some lt | 0x11 => some gt | 0x12 => some slt | 0x13 => some sgt
    | 0x14 => some eq | 0x15 => some iszero | 0x16 => some and | 0x17 => some or
    | 0x18 => some xor | 0x19 => some not | 0x1a => some byte | 0x20 => some sha3
    | 0x30 => some address | 0x31 => some balance | 0x32 => some origin | 0x33 => some caller
    | 0x34 => some callvalue | 0x35 => some calldataload | 0x36 => some calldatasize
    | 0x37 => some calldatacopy | 0x38 => some codesize | 0x39 => some codecopy
    | 0x3a => some gasprice | 0x3b => some extcodesize | 0x3c => some extcodecopy
    | 0x3d => some returndatasize | 0x3e => some returndatacopy
    | 0x40 => some blockhash | 0x41 => some coinbase | 0x42 => some timestamp
    | 0x43 => some number | 0x44 => some difficulty | 0x45 => some gaslimit
    | 0x50 => some pop | 0x51 => some mload | 0x52 => some mstore | 0x53 => some mstore8
    | 0x54 => some sload | 0x55 => some sstore | 0x56 => some jump | 0x57 => some jumpi
    | 0x58 => some pc | 0x59 => some msize | 0x5a => some gas | 0x5b => some jumpdest
    | 0xf0 => some create | 0xf1 => some call | 0xf2 => some callcode | 0xf3 => some ret
    | 0xf4 => some delegatecall | 0xfa => some staticcall | 0xfd => some revert
    | 0xff => some selfdestruct
    | _ => none

/-- Whether the instruction set of the rules holds the operation: `DELEGATECALL` from
Homestead, `STATICCALL`, `RETURNDATASIZE`, `RETURNDATACOPY` and `REVERT` from Byzantium. -/
def available (r : Rules) : Op → Bool
  | delegatecall => r.isByzantium || r.isHomestead
  | staticcall | returndatasize | returndatacopy | revert => r.isByzantium
  | _ => true

/-- `cfg.JumpTable[op]`, `none` where the entry is not `valid`. -/
def jumpTable (r : Rules) (b : UInt8) : Option Op :=
  match decode b with
  | some op => if op.available r then some op else none
  | none => none

/-- The `(pop, push)` of each entry's `makeStackFunc`. -/
def stackBounds : Op → ℕ × ℕ
  | stop | jumpdest => (0, 0)
  | add | mul | sub | div | sdiv | mod | smod | exp | signextend | lt | gt | slt | sgt | eq
  | and | or | xor | byte | sha3 => (2, 1)
  | addmod | mulmod => (3, 1)
  | iszero | not | balance | calldataload | extcodesize | blockhash | mload | sload => (1, 1)
  | address | origin | caller | callvalue | calldatasize | codesize | gasprice
  | returndatasize | coinbase | timestamp | number | difficulty | gaslimit | pc | msize | gas
  | push _ => (0, 1)
  | calldatacopy | codecopy | returndatacopy => (3, 0)
  | extcodecopy => (4, 0)
  | pop | jump | selfdestruct => (1, 0)
  | mstore | mstore8 | sstore | jumpi | ret | revert => (2, 0)
  | dup n => (n, n + 1)
  | swap n => (n + 1, n + 1)
  | log n => (n + 2, 0)
  | create => (3, 1)
  | call | callcode => (7, 1)
  | delegatecall | staticcall => (6, 1)

/-- `validateStack`: `none` when the stack passes. -/
def validateStack (op : Op) (stack : List ℕ) : Option VmError :=
  let (popped, pushed) := op.stackBounds
  if stack.length < popped then some (.stackUnderflow stack.length popped)
  else if stackLimit < stack.length + pushed - popped then
    some (.stackLimitReached stack.length stackLimit)
  else none

def halts : Op → Bool
  | stop | ret | selfdestruct => true
  | _ => false

def jumps : Op → Bool
  | jump | jumpi => true
  | _ => false

/-- The `writes` flag: the operations a read-only frame may not run. -/
def writes : Op → Bool
  | sstore | log _ | create | selfdestruct => true
  | _ => false

def reverts : Op → Bool
  | revert => true
  | _ => false

def returns : Op → Bool
  | create | call | callcode | delegatecall | staticcall | revert => true
  | _ => false

/-- The `memorySize` function of each entry, on the stack; `none` for the entries without. -/
def memorySize (op : Op) (st : List ℕ) : Option ℕ :=
  let b := fun i => st.getD i 0
  match op with
  | sha3 | ret | revert | log _ => some (calcMemSize (b 0) (b 1))
  | calldatacopy | returndatacopy | codecopy => some (calcMemSize (b 0) (b 2))
  | extcodecopy => some (calcMemSize (b 1) (b 3))
  | mload | mstore => some (calcMemSize (b 0) 32)
  | mstore8 => some (calcMemSize (b 0) 1)
  | create => some (calcMemSize (b 1) (b 2))
  | call | callcode => some (max (calcMemSize (b 5) (b 6)) (calcMemSize (b 3) (b 4)))
  | delegatecall | staticcall => some (max (calcMemSize (b 4) (b 5)) (calcMemSize (b 2) (b 3)))
  | _ => none

end Op

end GoXdn.Vm
