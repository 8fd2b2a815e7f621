import GoXdn.Poc.Cell

/-!
# The proof-of-capacity engine

`consensus/xdnoc/dnpoc.go`: the header checks (`verifyHeader`), the seal check
(`verifySeal`), the base-target retargeting the miner seals with (`calcBaseTarget`) and the
difficulty `Prepare` sets.  Shabal-256 is a parameter, and so is the clock: `now` is
`time.Now().Unix()`.  A Go runtime panic (a nil header, a division by zero, a short slice) is the
error `panic`.
-/

namespace GoXdn.Consensus

open GoStd Buffer Poc

/-- The fields of `types.Header` the engine reads.  `Coinbase` is kept as the bytes
`Address.Bytes()` returns; `Nonce` and `PlotID` as the `uint64` their eight bytes encode. -/
structure Header where
  parentHash : List UInt8
  coinbase : List UInt8
  difficulty : ℤ
  number : ℤ
  gasLimit : ℤ
  gasUsed : ℤ
  time : ℤ
  extra : List UInt8
  nonce : UInt64
  plotID : UInt64
  genSig : List UInt8
  genSig_length : genSig.length = 32
  baseTarget : ℤ
  deadLine : ℤ
  lastTime : ℤ
  deriving DecidableEq

/-- The errors `verifyHeader` returns, with the values their messages print. -/
inductive VerifyError
  | extraDataTooLong (len max : ℕ)
  | largeBlockTime
  | futureBlock
  | zeroBlockTime
  | gasLimitTooBig (value max : ℤ)
  | gasUsedTooBig (value limit : ℤ)
  | invalidGasLimit (value want bound : ℤ)
  | invalidNumber
  | plotIDMismatch
  | deadlineCompute
  | deadlineNotSatisfy
  | timeMismatch
  | panic
  deriving DecidableEq, Repr

/-- The message each error prints. -/
def VerifyError.text : VerifyError → String
  | .extraDataTooLong len max => s!"extra-data too long: {len} > {max}"
  | .largeBlockTime => "timestamp too big"
  | .futureBlock => "block in the future"
  | .zeroBlockTime => "timestamp equals parent's"
  | .gasLimitTooBig value max => s!"invalid gasLimit: have {value}, max {max}"
  | .gasUsedTooBig value limit => s!"invalid gasUsed: have {value}, gasLimit {limit}"
  | .invalidGasLimit value want bound => s!"invalid gas limit: have {value}, want {want} += {bound}"
  | .invalidNumber => "invalid block number"
  | .plotIDMismatch => "plotID mismatch"
  | .deadlineCompute => "deadline compute error"
  | .deadlineNotSatisfy => "deadline not satisfy"
  | .timeMismatch => "time mismatch"
  | .panic => "runtime panic"

/-- `params.MaximumExtraDataSize`. -/
def maximumExtraDataSize : ℕ := 32
/-- `math.MaxBig256`. -/
def maxBig256 : ℤ := 2 ^ 256 - 1
/-- `math.MaxBig63`. -/
def maxBig63 : ℤ := 2 ^ 63 - 1
/-- `params.GasLimitBoundDivisor`. -/
def gasLimitBoundDivisor : ℤ := 1024
/-- `params.MinGasLimit`. -/
def minGasLimit : ℤ := 5000
/-- `initBaseTarget`. -/
def initBaseTarget : ℤ := 5000000000000000

/-- `x.Uint64()` on a `big.Int`: the low 64 bits of its magnitude. -/
def bigUint64 (x : ℤ) : UInt64 := UInt64.ofNat x.natAbs

variable (H : Hash256) (now : ℤ)

/-- The target `VerifySeal` recomputes: the last eight bytes of the hash of the scoop the
header's `GenSig` and number select in the cell of its nonce. -/
def sealTarget (h : Header) : ℕ :=
  let genHash := genHash H h.genSig (bigUint64 h.number)
  let scoopID := getScoopID genHash
  let cells := genCell H h.nonce h.plotID
  let scoop1 := slice cells (64 * scoopID) (64 * scoopID + 32)
  let scoop2 := slice cells (64 * scoopID + 32) (64 * scoopID + 64)
  beNat ((calcTarget H scoop1 scoop2 h.genSig).drop 24)

/-- `VerifySeal(chain, header)`. -/
def verifySeal (h : Header) : Except VerifyError Unit :=
  match calcPlotID h.coinbase with
  | none => .error .panic
  | some addrPlotID => do
    failIf (h.plotID ≠ addrPlotID) .plotIDMismatch
    match calcDeadLine (sealTarget H h) h.baseTarget with
    | none => .error .panic
    | some deadline => do
      failIf (deadline ≠ h.deadLine) .deadlineCompute
      failIf (¬ deadline + h.lastTime < h.time) .deadlineNotSatisfy
      failIf (h.time - 15 > now) .timeMismatch

/-- `verifyHeader(chain, header, parent, uncle, seal)`. -/
def verifyHeader (h parent : Header) (uncle seal' : Bool) : Except VerifyError Unit := do
  failIf (h.extra.length > maximumExtraDataSize)
    (.extraDataTooLong h.extra.length maximumExtraDataSize)
  if uncle then failIf (h.time > maxBig256) .largeBlockTime
  else failIf (h.time > now) .futureBlock
  failIf (h.time ≤ parent.time) .zeroBlockTime
  failIf (h.gasLimit > maxBig63) (.gasLimitTooBig h.gasLimit maxBig63)
  failIf (h.gasUsed > h.gasLimit) (.gasUsedTooBig h.gasUsed h.gasLimit)
  let diff := |parent.gasLimit - h.gasLimit|
  let limit := parent.gasLimit / gasLimitBoundDivisor
  failIf (diff ≥ limit ∨ h.gasLimit < minGasLimit) (.invalidGasLimit h.gasLimit parent.gasLimit limit)
  failIf (h.number - parent.number ≠ 1) .invalidNumber
  if seal' then verifySeal H now h else pure ()

/-- `Prepare`: the only difficulty a miner gives its header. -/
def prepare (h : Header) : Header := { h with difficulty := 1 }

/-- The loop `for i := number - 1; i > number - 5; i--` of `calcBaseTarget`, summing the base
targets and deadlines of the headers it reads (`count` passes left). -/
def sumBack (getHeaderByNumber : UInt64 → Option Header) : UInt64 → ℕ → ℤ × ℤ → Option (ℤ × ℤ)
  | _, 0, acc => some acc
  | i, count + 1, acc => do
    let h ← getHeaderByNumber i
    sumBack getHeaderByNumber (i - 1) count (acc.1 + h.baseTarget, acc.2 + h.deadLine)

/-- `calcBaseTarget(chain, number)`; `none` where a header it reads is missing. -/
def calcBaseTarget (getHeaderByNumber : UInt64 → Option Header) (number : UInt64) : Option ℤ :=
  if number ≤ 5 then some initBaseTarget
  else do
    let (sumBT, sumDL) ← sumBack getHeaderByNumber (number - 1) 4 (0, 0)
    let aver := sumBT / 4
    let timeDiff := sumDL / 4
    let newBaseTarget := aver * timeDiff / 60
    let newBaseTarget := if newBaseTarget < 0 then initBaseTarget else newBaseTarget
    let saver := aver * 9 / 10
    if newBaseTarget < saver then pure saver
    else
      let baver := aver * 11 / 10
      if newBaseTarget > baver then pure baver else pure newBaseTarget

end GoXdn.Consensus
