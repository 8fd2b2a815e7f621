import GoXdn.Lib.Buffer
import GoXdn.Lib.GoStd

/-!
# Proof-of-capacity cells

`poc/poc.go`.  A cell is a chain of 8192 shabal-256 hashes seeded by a plot id and a nonce,
each hash taken over the up to 128 hashes after it, and the whole chain is then XOR-ed with the
hash of itself.  `genCell`, which the verifier calls, builds the chain by prepending and mirrors
it into the PoC2 order (`rearrange`); `genCellForP`, which the plotter calls, fills a fixed
buffer from its end and leaves the mirroring to the plot writer.  Shabal-256 is a parameter:
only its 32-byte digests matter here.  The header hashes the verifier derives from a cell
(`genSignature`, `genHash`, `getScoopID`, `calcTarget`, `calcDeadLine`) and the plot id of an
address (`calcPlotID`) close the file.
-/

namespace GoXdn.Poc

open Buffer GoStd

/-- `HASH_SIZE`. -/
def hashSize : ℕ := 32
/-- `CELL_SIZE`: hashes in a cell. -/
def cellSize : ℕ := 8192
/-- `PLOT_SIZE`: the bytes of the 128 hashes each hash is taken over. -/
def plotSize : ℕ := 4096

variable (H : Hash256)

/-- `comBytes := append(pubBytes, nonceBytes...)`. -/
def comBytes (nonce pub : UInt64) : List UInt8 := putUint64 pub ++ putUint64 nonce

/-- One pass of `GenCell`'s first loop: the new hash goes in front of the chain. -/
def genCellStep (com : List UInt8) (i : ℕ) (cellBytes : List UInt8) : List UInt8 :=
  if i = cellSize - 1 then H.sum com
  else
    let c := if plotSize ≤ cellBytes.length then slice cellBytes 0 plotSize else cellBytes ++ com
    H.sum c ++ cellBytes

/-- One pass of `GenCellForP`'s first loop: the new hash is copied into the buffer at `i`. -/
def genCellForPStep (com : List UInt8) (i : ℕ) (cellBytes : List UInt8) : List UInt8 :=
  if i = cellSize - 1 then setRange cellBytes (i * hashSize) (H.sum com)
  else
    let c :=
      if i < cellSize - 128 then
        slice cellBytes ((i + 1) * hashSize) ((i + 1) * hashSize + 128 * hashSize)
      else slice cellBytes ((i + 1) * hashSize) (cellSize * hashSize) ++ com
    setRange cellBytes (i * hashSize) (H.sum c)

/-- The closing loop both generators share: every hash XOR-ed with `final`. -/
def xorFinal (final cellBytes : List UInt8) : List UInt8 :=
  forDown (fun i b =>
    setRange b (i * hashSize)
      (List.zipWith (· ^^^ ·) (slice b (i * hashSize) ((i + 1) * hashSize)) final))
    (cellSize - 1) cellBytes

/-- `rearrange`: the PoC2 order, odd hashes taken from the mirrored end. -/
def rearrange (src : List UInt8) : List UInt8 :=
  (List.range cellSize).flatMap fun i =>
    if i % 2 = 0 then slice src (hashSize * i) (hashSize * (i + 1))
    else slice src (hashSize * (cellSize - i)) (hashSize * (cellSize - i + 1))

/-- `GenCell(nonce, pub)`. -/
def genCell (nonce pub : UInt64) : List UInt8 :=
  let com := comBytes nonce pub
  let cellBytes := forDown (genCellStep H com) (cellSize - 1) []
  let final := H.sum (cellBytes ++ com)
  rearrange (xorFinal final cellBytes)

/-- `GenCellForP(nonce, pub)`. -/
def genCellForP (nonce pub : UInt64) : List UInt8 :=
  let com := comBytes nonce pub
  let cellBytes :=
    forDown (genCellForPStep H com) (cellSize - 1) (List.replicate (cellSize * hashSize) 0)
  let final := H.sum (cellBytes ++ com)
  xorFinal final cellBytes

/-- `GenSignature(lastGenSig, lastPubID)`. -/
def genSignature (lastGenSig : List UInt8) (lastPubID : UInt64) : List UInt8 :=
  H.sum (lastGenSig ++ putUint64 lastPubID)

/-- `GenHash(genSig, number)`. -/
def genHash (genSig : List UInt8) (number : UInt64) : List UInt8 :=
  H.sum (genSig ++ putUint64 number)

/-- `GetScoopID(genHash)`: `int(genHash[30] << 8) | int(genHash[31])`, taken mod 4096.  The
shift is done on a `byte`, so byte 30 drops out. -/
def getScoopID (genHash : List UInt8) : ℕ :=
  ((shlByte (genHash.getD 30 0) 8).toNat ||| (genHash.getD 31 0).toNat) % 4096

/-- `CalcTarget(scoop_1, scoop_2, genSig)`. -/
def calcTarget (scoop1 scoop2 genSig : List UInt8) : List UInt8 :=
  H.sum (scoop1 ++ scoop2 ++ genSig)

/-- `CalcDeadLine(target, baseTarget)`: `big.Int.Div`, which panics on a zero divisor. -/
def calcDeadLine (target baseTarget : ℤ) : Option ℤ :=
  if baseTarget = 0 then none else some (target / baseTarget)

/-- `CalcPlotID(addr)`: bytes 15 on of the address, read as a big-endian `uint64`. -/
def calcPlotID (addr : List UInt8) : Option UInt64 := beUint64 (addr.drop 15)

end GoXdn.Poc
