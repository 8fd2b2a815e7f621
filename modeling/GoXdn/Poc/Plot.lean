import GoXdn.Poc.Cell
import GoXdn.Lib.Strconv

/-!
# The plot writer

`cmd/plot/main.go`.  A plot file `<plotID>_<nonce>_<count>` holds `count` cells, stored scoop
by scoop: scoop `k` of every nonce, in nonce order, then scoop `k + 1`.  The file is first
filled with zeros (`createFile`); the per-file loop then generates cells in batches of
`onceHandle` and, for each batch, sends one block per scoop to the writing loop, which writes
it with `WriteAt` at `64 * count * k + 64 * j * onceHandle`.  One goroutine handles a file,
so its blocks reach the writer in the order they were sent (`plotFile`).
-/

namespace GoXdn.Poc

open Buffer GoStd

variable (H : Hash256)

/-- `SingCount` of `parseParam`: the whole 256 KB cells in a file of `sing` bytes, by the
truncating division of `int64`. -/
def singCountOf (sing : ℤ) : ℤ := sing.tdiv (256 * 1024)

/-- `makeName(plotID, nonce, singCount)`, `fmt.Sprintf("%v_%v_%v", ...)`. -/
def makeName (plotID nonce : UInt64) (singCount : ℤ) : List Char :=
  decimal plotID.toNat ++ '_' :: (decimal nonce.toNat ++ '_' :: decimalInt singCount)

/-- A block of plot data and the offset it goes to (`WaitWrite`). -/
structure WaitWrite where
  data : List UInt8
  index : ℕ

/-- `onceHandle`: nonces generated per batch. -/
def onceHandle : ℕ := 400

/-- `createFile`: `size` zero bytes, written in 20 MB pieces and a remainder. -/
def createFile (size : ℕ) : List UInt8 :=
  let battleSize := 20 * 1024 * 1024
  (List.replicate (size / battleSize) (List.replicate battleSize 0)).flatten ++
    List.replicate (size % battleSize) 0

/-- The block for scoop `k` of a batch: for each cell, hash `2k` and its mirror. -/
def scoopData (cells : List (List UInt8)) (k : ℕ) : List UInt8 :=
  cells.flatMap fun c =>
    slice c (32 * (2 * k)) (32 * (2 * k) + 32) ++
      slice c ((8192 - (2 * k + 1)) * 32) ((8192 - (2 * k + 1)) * 32 + 32)

/-- `once` in batch `j` of a file of `singCount` nonces. -/
def batchSize (singCount j : ℕ) : ℕ :=
  if singCount / onceHandle ≤ j then singCount % onceHandle else onceHandle

/-- Batches `j`, `j + 1`, … of a file, from `currentNonce = cur`, with `fuel` passes of the
`j` loop left.  A batch of size zero breaks the loop. -/
def fileBatches (plotID : UInt64) (singCount : ℕ) : ℕ → ℕ → UInt64 → List (List WaitWrite)
  | 0, _, _ => []
  | fuel + 1, j, cur =>
    let once := batchSize singCount j
    if once = 0 then []
    else
      let cells := (List.range once).map fun p => genCellForP H (cur + UInt64.ofNat p) plotID
      ((List.range 4096).map fun k =>
          ⟨scoopData cells k, 64 * singCount * k + 64 * j * onceHandle⟩) ::
        fileBatches plotID singCount fuel (j + 1) (cur + UInt64.ofNat once)

/-- The plot file `<plotID>_<nonce>_<singCount>` once the writer has written every block. -/
def plotFile (plotID nonce : UInt64) (singCount : ℕ) : List UInt8 :=
  ((fileBatches H plotID singCount (singCount / onceHandle + 1) 0 nonce).flatten).foldl
    (fun f w => writeAt f w.index w.data) (createFile (singCount * (256 * 1024)))

end GoXdn.Poc
