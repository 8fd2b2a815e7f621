import Mathlib
import GoXdn.Lib.Bitutil

/-!
# Sparse bitset compression

`common/bitutil/compress.go`. A byte string is compressed to the compression of the bitset of
its non-zero positions (`len(data)` bits, most significant first) followed by its non-zero
bytes; strings of at most one byte, and those of zeros only, are their own base cases.
Decompression needs the length of the output and walks the levels back, all of them reading
one input with one pointer.
-/

namespace GoXdn.Bitutil

/-- The errors of decompression. -/
inductive BitError
  | missingData | unreferencedData | exceededTarget | zeroContent
  deriving DecidableEq, Repr

/-- Setting bit `i` of a bitset, `nonZeroBitset[i/8] |= 1 << byte(7-i%8)`. -/
def setBit (bitset : List UInt8) (i : ℕ) : List UInt8 :=
  bitset.modify (i / 8) (· ||| 1 <<< (7 - i % 8).toUInt8)

/-- The bitset the loop of `bitsetEncodeBytes` gathers: a bit for each non-zero byte. -/
def nonZeroBitset (data : List UInt8) : List UInt8 :=
  (List.range data.length).foldl (fun bitset i => if data.getD i 0 ≠ 0 then setBit bitset i else bitset)
    (List.replicate ((data.length + 7) / 8) 0)

/-- The bytes the same loop gathers: the non-zero ones, in order. -/
def nonZeroBytes (data : List UInt8) : List UInt8 := data.filter (· ≠ 0)

theorem length_setBit (bitset : List UInt8) (i : ℕ) : (setBit bitset i).length = bitset.length :=
  List.length_modify _ _ _

theorem length_foldl_setBit (data : List UInt8) :
    ∀ (is : List ℕ) (bitset : List UInt8),
      (is.foldl (fun bitset i => if data.getD i 0 ≠ 0 then setBit bitset i else bitset) bitset).length =
        bitset.length
  | [], _ => rfl
  | i :: is, bitset => by
    rw [List.foldl_cons, length_foldl_setBit data is]
    split_ifs
    · exact length_setBit _ _
    · rfl

theorem length_nonZeroBitset (data : List UInt8) : (nonZeroBitset data).length = (data.length + 7) / 8 := by
  rw [nonZeroBitset, length_foldl_setBit, List.length_replicate]

/-- `bitsetEncodeBytes`. -/
def bitsetEncodeBytes (data : List UInt8) : List UInt8 :=
  if data.length = 0 then []
  else if data.length = 1 then (if data.headD 0 = 0 then [] else data)
  else if nonZeroBytes data = [] then []
  else bitsetEncodeBytes (nonZeroBitset data) ++ nonZeroBytes data
termination_by data.length
decreasing_by
  rw [length_nonZeroBitset]
  omega

/-- `CompressBytes`: the encoding where it is shorter, else the input itself. -/
def CompressBytes (data : List UInt8) : List UInt8 :=
  let out := bitsetEncodeBytes data
  if out.length < data.length then out else data

/-- One round of the distribution loop of `bitsetDecodePartialBytes`: where bit `i` of the bitset
is set, the byte at the pointer goes to slot `i`. -/
def decodeStep (data bitset : List UInt8) (acc : List UInt8 × ℕ) (i : ℕ) :
    Except BitError (List UInt8 × ℕ) :=
  if bitset.getD (i / 8) 0 &&& 1 <<< (7 - i % 8).toUInt8 ≠ 0 then
    if acc.2 ≥ data.length then .error .missingData
    else if i ≥ acc.1.length then .error .exceededTarget
    else if data.getD acc.2 0 = 0 then .error .zeroContent
    else .ok (acc.1.set i (data.getD acc.2 0), acc.2 + 1)
  else .ok acc

/-- `bitsetDecodePartialBytes(data, target)`: the output and how much of the input it used. -/
def bitsetDecodePartialBytes (data : List UInt8) (target : ℕ) : Except BitError (List UInt8 × ℕ) :=
  if target = 0 then .ok ([], 0)
  else if data = [] then .ok (List.replicate target 0, 0)
  else if target = 1 then .ok ([data.headD 0], if data.headD 0 ≠ 0 then 1 else 0)
  else do
    -- the bitset level reads the same input from its start
    let (bitset, ptr) ← bitsetDecodePartialBytes data ((target + 7) / 8)
    (List.range (8 * bitset.length)).foldlM (decodeStep data bitset) (List.replicate target 0, ptr)
termination_by target
decreasing_by omega

/-- `bitsetDecodeBytes`: the whole input must be used. -/
def bitsetDecodeBytes (data : List UInt8) (target : ℕ) : Except BitError (List UInt8) := do
  let (out, size) ← bitsetDecodePartialBytes data target
  if size ≠ data.length then .error .unreferencedData else .ok out

/-- `DecompressBytes`: an input of the target's length was not compressed. -/
def DecompressBytes (data : List UInt8) (target : ℕ) : Except BitError (List UInt8) :=
  if data.length > target then .error .exceededTarget
  else if data.length = target then .ok data
  else bitsetDecodeBytes data target

end GoXdn.Bitutil
