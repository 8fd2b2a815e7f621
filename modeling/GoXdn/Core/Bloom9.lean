import Mathlib
import GoXdn.Lib.GoStd

/-!
# Header blooms

`core/types/bloom9.go`: a header's log bloom is 2048 bits, 256 bytes holding a big-endian number.
A key sets three of its bits (`bloom9`), each named by eleven bits of a pair of bytes of the key's
Keccak-256; `BloomLookup` asks that all three be set.
-/

namespace GoXdn.Core

open GoStd

def BloomByteLength : ℕ := 256
def BloomBitLength : ℕ := 8 * BloomByteLength

/-- `Bloom`, the 256 bytes of a header's bloom. -/
structure Bloom where
  bytes : List UInt8
  length_bytes : bytes.length = BloomByteLength

/-- `Bloom.Big`, the bloom as a big-endian number. -/
def Bloom.Big (b : Bloom) : ℕ := beNat b.bytes

variable (K : Hash256)

/-- `bloom9`: the bits a key sets, `1 << ((b[i+1] + b[i] << 8) & 2047)` for `i` = 0, 2, 4 over the
Keccak-256 `b` of the key, ORed together. -/
def bloom9 (b : List UInt8) : ℕ :=
  let b := K.sum b
  [0, 2, 4].foldl (fun r i =>
    r ||| 1 <<< (((b.getD (i + 1) 0).toNat + ((b.getD i 0).toNat <<< 8)) &&& 2047)) 0

/-- `BloomLookup`: whether every bit `bloom9` sets for the key is set in the bloom. -/
def BloomLookup (bin : Bloom) (topic : List UInt8) : Bool :=
  (bin.Big &&& bloom9 K topic) == bloom9 K topic

end GoXdn.Core
