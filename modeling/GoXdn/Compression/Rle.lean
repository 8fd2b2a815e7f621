import Mathlib
import GoXdn.Lib.GoStd

/-!
# Run-length encoding

`compression/rle/read_write.go`, the encoding `LDBDatabase` may store its values in. `Compress`
cuts its input into chunks: the byte `0xfe` is escaped as `0xfe 0xff`, a run of two to 255 zero
bytes becomes `0xfe` and the run's length plus two (as a byte), the Keccak-256 of the empty
string or of the empty list becomes `0xfe 0xfd` or `0xfe 0xfe`, and any other byte stands for
itself. `Decompress` reads a byte after each `0xfe` and writes what it stands for.
-/

namespace GoXdn.Compression

open GoStd

def token : UInt8 := 0xfe
def emptyShaToken : UInt8 := 0xfd
def emptyListShaToken : UInt8 := 0xfe
def tokenToken : UInt8 := 0xff

variable (K : Hash256)

/-- `empty`, the Keccak-256 of the empty string. -/
def empty : List UInt8 := K.sum []

/-- `emptyList`, the Keccak-256 of the encoding of the empty list. -/
def emptyList : List UInt8 := K.sum [0x80]

/-- What `Decompress` writes for the byte `c` after a token; a zero run's length is
`dat[i+1] - 2` in bytes, which wraps. -/
def tokenBytes (c : UInt8) : List UInt8 :=
  if c = emptyShaToken then empty K
  else if c = emptyListShaToken then emptyList K
  else if c = tokenToken then [token]
  else List.replicate (c - 2).toNat 0

/-- `Decompress`. -/
def Decompress : List UInt8 → Except String (List UInt8)
  | [] => .ok []
  | b :: rest =>
    if b = token then
      match rest with
      | [] => .error "error reading bytes. token encountered without proceeding bytes"
      | c :: rest => (tokenBytes K c ++ ·) <$> Decompress rest
    else (b :: ·) <$> Decompress rest

/-- The loop of `compressChunk` over a run of zeros from index `j`: it stops at a non-zero byte,
at the end, or after index 254. -/
def zeroRun (j : ℕ) : List UInt8 → ℕ
  | [] => j
  | b :: bs => if j ≤ 254 ∧ b = 0 then zeroRun (j + 1) bs else j

/-- `compressChunk` on the slice `d :: rest`: the bytes written and how many were consumed.
The empty-hash cases are tried only on 32 bytes or more, and fall through to the last case. -/
def compressChunk (d : UInt8) (rest : List UInt8) : List UInt8 × ℕ :=
  if d = token then ([token, tokenToken], 1)
  else if d = 0 ∧ rest.head? = some 0 then
    let j := zeroRun 0 (d :: rest)
    ([token, UInt8.ofNat (j + 2)], j)
  else if 32 ≤ (d :: rest).length ∧ d = (empty K).headD 0 ∧ (d :: rest).take 32 = empty K then
    ([token, emptyShaToken], 32)
  else if 32 ≤ (d :: rest).length ∧ d = (emptyList K).headD 0 ∧
      (d :: rest).take 32 = emptyList K then
    ([token, emptyListShaToken], 32)
  else ([d], 1)

/-- The loop of `Compress` over `dat[i:]`; every chunk consumes at least one byte, so
`len(dat)` passes are enough (`fuel`). -/
def compressLoop : ℕ → List UInt8 → List UInt8
  | 0, _ => []
  | _ + 1, [] => []
  | fuel + 1, d :: rest =>
    let (b, n) := compressChunk K d rest
    b ++ compressLoop fuel ((d :: rest).drop n)

/-- `Compress`. -/
def Compress (dat : List UInt8) : List UInt8 := compressLoop K dat.length dat

end GoXdn.Compression
