import Mathlib
import GoXdn.Rlp.Decode

/-!
# Splitting raw RLP

`rlp/raw.go`: the functions the trie decodes its nodes with. They read a value's header straight
off a byte slice (`readKind`, which checks the same canonical forms as the stream's) and split the
slice into the value's content and what follows it.

`readKind` reads `buf[1]` to reject a one-byte string below `0x80` before it has checked that the
slice has a second byte; on the one-byte slice `0x81` Go's bounds check panics. A
`RawError.indexOutOfRange` stands for that panic.
-/

namespace GoXdn.Rlp

open GoStd

/-- What a raw read can end in: an error of the package, or the index panic. -/
inductive RawError
  | rlp (e : RlpError)
  | indexOutOfRange
  deriving DecidableEq, Repr

/-- `readSize`: a size of `slen` bytes, big-endian, at least 56 and with no leading zero. -/
def readSize (b : List UInt8) (slen : ℕ) : Except RawError ℕ :=
  if b.length < slen then .error (.rlp .unexpectedEOF)
  else
    let s := beNat (b.take slen)
    if s < 56 ∨ b.headD 0 = 0 then .error (.rlp .canonSize) else .ok s

/-- The kind, tag size and content size a header says, before the check against the slice. -/
def readHeader (b : UInt8) (rest : List UInt8) : Except RawError (Kind × ℕ × ℕ) :=
  if b < 0x80 then .ok (.byte, 0, 1)
  else if b < 0xB8 then
    let contentsize := (b - 0x80).toNat
    -- reject strings that should have been single bytes; `buf[1]` is read unchecked
    if contentsize = 1 then
      match rest with
      | [] => .error .indexOutOfRange
      | x :: _ => if x < 128 then .error (.rlp .canonSize) else .ok (.string, 1, contentsize)
    else .ok (.string, 1, contentsize)
  else if b < 0xC0 then
    (readSize rest (b - 0xB7).toNat).map fun cs => (.string, (b - 0xB7).toNat + 1, cs)
  else if b < 0xF8 then .ok (.list, 1, (b - 0xC0).toNat)
  else (readSize rest (b - 0xF7).toNat).map fun cs => (.list, (b - 0xF7).toNat + 1, cs)

/-- `readKind`: the first value's kind, tag size and content size, which must fit in `buf`. -/
def readKind (buf : List UInt8) : Except RawError (Kind × ℕ × ℕ) :=
  match buf with
  | [] => .error (.rlp .unexpectedEOF)
  | b :: rest => do
    let (k, tagsize, contentsize) ← readHeader b rest
    if buf.length - tagsize < contentsize then throw (.rlp .valueTooLarge)
    else pure (k, tagsize, contentsize)

/-- `Split`: the first value's kind and content, and the bytes after it. -/
def split (b : List UInt8) : Except RawError (Kind × List UInt8 × List UInt8) := do
  let (k, ts, cs) ← readKind b
  pure (k, (b.drop ts).take cs, b.drop (ts + cs))

/-- `SplitString`. -/
def splitString (b : List UInt8) : Except RawError (List UInt8 × List UInt8) := do
  let (k, content, rest) ← split b
  if k = .list then throw (.rlp .expectedString) else pure (content, rest)

/-- `SplitList`. -/
def splitList (b : List UInt8) : Except RawError (List UInt8 × List UInt8) := do
  let (k, content, rest) ← split b
  if k ≠ .list then throw (.rlp .expectedList) else pure (content, rest)

/-- `CountValues`: the values in `b`, read one header at a time. Every value takes at least one
byte, so `len(b)` passes are enough; `fuel` counts them. -/
def countValuesAux : ℕ → List UInt8 → Except RawError ℕ
  | 0, _ => .ok 0
  | fuel + 1, b =>
    match b with
    | [] => .ok 0
    | _ :: _ => do
      let (_, tagsize, size) ← readKind b
      let i ← countValuesAux fuel (b.drop (tagsize + size))
      pure (i + 1)

@[inherit_doc countValuesAux]
def countValues (b : List UInt8) : Except RawError ℕ := countValuesAux b.length b

end GoXdn.Rlp
