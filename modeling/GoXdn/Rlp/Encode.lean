import Mathlib
import GoXdn.Lib.Buffer
import GoXdn.Lib.GoStd

/-!
# RLP encoding

`rlp/encode.go` for the values the decoder gives back: a byte string or a list of values nested
to any depth (an `interface{}` holding `[]byte` or `[]interface{}`), a `uint64`, a `*big.Int` and
a `RawValue`.

The encoder makes one pass over the value.  A list's header is known only once the list is
written, so the `encbuf` keeps the string data in `str` and, for each list, a `listhead` with
its offset there; `listEnd` fills in the list's size and `toBytes` interleaves the headers with
the string data at the end.  `Value.encode` is the RLP definition the result is meant to meet;
`GoXdn.Proofs.RlpEncode` shows `encodeToBytes` computes it.
-/

namespace GoXdn.Rlp

open GoStd

/-- The errors of the `rlp` package, and of `io`, on the modelled paths. -/
inductive RlpError
  | expectedString | expectedList | canonInt | canonSize | elemTooLarge | valueTooLarge
  | moreThanOneValue | notInList | notAtEOL | uintOverflow | eol | eof | unexpectedEOF
  | negativeBigInt
  /-- The model's own: a decoder's nesting budget ran out. -/
  | outOfFuel
  deriving DecidableEq, Repr

/-- A value of the RLP grammar as `interface{}` holds it: a `[]byte`, or a `[]interface{}` of
values. -/
inductive Value
  | str (b : List UInt8)
  | list (vs : List Value)
  deriving Repr

namespace Value

mutual
/-- Equality of values, decided along the tree. -/
def decEq : (a b : Value) → Decidable (a = b)
  | .str a, .str b => if h : a = b then isTrue (h ▸ rfl) else isFalse (fun e => h (str.inj e))
  | .str _, .list _ => isFalse nofun
  | .list _, .str _ => isFalse nofun
  | .list as, .list bs =>
    match decEqList as bs with
    | isTrue h => isTrue (h ▸ rfl)
    | isFalse h => isFalse (fun e => h (list.inj e))
/-- Equality of lists of values. -/
def decEqList : (as bs : List Value) → Decidable (as = bs)
  | [], [] => isTrue rfl
  | [], _ :: _ => isFalse nofun
  | _ :: _, [] => isFalse nofun
  | a :: as, b :: bs =>
    match decEq a b, decEqList as bs with
    | isTrue h, isTrue h' => isTrue (h ▸ h' ▸ rfl)
    | isFalse h, _ => isFalse (fun e => h (List.cons.inj e).1)
    | _, isFalse h' => isFalse (fun e => h' (List.cons.inj e).2)
end

instance : DecidableEq Value := decEq

end Value

/-! ### Integers and headers -/

/-- `intsize`: the bytes `i` takes, at least one.  The loop shifts `i` right a byte at a time
until nothing is left; `fuel` counts its passes, and `i` of them are more than it makes. -/
def intsizeAux : ℕ → ℕ → ℕ
  | 0, _ => 1
  | fuel + 1, i => if i / 256 = 0 then 1 else intsizeAux fuel (i / 256) + 1

@[inherit_doc intsizeAux]
def intsize (i : ℕ) : ℕ := intsizeAux i i

/-- `k` bytes of `i`, big-endian: the last is `byte(i)`, the others hold `i >> 8`. -/
def putbytes : ℕ → ℕ → List UInt8
  | 0, _ => []
  | k + 1, i => putbytes k (i / 256) ++ [UInt8.ofNat i]

/-- `putint`: `i` big-endian in `intsize i` bytes.  The eight cases of its `switch` write
exactly these bytes for every `uint64`. -/
def putint (i : ℕ) : List UInt8 := putbytes (intsize i) i

/-- `puthead`: the header of a string (tags `0x80`, `0xB7`) or a list (`0xC0`, `0xF7`) of
`size` bytes. -/
def puthead (smalltag largetag : UInt8) (size : ℕ) : List UInt8 :=
  if size < 56 then [smalltag + UInt8.ofNat size]
  else (largetag + UInt8.ofNat (intsize size)) :: putint size

/-- `headsize`: the length of the header `puthead` writes. -/
def headsize (size : ℕ) : ℕ := if size < 56 then 1 else 1 + intsize size

/-! ### What an encoding is meant to be -/

/-- A string's encoding: a single byte below `0x80` stands for itself, anything else is a
string header and the bytes. -/
def strEncoding (b : List UInt8) : List UInt8 :=
  match b with
  | [x] => if x ≤ 0x7F then [x] else puthead 0x80 0xB7 1 ++ [x]
  | b => puthead 0x80 0xB7 b.length ++ b

mutual
/-- The RLP encoding of a value: a string as `strEncoding`, a list as a list header over the
concatenated encodings of its elements. -/
def Value.encode : Value → List UInt8
  | .str b => strEncoding b
  | .list vs => puthead 0xC0 0xF7 (Value.encodeAll vs).length ++ Value.encodeAll vs
/-- The concatenated encodings of a list's elements, its payload. -/
def Value.encodeAll : List Value → List UInt8
  | [] => []
  | v :: vs => v.encode ++ Value.encodeAll vs
end

/-! ### The encoder -/

/-- `listhead`: where a list's header goes in the string data, and its size; until `listEnd`
the size field holds the header bytes written before the list. -/
structure ListHead where
  offset : ℕ
  size : ℕ
  deriving DecidableEq, Repr

/-- `encbuf`: the string data, the list headers in order, and the bytes those headers take
once written (`lhsize`).  The auxiliary `sizebuf` is folded into the writes that use it. -/
structure Encbuf where
  str : List UInt8
  lheads : List ListHead
  lhsize : ℕ
  deriving DecidableEq, Repr

namespace Encbuf

/-- The buffer after `reset`. -/
def empty : Encbuf := ⟨[], [], 0⟩

/-- `size`: the bytes of the encoding so far. -/
def size (w : Encbuf) : ℕ := w.str.length + w.lhsize

/-- `w.str = append(w.str, b...)`. -/
def append (w : Encbuf) (b : List UInt8) : Encbuf := { w with str := w.str ++ b }

/-- `encodeStringHeader`. -/
def encodeStringHeader (w : Encbuf) (size : ℕ) : Encbuf :=
  if size < 56 then w.append [0x80 + UInt8.ofNat size]
  else w.append ((0xB7 + UInt8.ofNat (intsize size)) :: putint size)

/-- `encodeString`. -/
def encodeString (w : Encbuf) (b : List UInt8) : Encbuf :=
  match b with
  -- a single byte up to 0x7F has no string header
  | [x] => if x ≤ 0x7F then w.append [x] else (w.encodeStringHeader 1).append [x]
  | b => (w.encodeStringHeader b.length).append b

/-- `list`: opens a list header; the pointer it returns is the header's index in `lheads`. -/
def list (w : Encbuf) : ℕ × Encbuf :=
  (w.lheads.length, { w with lheads := w.lheads ++ [⟨w.str.length, w.lhsize⟩] })

/-- `listEnd`: the list's size is what was written since `list`, less the header bytes
written before it. -/
def listEnd (w : Encbuf) (lh : ℕ) : Encbuf :=
  let head := w.lheads.getD lh ⟨0, 0⟩
  let size := w.size - head.offset - head.size
  { w with
    lheads := w.lheads.set lh { head with size := size }
    lhsize := w.lhsize + if size < 56 then 1 else 1 + intsize size }

/-- The loop of `toBytes` from string position `strpos` over the headers left: the string data
up to each header's offset, then the header. -/
def toBytesFrom (str : List UInt8) : ℕ → List ListHead → List UInt8
  | strpos, [] => str.drop strpos
  | strpos, head :: heads =>
    Buffer.slice str strpos head.offset ++ puthead 0xC0 0xF7 head.size ++
      toBytesFrom str head.offset heads

/-- `toBytes`.  Its output buffer has `w.size()` bytes, which the copies fill exactly once
every list is closed, as it is when `EncodeToBytes` calls it. -/
def toBytes (w : Encbuf) : List UInt8 := toBytesFrom w.str 0 w.lheads

/-- The loop of `toWriter` from string position `strpos` over the headers left: the chunks it
passes to `out.Write`, in order, for a writer that takes every byte it is given. -/
def toWriterFrom (str : List UInt8) : ℕ → List ListHead → List (List UInt8)
  | strpos, [] => if strpos < str.length then [str.drop strpos] else []
  | strpos, head :: heads =>
    -- `if head.offset-strpos > 0`: the string data before the header, then the header
    if strpos < head.offset then
      Buffer.slice str strpos head.offset :: puthead 0xC0 0xF7 head.size :: toWriterFrom str head.offset heads
    else puthead 0xC0 0xF7 head.size :: toWriterFrom str strpos heads

/-- `toWriter(out)`: the chunks written. -/
def toWriter (w : Encbuf) : List (List UInt8) := toWriterFrom w.str 0 w.lheads

end Encbuf

/-- `encReader`: the buffer (`none` once `Read` has met the end), the list header and string
position reached, and the piece not yet read. A piece `next` hands out is never empty, so the
empty piece stands for `nil`. -/
structure EncReader where
  buf : Option Encbuf
  lhpos : ℕ
  strpos : ℕ
  piece : List UInt8

namespace EncReader

/-- `next()`: the next piece of data, `none` at the end, and the reader after it. -/
def next (r : EncReader) : Option (List UInt8) × EncReader :=
  match r.buf with
  | none => (none, r)
  | some buf =>
    if r.piece ≠ [] then (some r.piece, r)
    else if h : r.lhpos < buf.lheads.length then
      let head := buf.lheads[r.lhpos]
      -- `sizebefore := head.offset - r.strpos`: string data before the header, or the header
      if r.strpos < head.offset then
        (some (Buffer.slice buf.str r.strpos head.offset), { r with strpos := head.offset })
      else (some (puthead 0xC0 0xF7 head.size), { r with lhpos := r.lhpos + 1 })
    else if r.strpos < buf.str.length then
      (some (buf.str.drop r.strpos), { r with strpos := buf.str.length })
    else (none, r)

/-- The loop of `Read(b)` for `len(b) = k`, `out` the bytes copied into `b` so far: the bytes read,
whether `io.EOF` came back, and the reader after. Each pass takes one piece; the loop is cut off
after `fuel` passes, where it returns what it has, as a `Read` may. -/
def readLoop (k : ℕ) : ℕ → List UInt8 → EncReader → List UInt8 × Bool × EncReader
  | 0, out, r => (out, false, r)
  | fuel + 1, out, r =>
    match r.next with
    -- the buffer goes back to the pool at the end
    | (none, r) => (out, true, { r with buf := none, piece := [] })
    | (some piece, r) =>
      let nn := min (k - out.length) piece.length
      if nn < piece.length then (out ++ piece.take nn, false, { r with piece := piece.drop nn })
      else readLoop k fuel (out ++ piece) { r with piece := [] }

/-- `r.Read(b)` for a `b` of `k` bytes, with `fuel` passes of its loop. -/
def read (k fuel : ℕ) (r : EncReader) : List UInt8 × Bool × EncReader := readLoop k fuel [] r

end EncReader

/-- `writeBytes`. -/
def writeBytes (b : List UInt8) (w : Encbuf) : Encbuf := w.encodeString b

mutual
/-- `writeInterface` with the writer of the value's type: `writeBytes` for a `[]byte`, the
slice writer of `makeSliceWriter` for a `[]interface{}`. -/
def writeInterface : Value → Encbuf → Encbuf
  | .str b, w => writeBytes b w
  | .list vs, w =>
    -- defer w.listEnd(w.list())
    let (lh, w) := w.list
    (writeElems vs w).listEnd lh
/-- The slice writer's loop over the elements. -/
def writeElems : List Value → Encbuf → Encbuf
  | [], w => w
  | v :: vs, w => writeElems vs (writeInterface v w)
end

/-- `writeUint`. -/
def writeUint (i : UInt64) (w : Encbuf) : Encbuf :=
  if i = 0 then w.append [0x80]
  else if i < 128 then w.append [i.toUInt8]
  else w.append ((0x80 + UInt8.ofNat (intsize i.toNat)) :: putint i.toNat)

/-- `writeBigInt`. -/
def writeBigInt (i : ℤ) (w : Encbuf) : Except RlpError Encbuf :=
  if i < 0 then .error .negativeBigInt
  else if i = 0 then .ok (w.append [0x80])
  else .ok (w.encodeString (bigBytes i.toNat))

/-- `writeRawValue`: the raw bytes as they are. -/
def writeRawValue (r : List UInt8) (w : Encbuf) : Encbuf := w.append r

/-- `EncodeToBytes` with a writer that cannot fail. -/
def encodeToBytes {α : Type*} (writer : α → Encbuf → Encbuf) (val : α) : List UInt8 :=
  (writer val .empty).toBytes

/-- `Encode(w, val)` for a writer `w` that takes every byte: the chunks written to it. -/
def encode {α : Type*} (writer : α → Encbuf → Encbuf) (val : α) : List (List UInt8) :=
  (writer val .empty).toWriter

/-- `EncodeToReader(val)`: the size it reports and the reader. -/
def encodeToReader {α : Type*} (writer : α → Encbuf → Encbuf) (val : α) : ℕ × EncReader :=
  ((writer val .empty).size, ⟨some (writer val .empty), 0, 0, []⟩)

/-- `EncodeToBytes` of a `*big.Int`. -/
def encodeBigIntToBytes (i : ℤ) : Except RlpError (List UInt8) :=
  (writeBigInt i .empty).map Encbuf.toBytes

end GoXdn.Rlp
