import Mathlib
import GoXdn.Rlp.Encode

/-!
# RLP decoding

`rlp/decode.go`: the `Stream` over a `bytes.Reader`, its reads and the decoders `DecodeBytes`
picks for an `interface{}`, a `uint64`, a `*big.Int` and a `RawValue`.

The stream keeps a stack of the lists it is in, each with the bytes read of it so far and its
size; every read is checked against the room left in the innermost list and, at the top level,
against the input limit.  `Kind` reads the header of the next value and caches it together with
the error of that read, which it answers again until a read rearms it.  Go's stream stays in use
after an error, and a failed call has already changed it (a read that fails has rearmed `Kind`,
and may have counted bytes), so every call returns its result or its error together with the
stream it leaves.  The decoders recurse once per level of nesting: the model gives them a budget
`fuel` that each nested call and each element read spends one of, and `decodeValue` gives
`len(b) + 1`.
-/

namespace GoXdn.Rlp

open GoStd

/-- `Kind`: what the next value is. -/
inductive Kind
  | byte | string | list
  deriving DecidableEq, Repr

/-- `listpos`: the bytes read of an open list, and its size. -/
structure ListPos where
  pos : ℕ
  size : ℕ
  deriving DecidableEq, Repr

/-- `s.stack[len(s.stack)-1].pos += n`: `n` more bytes read of the innermost list. -/
def ListPos.advance : List ListPos → ℕ → List ListPos
  | [], _ => []
  | tos :: up, n => { tos with pos := tos.pos + n } :: up

/-- `Stream` over a `bytes.Reader` holding `r`.  `ahead` is the source's `kind`, the kind of
the value ahead, with `none` for its `-1`: the next header is still to be read.  The stack has
the innermost list first. -/
structure Stream where
  r : List UInt8
  remaining : ℕ
  limited : Bool
  ahead : Option Kind
  size : ℕ
  byteval : UInt8
  kinderr : Option RlpError
  stack : List ListPos
  deriving DecidableEq, Repr

/-- Go's `if err != nil { return err }` after a call on the stream: the rest runs on the call's
result and the stream it left, and an error is returned with that stream. -/
def andThen {α β : Type} (r : Except RlpError α × Stream)
    (k : α → Stream → Except RlpError β × Stream) : Except RlpError β × Stream :=
  match r with
  | (.error e, s) => (.error e, s)
  | (.ok a, s) => k a s

namespace Stream

/-- `NewStream(bytes.NewReader(b), inputLimit)`: with no limit given, a `bytes.Reader` sets it
to its length. -/
def new (b : List UInt8) (inputLimit : ℕ) : Stream :=
  { r := b, remaining := if 0 < inputLimit then inputLimit else b.length, limited := true,
    ahead := none, size := 0, byteval := 0, kinderr := none, stack := [] }

/-- `willRead`: `Kind` rearmed, then `n` bytes checked to fit in the innermost list and counted
there, then checked under the limit and counted.  (A list's position never passes its size, so
the source's `uint64` difference is this one.) -/
def willRead (s : Stream) (n : ℕ) : Except RlpError Unit × Stream :=
  let s := { s with ahead := none }
  if s.stack.head?.any (fun tos => tos.size - tos.pos < n) then (.error .elemTooLarge, s)
  else
    let s := { s with stack := ListPos.advance s.stack n }
    if s.limited then
      if s.remaining < n then (.error .valueTooLarge, s)
      else (.ok (), { s with remaining := s.remaining - n })
    else (.ok (), s)

/-- `readByte`: a `bytes.Reader` at its end answers `io.EOF`, which becomes
`io.ErrUnexpectedEOF`. -/
def readByte (s : Stream) : Except RlpError UInt8 × Stream :=
  andThen (s.willRead 1) fun _ s =>
    match s.r with
    | [] => (.error .unexpectedEOF, s)
    | b :: r => (.ok b, { s with r := r })

/-- `readFull` into a buffer of `n` bytes: the reader hands over what it has, and
`io.ErrUnexpectedEOF` when that is short. -/
def readFull (s : Stream) (n : ℕ) : Except RlpError (List UInt8) × Stream :=
  andThen (s.willRead n) fun _ s =>
    if s.r.length < n then (.error .unexpectedEOF, { s with r := [] })
    else (.ok (s.r.take n), { s with r := s.r.drop n })

/-- `readUint`: a big-endian integer of `size ≤ 8` bytes with no leading zero byte. -/
def readUint (s : Stream) (size : ℕ) : Except RlpError ℕ × Stream :=
  match size with
  | 0 => (.ok 0, { s with ahead := none })
  | 1 => andThen s.readByte fun b s => (.ok b.toNat, s)
  | size => andThen (s.readFull size) fun buf s =>
    if buf.head? = some 0 then (.error .canonSize, s) else (.ok (beNat buf), s)

/-- `readKind`: the kind and size of the next value from its header, with the error of the
read.  At the top level, running out of input is the end of the input. -/
def readKind (s : Stream) : (Kind × ℕ × Option RlpError) × Stream :=
  match s.readByte with
  | (.error e, s) =>
    ((.byte, 0, some (if s.stack = [] ∧ (e = .unexpectedEOF ∨ e = .valueTooLarge) then .eof else e)),
      s)
  | (.ok b, s) =>
    let s := { s with byteval := 0 }
    if b < 0x80 then ((.byte, 0, none), { s with byteval := b })
    else if b < 0xB8 then ((.string, (b - 0x80).toNat, none), s)
    else if b < 0xC0 then
      match s.readUint (b - 0xB7).toNat with
      | (.error e, s) => ((.string, 0, some e), s)
      | (.ok size, s) => ((.string, size, if size < 56 then some .canonSize else none), s)
    else if b < 0xF8 then ((.list, (b - 0xC0).toNat, none), s)
    else
      match s.readUint (b - 0xF7).toNat with
      | (.error e, s) => ((.list, 0, some e), s)
      | (.ok size, s) => ((.list, size, if size < 56 then some .canonSize else none), s)

/-- The check `Kind` makes of a header read without error: the value fits in the innermost list,
or at the top level under the limit. -/
def sizeError (s : Stream) (size : ℕ) : Option RlpError :=
  match s.stack with
  | [] => if s.limited ∧ s.remaining < size then some .valueTooLarge else none
  | tos :: _ => if tos.size - tos.pos < size then some .elemTooLarge else none

/-- What `Kind` answers from its cache: the error of the header's read, else its kind and
size. -/
def answer (s : Stream) (k : Kind) : Except RlpError (Kind × ℕ) :=
  match s.kinderr with
  | some e => .error e
  | none => .ok (k, s.size)

/-- `Kind`: the cached answer, or the next header read and cached with its error, or the error
of the size check.  The kind and size Go returns beside an error are the cached ones, which no
caller reads. -/
def kind (s : Stream) : Except RlpError (Kind × ℕ) × Stream :=
  match s.ahead with
  | some k => (s.answer k, s)
  | none =>
    if s.stack.head?.any (fun tos => tos.pos == tos.size) then
      (.error .eol, { s with kinderr := none })
    else
      match s.readKind with
      | ((k, size, err), s) =>
        let s := { s with ahead := some k, size := size, kinderr := err.or (s.sizeError size) }
        (s.answer k, s)

/-- `Bytes`. -/
def bytes (s : Stream) : Except RlpError (List UInt8) × Stream :=
  andThen s.kind fun (k, size) s =>
    match k with
    | .byte => (.ok [s.byteval], { s with ahead := none })
    | .string => andThen (s.readFull size) fun b s =>
      if size = 1 ∧ b.headD 0 < 128 then (.error .canonSize, s) else (.ok b, s)
    | .list => (.error .expectedString, s)

/-- `Raw`: the value's encoding, with its header written anew over the content read. -/
def raw (s : Stream) : Except RlpError (List UInt8) × Stream :=
  andThen s.kind fun (k, size) s =>
    if k = .byte then (.ok [s.byteval], { s with ahead := none })
    else andThen (s.readFull size) fun content s =>
      if k = .string then (.ok (puthead 0x80 0xB7 size ++ content), s)
      else (.ok (puthead 0xC0 0xF7 size ++ content), s)

/-- `uint(maxbits)`.  A leading zero byte is reported as a non-canonical integer, since no size
is being read here. -/
def uint (s : Stream) (maxbits : ℕ) : Except RlpError ℕ × Stream :=
  andThen s.kind fun (k, size) s =>
    match k with
    | .byte =>
      if s.byteval = 0 then (.error .canonInt, s)
      else (.ok s.byteval.toNat, { s with ahead := none })
    | .string =>
      if maxbits / 8 < size then (.error .uintOverflow, s)
      else
        match s.readUint size with
        | (.error .canonSize, s) => (.error .canonInt, s)
        | (.error e, s) => (.error e, s)
        | (.ok v, s) => if 0 < size ∧ v < 128 then (.error .canonSize, s) else (.ok v, s)
    | .list => (.error .expectedString, s)

/-- `List`. -/
def list (s : Stream) : Except RlpError ℕ × Stream :=
  andThen s.kind fun (k, size) s =>
    if k ≠ .list then (.error .expectedList, s)
    else (.ok size, { s with stack := ⟨0, size⟩ :: s.stack, ahead := none, size := 0 })

/-- `ListEnd`: the innermost list is read to its end; it counts as read in the one around it. -/
def listEnd (s : Stream) : Except RlpError Unit × Stream :=
  match s.stack with
  | [] => (.error .notInList, s)
  | tos :: up =>
    if tos.pos ≠ tos.size then (.error .notAtEOL, s)
    else (.ok (), { s with stack := ListPos.advance up tos.size, ahead := none, size := 0 })

end Stream

section

variable {α : Type}

/-- `decodeSliceElems`: elements until the end of the list.  `elemdec` reports the end of the
list before reading anything. -/
def decodeSliceElems (elemdec : Stream → Except RlpError α × Stream) :
    ℕ → Stream → Except RlpError (List α) × Stream
  | 0, s => (.error .outOfFuel, s)
  | fuel + 1, s =>
    match elemdec s with
    | (.error .eol, s) => (.ok [], s)
    | (.error e, s) => (.error e, s)
    | (.ok v, s) => andThen (decodeSliceElems elemdec fuel s) fun vs s => (.ok (v :: vs), s)

/-- `decodeListSlice`. -/
def decodeListSlice (elemdec : Stream → Except RlpError α × Stream) (fuel : ℕ) (s : Stream) :
    Except RlpError (List α) × Stream :=
  andThen s.list fun size s =>
    if size = 0 then andThen s.listEnd fun _ s => (.ok [], s)
    else andThen (decodeSliceElems elemdec fuel s) fun vs s =>
      andThen s.listEnd fun _ s => (.ok vs, s)

end

/-- `decodeInterface`: a list as a `[]interface{}` of values, anything else as a `[]byte`. -/
def decodeInterface : ℕ → Stream → Except RlpError Value × Stream
  | 0, s => (.error .outOfFuel, s)
  | fuel + 1, s =>
    andThen s.kind fun (k, _) s =>
      if k = .list then andThen (decodeListSlice (decodeInterface fuel) fuel s) fun vs s =>
        (.ok (.list vs), s)
      else andThen s.bytes fun b s => (.ok (.str b), s)

/-- `decodeUint` for a `uint64`. -/
def decodeUint (s : Stream) : Except RlpError UInt64 × Stream :=
  andThen (s.uint 64) fun v s => (.ok (UInt64.ofNat v), s)

/-- `decodeBigInt`: the bytes as a big-endian number with no leading zero byte. -/
def decodeBigInt (s : Stream) : Except RlpError ℤ × Stream :=
  andThen s.bytes fun b s => if b.head? = some 0 then (.error .canonInt, s) else (.ok (beNat b), s)

/-- `decodeRawValue`. -/
def decodeRawValue (s : Stream) : Except RlpError (List UInt8) × Stream := s.raw

/-- `DecodeBytes(b, &val)` with the decoder of `val`'s type. -/
def decodeBytes {α : Type} (decoder : Stream → Except RlpError α × Stream) (b : List UInt8) :
    Except RlpError α :=
  match decoder (Stream.new b b.length) with
  | (.error e, _) => .error e
  | (.ok v, s) => if 0 < s.r.length then .error .moreThanOneValue else .ok v

/-- `DecodeBytes(b, &v)` for `v : interface{}`.  A value read from `b` nests at most `len(b)`
deep and none of its lists has more than `len(b)` elements, so `len(b) + 1` is budget enough. -/
def decodeValue (b : List UInt8) : Except RlpError Value :=
  decodeBytes (decodeInterface (b.length + 1)) b

end GoXdn.Rlp
