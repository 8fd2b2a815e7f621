import Mathlib
import GoXdn.Lib.GoStd
import GoXdn.Lib.Buffer

/-!
# Unpacking ABI return data

`ABI.Unpack` of `accounts/abi`: the output of a call or the data of an event is checked to be a
non-empty run of 32-byte words, then decoded by `toGoType` for each output of the method (or
non-indexed input of the event) and written into the target `v`.

Offsets and lengths are read as `uint64` and turned into Go's 64-bit `int`, and every sum the
decoder forms of them is an `int` sum: `wrapInt64` throughout. A slice expression `s[lo:hi]`
panics unless `0 <= lo <= hi <= cap(s)`; the output's capacity is its length, and a word cut from
it keeps the output's tail as its capacity. A runtime panic is the error `panic`.

What `Unpack` does with the decoded values through reflection (the kind of `v`'s element, the
struct fields whose names match, `set`) is the target's `store`, with whatever errors or panics
it has: only whether `v` is a pointer, and for an event whether it points to a struct, are
checked before anything is decoded.
-/

namespace GoXdn.Abi

open GoStd

/-- `Type.T` of a type without brackets. -/
inductive BaseTy
  | intTy | uintTy | boolTy | stringTy | addressTy | fixedBytesTy | bytesTy | hashTy | fixedPointTy
  | functionTy
  deriving DecidableEq, Repr

/-- `Type.Kind` as `readInteger` switches on it: the Go integer type of an `intN` or `uintN`, and
`other` for the `*big.Int` of the remaining sizes. -/
inductive IntKind
  | uint8 | uint16 | uint32 | uint64 | int8 | int16 | int32 | int64 | other
  deriving DecidableEq, Repr

/-- `Type` as `NewType` builds it: a type without brackets, with its integer kind and size, or a
slice or array of an element type, `Elem`. -/
inductive AbiType
  | base (t : BaseTy) (kind : IntKind) (size : ℕ)
  | slice (elem : AbiType)
  | array (elem : AbiType) (size : ℕ)
  deriving DecidableEq, Repr

namespace AbiType

/-- `t.T == ArrayTy`. -/
def isArray : AbiType → Bool
  | array _ _ => true
  | _ => false

/-- `t.Size`: the length of an array, the bytes of a fixed-size byte array, the bits of an
integer. -/
def size : AbiType → ℕ
  | base _ _ size => size
  | slice _ => 0
  | array _ size => size

/-- `requiresLengthPrefix`. -/
def requiresLengthPrefix : AbiType → Bool
  | base .stringTy _ _ | base .bytesTy _ _ | slice _ => true
  | _ => false

end AbiType

/-- A decoded value, as the Go value `toGoType` returns. -/
inductive Value
  /-- one of the fixed-size Go integers -/
  | int (n : ℤ)
  /-- a `*big.Int` -/
  | big (n : ℕ)
  | bool (b : Bool)
  | address (b : List UInt8)
  | hash (b : List UInt8)
  | bytes (b : List UInt8)
  | string (b : List UInt8)
  | fixedBytes (b : List UInt8)
  | function (b : List UInt8)
  /-- a Go slice or array of the element values -/
  | array (vs : List Value)

/-- The errors of `Unpack`, and a runtime `panic`. -/
inductive AbiError
  | emptyOutput
  | improperOutput
  | noMethodOrEvent
  | nonPointer
  | tupleIntoNonStruct
  | indexedVariable
  /-- the first number printed is the length of the output, the second the end of the array -/
  | arrayOverflow (len need : ℤ)
  | lengthInsufficient (len need : ℤ)
  | sliceOverflow (len need : ℤ)
  | badBool
  | improperFunctionType (word : List UInt8)
  | unknownType
  /-- an error of the write into the target, by its text -/
  | set (msg : String)
  | panic
  deriving DecidableEq

/-- The message each error prints. -/
def AbiError.text : AbiError → String
  | .emptyOutput => "abi: unmarshalling empty output"
  | .improperOutput => "abi: improperly formatted output"
  | .noMethodOrEvent => "abi: could not locate named method or event."
  | .nonPointer => "abi: Unpack(non-pointer)"
  | .tupleIntoNonStruct => "abi: cannot unmarshal tuple in to non-struct"
  | .indexedVariable => "abi: attempting to unpack indexed variable into element."
  | .arrayOverflow len need =>
    s!"abi: cannot marshal in to go array: offset {len} would go over slice boundary (len={need})"
  | .lengthInsufficient len need => s!"abi: cannot marshal in to go type: length insufficient {len} require {need}"
  | .sliceOverflow len need =>
    s!"abi: cannot marshal in to go slice: offset {len} would go over slice boundary (len={need})"
  | .badBool => "abi: improperly encoded boolean value"
  | .improperFunctionType _ => "abi: got improperly encoded function type"
  | .unknownType => "abi: unknown type"
  | .set msg => msg
  | .panic => "runtime panic"

/-- The slice expression `s[lo:hi]` on `int`s, for a slice whose capacity is its length: `none`
where Go panics. -/
def sliceExpr (s : List UInt8) (lo hi : ℤ) : Option (List UInt8) :=
  if 0 ≤ lo ∧ lo ≤ hi ∧ hi ≤ s.length then some (Buffer.slice s lo.toNat hi.toNat) else none

/-- A Go expression that panics where the model has `none`. -/
def orPanic {α : Type} : Option α → Except AbiError α
  | some a => .ok a
  | none => .error .panic

/-- `readInteger(kind, b)` of a 32-byte word: the last bytes of the word, signed for the signed
kinds, and the whole word as an unsigned `big.Int` otherwise. -/
def readInteger (kind : IntKind) (b : List UInt8) : Value :=
  let last (k : ℕ) := beNat (b.drop (b.length - k))
  match kind with
  | .uint8 => .int (last 1)
  | .uint16 => .int (last 2)
  | .uint32 => .int (last 4)
  | .uint64 => .int (last 8)
  | .int8 => .int (Int.bmod (last 1) (2 ^ 8))
  | .int16 => .int (Int.bmod (last 2) (2 ^ 16))
  | .int32 => .int (Int.bmod (last 4) (2 ^ 32))
  | .int64 => .int (Int.bmod (last 8) (2 ^ 64))
  | .other => .big (beNat b)

/-- `readBool(word)`. -/
def readBool (word : List UInt8) : Except AbiError Value :=
  if (word.take 31).any (· ≠ 0) then .error .badBool
  else
    match (word[31]? : Option UInt8) with
    | some 0 => .ok (.bool false)
    | some 1 => .ok (.bool true)
    | some _ => .error .badBool
    | none => .error .panic

/-- `readFunctionType(t, word)`: the address and selector, with nothing in the last eight bytes. -/
def readFunctionType (word : List UInt8) : Except AbiError Value :=
  if beNat (Buffer.slice word 24 32) ≠ 0 then .error (.improperFunctionType word)
  else .ok (.function (word.take 24))

/-- `readFixedBytes(t, word)`: `word[0:t.Size]`, where the word `output[index:index+32]` keeps the
output's tail from `index` as its capacity. -/
def readFixedBytes (size : ℕ) (tail : List UInt8) : Except AbiError Value :=
  .fixedBytes <$> orPanic (sliceExpr tail 0 size)

/-- `lengthPrefixPointsTo(index, output)`: the start and length of the data the offset word at
`index` points to. -/
def lengthPrefixPointsTo (index : ℤ) (output : List UInt8) : Except AbiError (ℤ × ℤ) := do
  let offsetWord ← orPanic (sliceExpr output (wrapInt64 (index + 24)) (wrapInt64 (index + 32)))
  let offset := wrapInt64 (← orPanic (beUint64 offsetWord)).toNat
  if wrapInt64 (offset + 32) > output.length then
    throw (.sliceOverflow output.length (wrapInt64 (offset + 32)))
  let lengthWord ← orPanic (sliceExpr output (wrapInt64 (offset + 24)) (wrapInt64 (offset + 32)))
  let length := wrapInt64 (← orPanic (beUint64 lengthWord)).toNat
  if wrapInt64 (wrapInt64 (offset + 32) + length) > output.length then
    throw (.lengthInsufficient output.length (wrapInt64 (wrapInt64 (offset + 32) + length)))
  return (wrapInt64 (offset + 32), length)

/-- The loop of `forEachUnpack`: the `j`-th element is read at `start + 32*j`, or at
`start + elem.Size*32*j` when the elements are arrays themselves. -/
def elemIndex (elemIsArray : Bool) (elemSize : ℕ) (start : ℤ) (j : ℕ) : ℤ :=
  if elemIsArray ∧ j ≠ 0 then wrapInt64 (start + wrapInt64 (wrapInt64 (elemSize * 32) * j))
  else wrapInt64 (start + 32 * j)

/-- `forEachUnpack(t, output, start, size)`, with `decodeElem i` the element's `toGoType(i, ...)`.
The loop runs while `32*j < len(slice)`; it never runs past `size` (`len(slice)` is `32*size`
unless that wraps, and then `size` is above what any slice holds), so `refSlice.Index(j)` is in
range. `reflect.MakeSlice` panics on a negative length. -/
def forEachUnpack (isSlice elemIsArray : Bool) (elemSize : ℕ) (decodeElem : ℤ → Except AbiError Value)
    (output : List UInt8) (start size : ℤ) : Except AbiError Value := do
  if wrapInt64 (start + wrapInt64 (32 * size)) > output.length then
    throw (.arrayOverflow output.length (wrapInt64 (start + wrapInt64 (32 * size))))
  let slice ← orPanic (sliceExpr output start (wrapInt64 (start + wrapInt64 (size * 32))))
  if isSlice ∧ size < 0 then throw .panic
  let vs ← (List.range ((slice.length + 31) / 32)).mapM fun j => decodeElem (elemIndex elemIsArray elemSize start j)
  return .array vs

/-- `toGoType(index, t, output)`. -/
def toGoType (index : ℤ) (t : AbiType) (output : List UInt8) : Except AbiError Value :=
  if wrapInt64 (index + 32) > output.length then
    .error (.lengthInsufficient output.length (wrapInt64 (index + 32)))
  else if t.requiresLengthPrefix then do
    let (begin, end_) ← lengthPrefixPointsTo index output
    match t with
    | .slice elem =>
      forEachUnpack true elem.isArray elem.size (fun i => toGoType i elem output) output begin end_
    | .base .stringTy _ _ => .string <$> orPanic (sliceExpr output begin (wrapInt64 (begin + end_)))
    | _ => .bytes <$> orPanic (sliceExpr output begin (wrapInt64 (begin + end_)))
  else do
    let returnOutput ← orPanic (sliceExpr output index (wrapInt64 (index + 32)))
    match t with
    | .array elem size =>
      forEachUnpack false elem.isArray elem.size (fun i => toGoType i elem output) output index size
    | .slice _ => .error .unknownType
    | .base t kind size =>
      match t with
      | .intTy | .uintTy => .ok (readInteger kind returnOutput)
      | .boolTy => readBool returnOutput
      | .addressTy => .ok (.address (returnOutput.drop (returnOutput.length - 20)))
      | .hashTy => .ok (.hash returnOutput)
      | .fixedBytesTy => readFixedBytes size (output.drop index.toNat)
      | .functionTy => readFunctionType returnOutput
      | _ => .error .unknownType

/-- `Argument`: its type, and whether it is an indexed event input. -/
structure Argument where
  type : AbiType
  indexed : Bool

/-- `Method`, by its outputs. -/
structure Method where
  outputs : List Argument

/-- `Event`, by its inputs. -/
structure Event where
  inputs : List Argument

/-- `ABI`: its methods and events by name. -/
structure ABI where
  methods : String → Option Method
  events : String → Option Event

/-- The target `v` of `Unpack`: whether it is a pointer and whether it points to a struct, and
the write of the `i`-th decoded value into it. -/
structure Target where
  isPointer : Bool
  isStruct : Bool
  store : ℕ → Value → Except AbiError Unit

/-- `bytesAreProper(output)`. -/
def bytesAreProper (output : List UInt8) : Except AbiError Unit :=
  if output.length = 0 then .error .emptyOutput
  else if output.length % 32 ≠ 0 then .error .improperOutput
  else .ok ()

/-- The loop of `tupleUnpack` from the `i`-th argument on, `j` the words the arrays before took
beyond their first: each argument is read at `(i+j)*32` (the `int` sums wrap as one product
does) and stored as the `i`-th value. An event skips its indexed inputs. -/
def tupleLoop (v : Target) (output : List UInt8) (skipIndexed : Bool) :
    ℕ → ℕ → List Argument → Except AbiError Unit
  | _, _, [] => .ok ()
  | i, j, arg :: args =>
    if skipIndexed ∧ arg.indexed then tupleLoop v output skipIndexed (i + 1) j args
    else do
      let j := if arg.type.isArray then j + arg.type.size else j
      let marshalledValue ← toGoType (wrapInt64 ((i + j) * 32)) arg.type output
      v.store i marshalledValue
      tupleLoop v output skipIndexed (i + 1) j args

namespace Method

/-- `method.tupleUnpack(v, output)`. -/
def tupleUnpack (method : Method) (v : Target) (output : List UInt8) : Except AbiError Unit :=
  if ¬ v.isPointer then .error .nonPointer
  else tupleLoop v output false 0 0 method.outputs

/-- `method.singleUnpack(v, output)`: `method.Outputs[0]` panics for a method of no outputs. -/
def singleUnpack (method : Method) (v : Target) (output : List UInt8) : Except AbiError Unit :=
  if ¬ v.isPointer then .error .nonPointer
  else
    match method.outputs with
    | [] => .error .panic
    | arg :: _ => do
      let marshalledValue ← toGoType 0 arg.type output
      v.store 0 marshalledValue

/-- `method.isTupleReturn()`. -/
def isTupleReturn (method : Method) : Bool := decide (1 < method.outputs.length)

end Method

namespace Event

/-- `e.tupleUnpack(v, output)`. -/
def tupleUnpack (e : Event) (v : Target) (output : List UInt8) : Except AbiError Unit :=
  if ¬ v.isPointer then .error .nonPointer
  else if ¬ v.isStruct then .error .tupleIntoNonStruct
  else tupleLoop v output true 0 0 e.inputs

/-- `e.singleUnpack(v, output)`: `e.Inputs[0]` panics for an event of no inputs. -/
def singleUnpack (e : Event) (v : Target) (output : List UInt8) : Except AbiError Unit :=
  if ¬ v.isPointer then .error .nonPointer
  else
    match e.inputs with
    | [] => .error .panic
    | arg :: _ =>
      if arg.indexed then .error .indexedVariable
      else do
        let marshalledValue ← toGoType 0 arg.type output
        v.store 0 marshalledValue

/-- `e.isTupleReturn()`. -/
def isTupleReturn (e : Event) : Bool := decide (1 < e.inputs.length)

end Event

namespace ABI

/-- `abi.Unpack(v, name, output)`. -/
def unpack (abi : ABI) (v : Target) (name : String) (output : List UInt8) : Except AbiError Unit := do
  bytesAreProper output
  match abi.methods name with
  | some method =>
    if method.isTupleReturn then method.tupleUnpack v output else method.singleUnpack v output
  | none =>
    match abi.events name with
    | some event => if event.isTupleReturn then event.tupleUnpack v output else event.singleUnpack v output
    | none => .error .noMethodOrEvent

end ABI

end GoXdn.Abi
