import Mathlib

/-!
# Hex codecs

`common/hexutil`: `Encode`/`Decode` of byte strings, `EncodeUint64`/`DecodeUint64` and
`EncodeBig`/`DecodeBig` of quantities, and the text forms of `Bytes`, `Uint64` and `Big` in
`json.go`. This fork writes byte strings without the `0x` prefix, while quantities keep it; the
byte decoders take the prefix or leave it. A string is its list of characters.

`hex.Decode` of `encoding/hex` checks the length first and then the digits, and `mapError` makes
its errors `ErrOddLength` and `ErrSyntax`. `strconv.ParseUint(raw, 16, 64)` reads the digits one
by one, failing at the first that is none or that takes the value past `2^64 - 1`. A `big.Word` is
64 bits (`bigWordNibbles = 16`).
-/

namespace GoXdn.Hexutil

/-- The decoders' errors, `ErrEmptyString` to `ErrBig256Range`. -/
inductive HexError
  | emptyString | invalidSyntax | missingPrefix | oddLength | emptyNumber | leadingZero | uint64Range | big256Range
  deriving DecidableEq, Repr

/-- `decodeNibble`; `fromHexChar` of `encoding/hex` and the digits of `ParseUint` in base 16 are
the same. -/
def decodeNibble (c : Char) : Option ℕ :=
  if '0' ≤ c ∧ c ≤ '9' then some (c.toNat - '0'.toNat)
  else if 'A' ≤ c ∧ c ≤ 'F' then some (c.toNat - 'A'.toNat + 10)
  else if 'a' ≤ c ∧ c ≤ 'f' then some (c.toNat - 'a'.toNat + 10)
  else none

/-- `hex.Encode`: two lowercase digits a byte, the high one first. -/
def hexEncode (b : List UInt8) : List Char :=
  b.flatMap fun x => [Nat.digitChar (x.toNat / 16), Nat.digitChar (x.toNat % 16)]

/-- The loop of `hex.Decode` over the pairs of digits. -/
def hexDecodePairs : List Char → Except HexError (List UInt8)
  | a :: b :: rest =>
    match decodeNibble a, decodeNibble b with
    | some x, some y => do
      let r ← hexDecodePairs rest
      .ok ((x * 16 + y).toUInt8 :: r)
    | _, _ => .error .invalidSyntax
  | _ => .ok []

/-- `hex.DecodeString` with `mapError`. -/
def hexDecode (s : List Char) : Except HexError (List UInt8) :=
  if s.length % 2 = 1 then .error .oddLength else hexDecodePairs s

/-- `has0xPrefix` and `bytesHave0xPrefix`. -/
def has0xPrefix : List Char → Bool
  | '0' :: 'x' :: _ => true
  | '0' :: 'X' :: _ => true
  | _ => false

/-- `Decode`: an empty string is refused, the prefix is optional. -/
def Decode (input : List Char) : Except HexError (List UInt8) :=
  if input = [] then .error .emptyString
  else hexDecode (if has0xPrefix input then input.drop 2 else input)

/-- `Encode`: no `0x` prefix in this fork. -/
def Encode (b : List UInt8) : List Char := hexEncode b

/-- `checkNumber` and `checkNumberText`, which differ only in what an empty input gives. -/
def checkNumberOn (empty : Except HexError (List Char)) (input : List Char) : Except HexError (List Char) :=
  if input = [] then empty
  else if !has0xPrefix input then .error .missingPrefix
  else
    let input := input.drop 2
    if input = [] then .error .emptyNumber
    else if input.length > 1 ∧ input.headD ' ' = '0' then .error .leadingZero
    else .ok input

/-- `checkNumber`: an empty input is `ErrEmptyString`. -/
def checkNumber (input : List Char) : Except HexError (List Char) := checkNumberOn (.error .emptyString) input

/-- `checkNumberText`: an empty input is allowed. -/
def checkNumberText (input : List Char) : Except HexError (List Char) := checkNumberOn (.ok []) input

/-- The loop of `strconv.ParseUint(raw, 16, 64)` from the value `n` read so far, with
`mapError`. -/
def parseUintLoop (n : ℕ) : List Char → Except HexError ℕ
  | [] => .ok n
  | c :: cs =>
    match decodeNibble c with
    | none => .error .invalidSyntax
    | some d =>
      -- `n >= cutoff`, then `n1 > maxVal`
      if n ≥ 2 ^ 60 then .error .uint64Range
      else if n * 16 + d ≥ 2 ^ 64 then .error .uint64Range
      else parseUintLoop (n * 16 + d) cs

/-- `strconv.ParseUint(raw, 16, 64)` with `mapError`. -/
def parseUint16 (raw : List Char) : Except HexError UInt64 :=
  if raw = [] then .error .invalidSyntax else (parseUintLoop 0 raw).map UInt64.ofNat

/-- `DecodeUint64`. -/
def DecodeUint64 (input : List Char) : Except HexError UInt64 := do
  let raw ← checkNumber input
  parseUint16 raw

/-- `EncodeUint64`: `0x` and `strconv.AppendUint(i, 16)`, lowercase digits without leading
zeros. -/
def EncodeUint64 (i : UInt64) : List Char := ['0', 'x'] ++ Nat.toDigits 16 i.toNat

/-- The digit loop of `Big.UnmarshalText`, `DecodeBig` (for one word) and `Uint64.UnmarshalText`:
`dec *= 16; dec += nib` on a `uint64`. -/
def readNibbles (digits : List Char) : Except HexError UInt64 :=
  digits.foldlM (fun dec c =>
    match decodeNibble c with
    | none => .error .invalidSyntax
    | some nib => .ok (dec * 16 + UInt64.ofNat nib)) 0

def bigWordNibbles : ℕ := 16

/-- The word loop of `DecodeBig`: `k` words of `raw`, each the `bigWordNibbles` digits below
`end`, from the right. -/
def bigWords (raw : List Char) : ℕ → ℕ → Except HexError (List UInt64)
  | 0, _ => .ok []
  | k + 1, end_ => do
    let start := end_ - bigWordNibbles
    let w ← readNibbles ((raw.take end_).drop start)
    let ws ← bigWords raw k start
    .ok (w :: ws)

/-- `big.Int.SetBits`: the words, least significant first. -/
def setBits (words : List UInt64) : ℕ := words.foldr (fun w acc => w.toNat + 2 ^ 64 * acc) 0

/-- What `DecodeBig` and `Big.UnmarshalText` do with the digits once checked. -/
def decodeBigDigits (raw : List Char) : Except HexError ℕ :=
  if raw.length > 64 then .error .big256Range
  else (bigWords raw (raw.length / bigWordNibbles + 1) raw.length).map setBits

/-- `DecodeBig`. -/
def DecodeBig (input : List Char) : Except HexError ℕ := do
  let raw ← checkNumber input
  decodeBigDigits raw

/-- `EncodeBig` of a non-negative integer: `fmt.Sprintf("%#x", bigint)`, and `0x0` for zero. -/
def EncodeBig (x : ℕ) : List Char := if x = 0 then ['0', 'x', '0'] else ['0', 'x'] ++ Nat.toDigits 16 x

/-- `checkText`: an empty input is allowed, the prefix is optional, the length must be even.
The `wantPrefix` argument is no longer read. -/
def checkText (input : List Char) : Except HexError (List Char) :=
  if input = [] then .ok []
  else
    let input := if has0xPrefix input then input.drop 2 else input
    if input.length % 2 ≠ 0 then .error .oddLength else .ok input

/-- `Bytes.MarshalText`: no prefix, as `Encode`. -/
def Bytes.MarshalText (b : List UInt8) : List Char := hexEncode b

/-- `Bytes.UnmarshalText`. -/
def Bytes.UnmarshalText (input : List Char) : Except HexError (List UInt8) := do
  let raw ← checkText input
  hexDecode raw

/-- `Uint64.MarshalText`: `0x` and `strconv.AppendUint(b, 16)`, as `EncodeUint64`. -/
def Uint64.MarshalText (b : UInt64) : List Char := ['0', 'x'] ++ Nat.toDigits 16 b.toNat

/-- `Uint64.UnmarshalText`. -/
def Uint64.UnmarshalText (input : List Char) : Except HexError UInt64 := do
  let raw ← checkNumberText input
  if raw.length > 16 then .error .uint64Range else readNibbles raw

/-- `Big.MarshalText`. -/
def Big.MarshalText (x : ℕ) : List Char := EncodeBig x

/-- `Big.UnmarshalText`. -/
def Big.UnmarshalText (input : List Char) : Except HexError ℕ := do
  let raw ← checkNumberText input
  decodeBigDigits raw

end GoXdn.Hexutil
