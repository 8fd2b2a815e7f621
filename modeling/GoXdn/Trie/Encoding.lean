import Mathlib

/-!
# Trie keys

`trie/encoding.go`. A key reaches the trie as bytes (`KEYBYTES`); nodes in memory hold it as
nibbles, one per byte, with the terminator 16 at the end of a key that ends at a value (`HEX`);
nodes on disk hold the hex-prefix form of the yellow paper, a flag byte for the terminator and
the oddness and then two nibbles a byte (`COMPACT`).

`compactToHex` reads `base[0]` of the nibbles of its input without a check, so an empty compact
key panics; it returns `none` there.
-/

namespace GoXdn.Mpt

/-- `keybytesToHex`: each byte as two nibbles, high first, then the terminator. -/
def keybytesToHex (str : List UInt8) : List UInt8 :=
  str.flatMap (fun b => [b / 16, b % 16]) ++ [16]

/-- `hasTerm`: the key ends with the terminator. -/
def hasTerm (s : List UInt8) : Bool := s.getLast? == some 16

/-- `decodeNibbles`: each pair of nibbles as one byte, high nibble first. -/
def decodeNibbles : List UInt8 → List UInt8
  | n₁ :: n₂ :: rest => (n₁ <<< (4 : UInt8) ||| n₂) :: decodeNibbles rest
  | _ => []

/-- `hexToKeybytes`: the nibbles of a key of even length, the terminator dropped, two to a byte;
a key of odd length panics (`none`). -/
def hexToKeybytes (hex : List UInt8) : Option (List UInt8) :=
  let hex := if hasTerm hex then hex.dropLast else hex
  if hex.length % 2 ≠ 0 then none else some (decodeNibbles hex)

/-- `hexToCompact`: the flag byte (terminator in bit 5, oddness in bit 4, and the first nibble of
an odd key in the low nibble), then the remaining nibbles two to a byte. -/
def hexToCompact (hex : List UInt8) : List UInt8 :=
  let terminator : UInt8 := if hasTerm hex then 1 else 0
  let hex := if hasTerm hex then hex.dropLast else hex
  if hex.length % 2 = 1 then
    (terminator <<< (5 : UInt8) ||| (1 : UInt8) <<< (4 : UInt8) ||| hex.headD 0) :: decodeNibbles hex.tail
  else (terminator <<< (5 : UInt8)) :: decodeNibbles hex

/-- `compactToHex`: the nibbles of the compact key without the terminator keybytesToHex adds,
the terminator put back if the flag says so, and the flag nibble (with the padding nibble of an
even key) chopped off. -/
def compactToHex (compact : List UInt8) : Option (List UInt8) :=
  match (keybytesToHex compact).dropLast with
  | [] => none
  | b₀ :: rest =>
    let base := if 2 ≤ b₀ then b₀ :: rest ++ [16] else b₀ :: rest
    some (base.drop (2 - (b₀ &&& 1)).toNat)

/-- `prefixLen`: the length of the common prefix of `a` and `b`. -/
def prefixLen : List UInt8 → List UInt8 → ℕ
  | x :: xs, y :: ys => if x = y then prefixLen xs ys + 1 else 0
  | _, _ => 0

end GoXdn.Mpt
