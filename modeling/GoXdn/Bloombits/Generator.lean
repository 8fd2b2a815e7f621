import Mathlib
import GoXdn.Core.Bloom9

/-!
# The bloom-bits generator

`core/bloombits/generator.go`: a `Generator` turns the blooms of a section of `sections` headers
into `BloomBitLength` bit vectors, one per bloom bit, whose bit `j` (most significant first in
each byte) is that bloom bit of the section's `j`-th header. The bloom indexer
(`xdn/bloombits.go`) makes one per section, adds the section's headers in order and reads every
vector back with `Bitset`.
-/

namespace GoXdn.Bloombits

open GoXdn.Core

/-- `errSectionOutOfBounds`. -/
def errSectionOutOfBounds : String := "section out of bounds"

structure Generator where
  /-- the rotated blooms, one vector per bloom bit -/
  blooms : List (List UInt8)
  sections : ℕ
  nextBit : ℕ

/-- `NewGenerator`: a vector of `sections / 8` zero bytes for every bloom bit. -/
def NewGenerator (sections : ℕ) : Except String Generator :=
  if sections % 8 ≠ 0 then .error "section count not multiple of 8"
  else .ok ⟨List.replicate BloomBitLength (List.replicate (sections / 8) 0), sections, 0⟩

namespace Generator

/-- `Generator.AddBloom`: bit `i` of the bloom, byte `255 - i/8` and mask `1 << (i%8)`, is set
in vector `i` at the bit of the next header. -/
def AddBloom (b : Generator) (index : ℕ) (bloom : Bloom) : Except String Generator :=
  if b.nextBit ≥ b.sections then .error errSectionOutOfBounds
  else if b.nextBit ≠ index then .error "bloom filter with unexpected index"
  else
    let byteIndex := b.nextBit / 8
    let bitMask : UInt8 := 1 <<< (7 - b.nextBit % 8).toUInt8
    .ok { b with
      blooms := b.blooms.mapIdx fun i v =>
        let bloomByteIndex := BloomByteLength - 1 - i / 8
        let bloomBitMask : UInt8 := 1 <<< (i % 8).toUInt8
        if bloom.bytes.getD bloomByteIndex 0 &&& bloomBitMask ≠ 0 then
          v.modify byteIndex (· ||| bitMask)
        else v
      nextBit := b.nextBit + 1 }

/-- `Generator.Bitset`: the vector of bloom bit `idx`, once every header is in. The bound it
checks `idx` against is the section count. -/
def Bitset (b : Generator) (idx : ℕ) : Except String (List UInt8) :=
  if b.nextBit ≠ b.sections then .error "bloom not fully generated yet"
  else if idx ≥ b.sections then .error errSectionOutOfBounds
  else
    match b.blooms[idx]? with
    | some v => .ok v
    | none => .error "index out of range"

/-- `BloomIndexer.Process` over a section's headers in order: the header at offset `j` from the
section's start is added with index `j`. -/
def addBlooms (g : Generator) : ℕ → List Bloom → Except String Generator
  | _, [] => .ok g
  | j, bloom :: blooms => do
    let g ← g.AddBloom j bloom
    g.addBlooms (j + 1) blooms

end Generator

/-- The headers of section `s`, `s * size` to `s * size + size - 1`, as the indexer processes
them: `blooms n` is header `n`'s bloom. -/
def sectionBlooms (blooms : ℕ → Bloom) (size s : ℕ) : List Bloom :=
  (List.range size).map fun j => blooms (s * size + j)

/-- The vector of bloom bit `bit` for section `s`, as the indexer's `Commit` reads it back from the
section's generator. -/
def sectionBitset (blooms : ℕ → Bloom) (size s bit : ℕ) : Except String (List UInt8) := do
  let g ← NewGenerator size
  let g ← g.addBlooms 0 (sectionBlooms blooms size s)
  g.Bitset bit

end GoXdn.Bloombits
