import Mathlib
import GoXdn.Trie.Node

/-!
# Where node decoding panics

`readKind` of `rlp/raw.go` reads `buf[1]` of a header `0x81` before it knows that the slice has a
second byte, so the splitters panic on exactly one input, the one-byte slice `0x81`
(`split_eq_panic_iff`), and `CountValues` on every slice whose walk of headers reaches it.
`decodeNode` counts the values of a node with `CountValues` and hands a short node's key bytes to
`compactToHex`, which reads `base[0]` of the nibbles of an empty key; both panics reach
`decodeNode` from three-byte inputs (`decodeNode_panics`).
-/

namespace GoXdn.Rlp

theorem readSize_ne_panic (b : List UInt8) (slen : ℕ) : readSize b slen ≠ .error .indexOutOfRange := by
  unfold readSize
  split
  · simp
  · dsimp only
    split <;> simp

theorem map_readSize_ne_panic {α : Type} (f : ℕ → α) (b : List UInt8) (slen : ℕ) :
    (readSize b slen).map f ≠ .error .indexOutOfRange := by
  rcases hs : readSize b slen with e | s
  · intro he
    cases he
    exact readSize_ne_panic _ _ hs
  · simp [Except.map]

theorem sub_0x80_eq_one {b : UInt8} (h : ¬ b < 0x80) : (b - 0x80).toNat = 1 ↔ b = 0x81 := by
  have h' : 128 ≤ b.toNat := by
    rw [UInt8.lt_iff_toNat_lt] at h
    simpa using h
  rw [UInt8.toNat_sub_of_le _ _ (UInt8.le_iff_toNat_le.mpr (by simpa using h')), ← UInt8.toNat_inj]
  simp only [UInt8.reduceToNat]
  omega

/-- The header panics only where it reads the byte after a `0x81` that has none. -/
theorem readHeader_eq_panic_iff (b : UInt8) (rest : List UInt8) :
    readHeader b rest = .error .indexOutOfRange ↔ b = 0x81 ∧ rest = [] := by
  unfold readHeader
  by_cases h80 : b < 0x80
  · rw [if_pos h80]
    simp only [reduceCtorEq, false_iff, not_and]
    rintro rfl
    exact absurd h80 (by decide)
  rw [if_neg h80]
  by_cases hB8 : b < 0xB8
  · rw [if_pos hB8]
    by_cases h1 : (b - 0x80).toNat = 1
    · rw [if_pos h1]
      cases rest with
      | nil => simpa using (sub_0x80_eq_one h80).mp h1
      | cons x rest =>
        dsimp only
        split <;> simp
    · rw [if_neg h1]
      simp only [reduceCtorEq, false_iff, not_and]
      intro hb
      exact absurd ((sub_0x80_eq_one h80).mpr hb) h1
  have hb : b ≠ 0x81 := fun h => hB8 (h ▸ by decide)
  rw [if_neg hB8]
  simp only [hb, false_and, iff_false]
  split
  · exact map_readSize_ne_panic _ _ _
  · split
    · simp
    · exact map_readSize_ne_panic _ _ _

theorem readKind_eq_panic_iff (buf : List UInt8) :
    readKind buf = .error .indexOutOfRange ↔ buf = [0x81] := by
  cases buf with
  | nil => simp [readKind]
  | cons b rest =>
    rw [List.cons_eq_cons, ← readHeader_eq_panic_iff, readKind]
    rcases readHeader b rest with e | ⟨k, tagsize, contentsize⟩
    · rfl
    · simp only [bind, Except.bind, reduceCtorEq, iff_false]
      split <;> simp [throw, throwThe, MonadExceptOf.throw, pure, Except.pure]

theorem split_eq_panic_iff (b : List UInt8) : split b = .error .indexOutOfRange ↔ b = [0x81] := by
  rw [← readKind_eq_panic_iff, split]
  rcases readKind b with e | ⟨k, ts, cs⟩
  · simp only [bind, Except.bind, Except.error.injEq]
  · simp [bind, Except.bind, pure, Except.pure]

end GoXdn.Rlp

namespace GoXdn.Mpt

open Rlp

/-- `CountValues` panics on a list whose second value is the lone `0x81`, and `compactToHex` on
the empty key of a short node: `decodeNode` passes both panics on. -/
theorem decodeNode_panics (fuel : ℕ) (hash : Option (List UInt8)) (cachegen : UInt16) :
    split [0x81] = .error .indexOutOfRange ∧
      decodeNode (fuel + 1) hash [0xc2, 0x00, 0x81] cachegen = .error (.decode .indexOutOfRange) ∧
      decodeNode (fuel + 1) hash [0xc2, 0x80, 0x80] cachegen = .error .indexOutOfRange :=
  ⟨(split_eq_panic_iff _).mpr rfl, rfl, rfl⟩

end GoXdn.Mpt
