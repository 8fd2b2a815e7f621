import Mathlib
import GoXdn.Trie.Encoding

/-!
# The key encodings invert each other

Bytes go to nibbles and back (`hexToKeybytes_keybytesToHex`). A key in nibbles, terminated or
not, goes to the compact form and back (`compactToHex_hexToCompact`): the flag nibble records
the terminator and the oddness, and `compactToHex` chops it off with the padding nibble of an
even key. So the compact form tells keys apart.
-/

namespace GoXdn.Mpt

/-- A key in nibbles: values below 16, then the terminator 16 or nothing. -/
@[ext]
structure HexKey where
  nibbles : List UInt8
  nibbles_lt : ∀ x ∈ nibbles, x < 16
  term : Bool

def HexKey.hex (k : HexKey) : List UInt8 := k.nibbles ++ if k.term then [16] else []

lemma byte_nibbles : ∀ b : UInt8, (b / 16) <<< (4 : UInt8) ||| b % 16 = b := fun b => by
  have hb := b.toNat_lt
  rw [← UInt8.toNat_inj, UInt8.toNat_or, UInt8.toNat_shiftLeft, UInt8.toNat_div, UInt8.toNat_mod]
  simp only [UInt8.reduceToNat, Nat.reduceMod, Nat.shiftLeft_eq]
  rw [Nat.mod_eq_of_lt (by omega), Nat.mul_comm, ← Nat.two_pow_add_eq_or_of_lt (by omega)]
  omega

lemma nibbles_byte {n₁ n₂ : UInt8} (h₁ : n₁ < 16) (h₂ : n₂ < 16) :
    (n₁ <<< (4 : UInt8) ||| n₂) / 16 = n₁ ∧ (n₁ <<< (4 : UInt8) ||| n₂) % 16 = n₂ := by
  have hall : ∀ a b : Fin 16, ((a : ℕ).toUInt8 <<< (4 : UInt8) ||| (b : ℕ).toUInt8) / 16 = (a : ℕ).toUInt8 ∧
      ((a : ℕ).toUInt8 <<< (4 : UInt8) ||| (b : ℕ).toUInt8) % 16 = (b : ℕ).toUInt8 := by
    decide
  have h := hall ⟨n₁.toNat, UInt8.lt_iff_toNat_lt.mp h₁⟩ ⟨n₂.toNat, UInt8.lt_iff_toNat_lt.mp h₂⟩
  simpa only [UInt8.ofNat_toNat] using h

/-- The nibbles of a byte string, the terminator left out. -/
lemma dropLast_keybytesToHex (str : List UInt8) :
    (keybytesToHex str).dropLast = str.flatMap (fun b => [b / 16, b % 16]) := by
  rw [keybytesToHex, List.dropLast_concat]

lemma decodeNibbles_flatMap (str : List UInt8) :
    decodeNibbles (str.flatMap (fun b => [b / 16, b % 16])) = str := by
  induction str with
  | nil => rfl
  | cons b str ih =>
    rw [List.flatMap_cons, List.cons_append, List.cons_append, List.nil_append, decodeNibbles, ih,
      byte_nibbles]

lemma flatMap_decodeNibbles :
    ∀ hex : List UInt8, (∀ x ∈ hex, x < 16) → hex.length % 2 = 0 →
      (decodeNibbles hex).flatMap (fun b => [b / 16, b % 16]) = hex
  | [], _, _ => rfl
  | [_], _, hlen => by simp at hlen
  | n₁ :: n₂ :: rest, hlt, hlen => by
    obtain ⟨hdiv, hmod⟩ := nibbles_byte (hlt n₁ (by simp)) (hlt n₂ (by simp))
    rw [decodeNibbles, List.flatMap_cons, hdiv, hmod,
      flatMap_decodeNibbles rest (fun x hx => hlt x (by simp [hx])) (by simp at hlen; omega)]
    rfl

theorem hexToKeybytes_keybytesToHex (str : List UInt8) :
    hexToKeybytes (keybytesToHex str) = some str := by
  have hterm : hasTerm (keybytesToHex str) = true := by
    simp [hasTerm, keybytesToHex]
  have hlen : (str.flatMap (fun b => [b / 16, b % 16])).length % 2 = 0 := by
    simp [List.length_flatMap]
  unfold hexToKeybytes
  rw [if_pos hterm, dropLast_keybytesToHex, if_neg (by omega), decodeNibbles_flatMap]

lemma hasTerm_hex (k : HexKey) : hasTerm k.hex = k.term := by
  unfold hasTerm HexKey.hex
  cases k.term with
  | true => simp
  | false =>
    rw [if_neg Bool.false_ne_true, List.append_nil]
    rcases h : k.nibbles.getLast? with _ | x
    · rfl
    · have hx := k.nibbles_lt x (List.mem_of_getLast? h)
      have hne : x ≠ 16 := by
        rintro rfl
        exact absurd hx (by decide)
      simp [hne]

lemma hex_unterminated (k : HexKey) : (if hasTerm k.hex then k.hex.dropLast else k.hex) = k.nibbles := by
  rw [hasTerm_hex]
  unfold HexKey.hex
  cases k.term <;> simp

/-- The flag nibbles of an odd key: `2 * term + 1`, then the key's first nibble. -/
lemma flag_odd (t : Bool) {n : UInt8} (hn : n < 16) :
    ((if t then 1 else 0 : UInt8) <<< (5 : UInt8) ||| (1 : UInt8) <<< (4 : UInt8) ||| n) / 16 =
        (if t then 3 else 1) ∧
      ((if t then 1 else 0 : UInt8) <<< (5 : UInt8) ||| (1 : UInt8) <<< (4 : UInt8) ||| n) % 16 = n := by
  have hall : ∀ (t : Bool) (a : Fin 16),
      ((if t then 1 else 0 : UInt8) <<< (5 : UInt8) ||| (1 : UInt8) <<< (4 : UInt8) ||| (a : ℕ).toUInt8) / 16 =
          (if t then 3 else 1) ∧
        ((if t then 1 else 0 : UInt8) <<< (5 : UInt8) ||| (1 : UInt8) <<< (4 : UInt8) ||| (a : ℕ).toUInt8) % 16 =
          (a : ℕ).toUInt8 := by
    decide
  simpa only [UInt8.ofNat_toNat] using hall t ⟨n.toNat, UInt8.lt_iff_toNat_lt.mp hn⟩

/-- What `compactToHex` makes of a flag nibble and the nibbles after it. -/
lemma compactToHex_cons (flag : UInt8) (rest : List UInt8) :
    compactToHex (flag :: rest) =
      let base := if 2 ≤ flag / 16 then flag / 16 :: flag % 16 :: (rest.flatMap fun b => [b / 16, b % 16]) ++ [16]
        else flag / 16 :: flag % 16 :: rest.flatMap fun b => [b / 16, b % 16]
      some (base.drop (2 - (flag / 16 &&& 1)).toNat) := by
  unfold compactToHex
  rw [dropLast_keybytesToHex]
  rfl

theorem compactToHex_hexToCompact (k : HexKey) : compactToHex (hexToCompact k.hex) = some k.hex := by
  have hnib := hex_unterminated k
  unfold hexToCompact
  dsimp only
  rw [hnib, hasTerm_hex]
  by_cases hodd : k.nibbles.length % 2 = 1
  · obtain ⟨n, rest, hk⟩ : ∃ n rest, k.nibbles = n :: rest := List.exists_cons_of_ne_nil (by
      intro h; rw [h] at hodd; simp at hodd)
    have hn := k.nibbles_lt n (by simp [hk])
    have hrest : ∀ x ∈ rest, x < 16 := fun x hx => k.nibbles_lt x (by simp [hk, hx])
    have heven : rest.length % 2 = 0 := by
      rw [hk, List.length_cons] at hodd
      omega
    obtain ⟨hdiv, hmod⟩ := flag_odd k.term hn
    have hchop : ∀ t : Bool, (2 - ((if t then 3 else 1 : UInt8) &&& 1)).toNat = 1 := by decide
    rw [if_pos hodd, hk, List.headD_cons, List.tail_cons, compactToHex_cons, hdiv, hmod,
      flatMap_decodeNibbles rest hrest heven, hchop]
    unfold HexKey.hex
    rw [hk]
    cases k.term <;> simp
  · have hflag : ∀ t : Bool, (if t then 1 else 0 : UInt8) <<< (5 : UInt8) / 16 = (if t then 2 else 0) ∧
        (if t then 1 else 0 : UInt8) <<< (5 : UInt8) % 16 = 0 := by decide
    obtain ⟨hdiv, hmod⟩ := hflag k.term
    have hchop : ∀ t : Bool, (2 - ((if t then 2 else 0 : UInt8) &&& 1)).toNat = 2 := by decide
    rw [if_neg hodd, compactToHex_cons, hdiv, hmod, flatMap_decodeNibbles _ k.nibbles_lt (by omega), hchop]
    unfold HexKey.hex
    cases k.term <;> simp

/-- The nibbles say which key they are. -/
lemma HexKey.hex_injective : Function.Injective HexKey.hex := by
  intro k₁ k₂ h
  have hterm : k₁.term = k₂.term := by rw [← hasTerm_hex, ← hasTerm_hex, h]
  have hnib : k₁.nibbles = k₂.nibbles := by rw [← hex_unterminated, ← hex_unterminated, h]
  exact HexKey.ext hnib hterm

theorem hexToCompact_injective : Function.Injective fun k : HexKey => hexToCompact k.hex := by
  intro k₁ k₂ h
  apply HexKey.hex_injective
  have h₁ := compactToHex_hexToCompact k₁
  have h₂ := compactToHex_hexToCompact k₂
  dsimp only at h
  rw [h, h₂] at h₁
  exact (Option.some.inj h₁).symm

theorem key_encodings_round_trip :
    (∀ str, hexToKeybytes (keybytesToHex str) = some str) ∧
      (∀ k : HexKey, compactToHex (hexToCompact k.hex) = some k.hex) ∧
      Function.Injective fun k : HexKey => hexToCompact k.hex :=
  ⟨hexToKeybytes_keybytesToHex, compactToHex_hexToCompact, hexToCompact_injective⟩

end GoXdn.Mpt
