import Mathlib
import GoXdn.Lib.Hexutil

/-!
# Which hex encodings decode back

Every encoder writes digits the decoders read back: two a byte (`hexDecodePairs_hexEncode`), or
the digits of a number without leading zeros (`Nat.toDigits 16`), which `ParseUint`, the word
loop of `DecodeBig` and the digit loop of `Uint64.UnmarshalText` all read as the number
(`parseUintLoop_eq`, `readNibbles_eq`, `bigWords_eq`). But `Encode` now writes the empty string
for no bytes, and `Decode` refuses the empty string: that one byte string does not come back
(`Decode_Encode_nil`).
-/

namespace GoXdn.Hexutil

/-! ### Digits -/

lemma decodeNibble_digitChar {d : ℕ} (hd : d < 16) : decodeNibble (Nat.digitChar d) = some d := by
  have hall : ∀ d : Fin 16, decodeNibble (Nat.digitChar d) = some d := by decide
  exact hall ⟨d, hd⟩

lemma digitChar_ne_x {d : ℕ} (hd : d < 16) : Nat.digitChar d ≠ 'x' ∧ Nat.digitChar d ≠ 'X' := by
  have hall : ∀ d : Fin 16, Nat.digitChar d ≠ 'x' ∧ Nat.digitChar d ≠ 'X' := by decide
  exact hall ⟨d, hd⟩

lemma digitChar_ne_zero {d : ℕ} (hd : d < 16) (h0 : d ≠ 0) : Nat.digitChar d ≠ '0' := by
  have hall : ∀ d : Fin 16, d.val ≠ 0 → Nat.digitChar d ≠ '0' := by decide
  exact hall ⟨d, hd⟩ h0

lemma decodeNibble_lt {c : Char} {d : ℕ} (h : decodeNibble c = some d) : d < 16 := by
  have hle : ∀ a b : Char, a ≤ b ↔ a.toNat ≤ b.toNat := fun _ _ => Iff.rfl
  have hlit : '0'.toNat = 48 ∧ '9'.toNat = 57 ∧ 'A'.toNat = 65 ∧ 'F'.toNat = 70 ∧ 'a'.toNat = 97 ∧
      'f'.toNat = 102 := by decide
  unfold decodeNibble at h
  simp only [hle] at h
  split_ifs at h with h₁ h₂ h₃ <;> cases h <;> omega

/-- The number a string of hex digits spells. -/
def hexValue (s : List Char) : ℕ := s.foldl (fun acc c => acc * 16 + (decodeNibble c).getD 0) 0

/-- Every character is a hex digit. -/
def HexDigits (s : List Char) : Prop := ∀ c ∈ s, (decodeNibble c).isSome

lemma hexValue_append_singleton (s : List Char) (c : Char) :
    hexValue (s ++ [c]) = hexValue s * 16 + (decodeNibble c).getD 0 := by
  simp [hexValue, List.foldl_append]

lemma hexValue_append (xs ys : List Char) : hexValue (xs ++ ys) = hexValue xs * 16 ^ ys.length + hexValue ys := by
  induction ys using List.reverseRecOn with
  | nil => simp [hexValue]
  | append_singleton ys c ih =>
    rw [← List.append_assoc, hexValue_append_singleton, ih, hexValue_append_singleton, List.length_append,
      List.length_singleton, pow_succ]
    ring

lemma hexValue_lt (s : List Char) : hexValue s < 16 ^ s.length := by
  induction s using List.reverseRecOn with
  | nil => simp [hexValue]
  | append_singleton s c ih =>
    have hc : (decodeNibble c).getD 0 < 16 := by
      rcases h : decodeNibble c with _ | d
      · simp
      · exact decodeNibble_lt h
    rw [hexValue_append_singleton, List.length_append, List.length_singleton, pow_succ]
    omega

lemma mem_toDigits {n : ℕ} {c : Char} (hc : c ∈ Nat.toDigits 16 n) : ∃ d < 16, c = Nat.digitChar d := by
  induction n using Nat.strong_induction_on with
  | _ n ih =>
    rw [Nat.toDigits_eq_if (by norm_num)] at hc
    split_ifs at hc with hn
    · exact ⟨n, hn, List.mem_singleton.mp hc⟩
    · rcases List.mem_append.mp hc with hc | hc
      · exact ih (n / 16) (by omega) hc
      · exact ⟨n % 16, Nat.mod_lt _ (by norm_num), List.mem_singleton.mp hc⟩

lemma hexDigits_toDigits (n : ℕ) : HexDigits (Nat.toDigits 16 n) := by
  intro c hc
  obtain ⟨d, hd, rfl⟩ := mem_toDigits hc
  rw [decodeNibble_digitChar hd]
  rfl

lemma hexValue_toDigits (n : ℕ) : hexValue (Nat.toDigits 16 n) = n := by
  induction n using Nat.strong_induction_on with
  | _ n ih =>
    rw [Nat.toDigits_eq_if (by norm_num)]
    split_ifs with hn
    · simp [hexValue, decodeNibble_digitChar hn]
    · rw [hexValue_append_singleton, ih (n / 16) (by omega), decodeNibble_digitChar (Nat.mod_lt _ (by norm_num)),
        Option.getD_some]
      omega

lemma length_toDigits_le {n k : ℕ} (hn : n < 16 ^ k) (hk : 0 < k) : (Nat.toDigits 16 n).length ≤ k :=
  (Nat.length_toDigits_le_iff (by norm_num) hk).mpr hn

/-- The digits of a positive number do not start with a zero. -/
lemma headD_toDigits {n : ℕ} (hn : 0 < n) : (Nat.toDigits 16 n).headD ' ' ≠ '0' := by
  induction n using Nat.strong_induction_on with
  | _ n ih =>
    rw [Nat.toDigits_eq_if (by norm_num)]
    split_ifs with h16
    · exact digitChar_ne_zero h16 (by omega)
    · obtain ⟨c, cs, hcs⟩ := List.exists_cons_of_ne_nil (Nat.toDigits_ne_nil (n := n / 16) (b := 16))
      have := ih (n / 16) (by omega) (by omega)
      rw [hcs] at this ⊢
      exact this

/-! ### Byte strings -/

lemma hexDecodePairs_hexEncode (b : List UInt8) : hexDecodePairs (hexEncode b) = .ok b := by
  induction b with
  | nil => rfl
  | cons x b ih =>
    have hhi : x.toNat / 16 < 16 := by
      have := x.toNat_lt
      omega
    have hlo : x.toNat % 16 < 16 := Nat.mod_lt _ (by norm_num)
    have hbyte : (x.toNat / 16 * 16 + x.toNat % 16).toUInt8 = x := by
      rw [Nat.div_add_mod']
      exact UInt8.ofNat_toNat
    rw [hexEncode, List.flatMap_cons, List.cons_append, List.cons_append, List.nil_append, hexDecodePairs,
      decodeNibble_digitChar hhi, decodeNibble_digitChar hlo]
    change (hexDecodePairs (hexEncode b) >>= fun r => .ok _) = _
    rw [ih, hbyte]
    rfl

lemma length_hexEncode (b : List UInt8) : (hexEncode b).length = 2 * b.length := by
  simp [hexEncode, List.length_flatMap]
  ring

lemma has0xPrefix_hexEncode (b : List UInt8) : has0xPrefix (hexEncode b) = false := by
  cases b with
  | nil => rfl
  | cons x b =>
    obtain ⟨hx, hX⟩ := digitChar_ne_x (d := x.toNat % 16) (Nat.mod_lt _ (by norm_num))
    rw [hexEncode, List.flatMap_cons, List.cons_append, List.cons_append, List.nil_append]
    unfold has0xPrefix
    split
    · next h => exact absurd (List.cons.inj (List.cons.inj h).2).1 hx
    · next h => exact absurd (List.cons.inj (List.cons.inj h).2).1 hX
    · rfl

lemma hexDecode_hexEncode (b : List UInt8) : hexDecode (hexEncode b) = .ok b := by
  rw [hexDecode, length_hexEncode, if_neg (by omega), hexDecodePairs_hexEncode]

theorem Decode_Encode_nil : Decode (Encode []) = .error .emptyString := rfl

theorem Decode_Encode {b : List UInt8} (hb : b ≠ []) : Decode (Encode b) = .ok b := by
  have hne : hexEncode b ≠ [] := by
    rw [← List.length_pos_iff, length_hexEncode]
    have := List.length_pos_iff.mpr hb
    omega
  rw [Decode, Encode, if_neg hne, has0xPrefix_hexEncode, if_neg Bool.false_ne_true, hexDecode_hexEncode]

theorem Bytes.UnmarshalText_MarshalText (b : List UInt8) : Bytes.UnmarshalText (Bytes.MarshalText b) = .ok b := by
  unfold Bytes.UnmarshalText Bytes.MarshalText checkText
  by_cases hne : hexEncode b = []
  · have hb : b = [] := by
      have := length_hexEncode b
      rw [hne, List.length_nil] at this
      exact List.eq_nil_of_length_eq_zero (by omega)
    subst hb
    rfl
  · rw [if_neg hne]
    dsimp only
    rw [has0xPrefix_hexEncode, if_neg Bool.false_ne_true, length_hexEncode, if_neg (by omega)]
    exact hexDecode_hexEncode b

/-! ### Quantities -/

lemma checkNumberOn_toDigits (empty : Except HexError (List Char)) (n : ℕ) :
    checkNumberOn empty (['0', 'x'] ++ Nat.toDigits 16 n) = .ok (Nat.toDigits 16 n) := by
  unfold checkNumberOn
  rw [if_neg (by simp), List.cons_append, List.cons_append, List.nil_append]
  dsimp only
  rw [if_neg (by simp [has0xPrefix]), List.drop_succ_cons, List.drop_succ_cons, List.drop_zero,
    if_neg Nat.toDigits_ne_nil, if_neg]
  rintro ⟨hlen, hhead⟩
  rcases Nat.eq_zero_or_pos n with rfl | hn
  · simp at hlen
  · exact headD_toDigits hn hhead

lemma parseUintLoop_append (acc : ℕ) (xs ys : List Char) :
    parseUintLoop acc (xs ++ ys) = parseUintLoop acc xs >>= fun a => parseUintLoop a ys := by
  induction xs generalizing acc with
  | nil => rfl
  | cons c xs ih =>
    rw [List.cons_append, parseUintLoop, parseUintLoop]
    split
    · rfl
    · split_ifs
      · rfl
      · rfl
      · exact ih _

/-- `ParseUint` reads a string of digits below `2^64` as its number. -/
lemma parseUintLoop_eq (s : List Char) (hs : HexDigits s) (hlt : hexValue s < 2 ^ 64) :
    parseUintLoop 0 s = .ok (hexValue s) := by
  induction s using List.reverseRecOn with
  | nil => rfl
  | append_singleton s c ih =>
    obtain ⟨d, hd⟩ := Option.isSome_iff_exists.mp (hs c (by simp))
    have hval := hexValue_append_singleton s c
    rw [hd, Option.getD_some] at hval
    have hsmall : hexValue s < 2 ^ 60 := by omega
    rw [parseUintLoop_append, ih (fun x hx => hs x (by simp [hx])) (by omega)]
    change parseUintLoop (hexValue s) [c] = _
    rw [parseUintLoop, hd]
    dsimp only
    rw [if_neg (by omega), if_neg (by omega), hval]
    rfl

/-- The digit loop reads a string of digits as its number modulo `2^64`. -/
lemma readNibbles_eq (s : List Char) (hs : HexDigits s) : readNibbles s = .ok (UInt64.ofNat (hexValue s)) := by
  induction s using List.reverseRecOn with
  | nil => rfl
  | append_singleton s c ih =>
    obtain ⟨d, hd⟩ := Option.isSome_iff_exists.mp (hs c (by simp))
    have hval := hexValue_append_singleton s c
    rw [hd, Option.getD_some] at hval
    unfold readNibbles at ih ⊢
    rw [List.foldlM_append, ih (fun x hx => hs x (by simp [hx]))]
    simp only [List.foldlM_cons, List.foldlM_nil, bind, Except.bind, hd, pure, Except.pure]
    rw [hval, UInt64.ofNat_add, UInt64.ofNat_mul]
    rfl

theorem DecodeUint64_EncodeUint64 (i : UInt64) : DecodeUint64 (EncodeUint64 i) = .ok i := by
  unfold DecodeUint64 EncodeUint64 checkNumber
  rw [checkNumberOn_toDigits]
  simp only [bind, Except.bind]
  rw [parseUint16, if_neg Nat.toDigits_ne_nil,
    parseUintLoop_eq _ (hexDigits_toDigits _) (by rw [hexValue_toDigits]; exact i.toNat_lt), hexValue_toDigits]
  simp only [Except.map, UInt64.ofNat_toNat]

theorem Uint64.UnmarshalText_MarshalText (i : UInt64) : Uint64.UnmarshalText (Uint64.MarshalText i) = .ok i := by
  unfold Uint64.UnmarshalText Uint64.MarshalText checkNumberText
  rw [checkNumberOn_toDigits]
  simp only [bind, Except.bind]
  have hlen : (Nat.toDigits 16 i.toNat).length ≤ 16 := length_toDigits_le (by have := i.toNat_lt; norm_num; omega) (by norm_num)
  rw [if_neg (by omega), readNibbles_eq _ (hexDigits_toDigits _), hexValue_toDigits, UInt64.ofNat_toNat]

/-- The words of `DecodeBig` below `end` hold the number the digits below `end` spell. -/
lemma bigWords_eq (raw : List Char) (hraw : HexDigits raw) :
    ∀ k end_, end_ ≤ bigWordNibbles * k → end_ ≤ raw.length →
      ∃ ws, bigWords raw k end_ = .ok ws ∧ setBits ws = hexValue (raw.take end_)
  | 0, end_, hk, _ => by
    obtain rfl : end_ = 0 := by
      unfold bigWordNibbles at hk
      omega
    exact ⟨[], rfl, rfl⟩
  | k + 1, end_, hk, hlen => by
    have hslice : HexDigits ((raw.take end_).drop (end_ - bigWordNibbles)) := fun c hc =>
      hraw c (List.mem_of_mem_take (List.mem_of_mem_drop hc))
    obtain ⟨ws, hws, hset⟩ := bigWords_eq raw hraw k (end_ - bigWordNibbles) (by
      unfold bigWordNibbles at hk ⊢
      omega) (by omega)
    have hsplit : raw.take end_ = raw.take (end_ - bigWordNibbles) ++ (raw.take end_).drop (end_ - bigWordNibbles) := by
      conv_lhs => rw [← List.take_append_drop (end_ - bigWordNibbles) (raw.take end_)]
      rw [List.take_take, min_eq_left (by omega)]
    have hword : hexValue ((raw.take end_).drop (end_ - bigWordNibbles)) < 2 ^ 64 := by
      have hlt := hexValue_lt ((raw.take end_).drop (end_ - bigWordNibbles))
      have hl : ((raw.take end_).drop (end_ - bigWordNibbles)).length ≤ 16 := by
        simp only [List.length_drop, List.length_take, bigWordNibbles]
        omega
      calc _ < 16 ^ ((raw.take end_).drop (end_ - bigWordNibbles)).length := hlt
        _ ≤ 16 ^ 16 := Nat.pow_le_pow_right (by norm_num) hl
        _ = 2 ^ 64 := by norm_num
    refine ⟨UInt64.ofNat (hexValue ((raw.take end_).drop (end_ - bigWordNibbles))) :: ws, ?_, ?_⟩
    · rw [bigWords]
      simp only [bind, Except.bind, readNibbles_eq _ hslice, hws]
    · rw [setBits, List.foldr_cons, ← setBits, hset, UInt64.toNat_ofNat_of_lt' hword]
      conv_rhs => rw [hsplit, hexValue_append]
      rcases Nat.eq_zero_or_pos (end_ - bigWordNibbles) with h0 | hpos
      · rw [h0, List.take_zero]
        simp [hexValue]
      · have hl : ((raw.take end_).drop (end_ - bigWordNibbles)).length = 16 := by
          simp only [List.length_drop, List.length_take, bigWordNibbles] at hpos ⊢
          omega
        rw [hl]
        ring

lemma decodeBigDigits_toDigits {x : ℕ} (hx : x < 2 ^ 256) : decodeBigDigits (Nat.toDigits 16 x) = .ok x := by
  have hlen : (Nat.toDigits 16 x).length ≤ 64 := length_toDigits_le (by norm_num; omega) (by norm_num)
  obtain ⟨ws, hws, hset⟩ := bigWords_eq _ (hexDigits_toDigits x) ((Nat.toDigits 16 x).length / bigWordNibbles + 1)
    (Nat.toDigits 16 x).length (by unfold bigWordNibbles; omega) le_rfl
  rw [decodeBigDigits, if_neg (by omega), hws]
  simp only [Except.map]
  rw [hset, List.take_length, hexValue_toDigits]

lemma EncodeBig_eq (x : ℕ) : EncodeBig x = ['0', 'x'] ++ Nat.toDigits 16 x := by
  unfold EncodeBig
  split_ifs with h0
  · rw [h0, Nat.toDigits_zero]
    rfl
  · rfl

theorem DecodeBig_EncodeBig {x : ℕ} (hx : x < 2 ^ 256) : DecodeBig (EncodeBig x) = .ok x := by
  unfold DecodeBig checkNumber
  rw [EncodeBig_eq, checkNumberOn_toDigits]
  exact decodeBigDigits_toDigits hx

theorem Big.UnmarshalText_MarshalText {x : ℕ} (hx : x < 2 ^ 256) : Big.UnmarshalText (Big.MarshalText x) = .ok x := by
  unfold Big.UnmarshalText Big.MarshalText checkNumberText
  rw [EncodeBig_eq, checkNumberOn_toDigits]
  exact decodeBigDigits_toDigits hx

theorem hex_round_trips :
    Decode (Encode []) = .error .emptyString ∧
      (∀ b : List UInt8, b ≠ [] → Decode (Encode b) = .ok b) ∧
      (∀ b : List UInt8, Bytes.UnmarshalText (Bytes.MarshalText b) = .ok b) ∧
      (∀ n : UInt64, DecodeUint64 (EncodeUint64 n) = .ok n ∧ Uint64.UnmarshalText (Uint64.MarshalText n) = .ok n) ∧
      ∀ x : ℕ, x < 2 ^ 256 → DecodeBig (EncodeBig x) = .ok x ∧ Big.UnmarshalText (Big.MarshalText x) = .ok x :=
  ⟨Decode_Encode_nil, fun _ hb => Decode_Encode hb, Bytes.UnmarshalText_MarshalText,
    fun n => ⟨DecodeUint64_EncodeUint64 n, Uint64.UnmarshalText_MarshalText n⟩,
    fun _ hx => ⟨DecodeBig_EncodeBig hx, Big.UnmarshalText_MarshalText hx⟩⟩

end GoXdn.Hexutil
