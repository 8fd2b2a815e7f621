import Mathlib
import GoXdn.Proofs.RlpStream

/-!
# Decoding reads back the encoding

`decodeInterface` reads back the encoding of every value wherever it stands in the input, given
fuel one more than the encoding's length (`decodeInterface_encode`); the elements of a list fill
it exactly, so the read after the last one meets `EOL` and `ListEnd` succeeds.  Conversely, what
it accepts is the encoding of what it returns (`decodeInterface_canonical`), by induction on the
fuel.  Over a whole input `DecodeBytes` then inverts `EncodeToBytes` for an `interface{}`, a
`uint64` and a non-negative `*big.Int`, and accepts nothing but their encodings.  A `RawValue`
is returned as it was read, so `EncodeToBytes` gives the input back too; but `Raw` checks only
the value's header, and a `RawValue` may hold a string in a form no other decoder accepts.
-/

namespace GoXdn.Rlp

open GoStd
open GoXdn.Rlp.Stream

/-! ### Values -/

theorem decodeInterface_of_bytes {s t : Stream} {b : List UInt8} (f : ℕ)
    (h : s.bytes = (.ok b, t)) : decodeInterface (f + 1) s = (.ok (.str b), t) := by
  rcases hk : s.kind with ⟨e | ⟨k, n⟩, t₁⟩
  · simp [bytes, hk] at h
  have hk' : k ≠ .list := by
    rintro rfl
    simp [bytes, hk] at h
  simp only [decodeInterface, hk, andThen_ok, if_neg hk', bytes_of_kind hk, h]

theorem decodeInterface_succ_eq_ok {f : ℕ} {s t : Stream} {v : Value}
    (h : decodeInterface (f + 1) s = (.ok v, t)) :
    (∃ b, v = .str b ∧ s.bytes = (.ok b, t)) ∨
      (∃ vs, v = .list vs ∧ decodeListSlice (decodeInterface f) f s = (.ok vs, t)) := by
  rcases hk : s.kind with ⟨e | ⟨k, n⟩, t₁⟩
  · simp [decodeInterface, hk] at h
  simp only [decodeInterface, hk, andThen_ok] at h
  split_ifs at h with hl
  · subst hl
    have hls : decodeListSlice (decodeInterface f) f t₁ = decodeListSlice (decodeInterface f) f s := by
      unfold decodeListSlice
      rw [list_of_kind hk]
    obtain ⟨vs, u, hd, h⟩ := andThen_eq_ok.1 h
    obtain ⟨rfl, rfl⟩ : Value.list vs = v ∧ u = t := by simpa using h
    exact .inr ⟨vs, rfl, by rw [← hls, hd]⟩
  · rw [bytes_of_kind hk] at h
    obtain ⟨b, u, hb, h⟩ := andThen_eq_ok.1 h
    obtain ⟨rfl, rfl⟩ : Value.str b = v ∧ u = t := by simpa using h
    exact .inl ⟨b, rfl, hb⟩

/-- At the end of the innermost list `decodeInterface` reads nothing and reports `EOL`. -/
theorem decodeInterface_eol {f : ℕ} {s : Stream} (hs : s.ahead = none) {tos : ListPos}
    {up : List ListPos} (hst : s.stack = tos :: up) (hpos : tos.pos = tos.size) :
    decodeInterface (f + 1) s = (.error .eol, { s with kinderr := none }) := by
  simp [decodeInterface, kind, hs, hst, hpos]

mutual
/-- The decoder reads back every value the encoder writes, wherever it stands in the input. -/
theorem decodeInterface_encode : ∀ (v : Value) {f : ℕ} {s : Stream} {rest : List UInt8},
    v.encode.length < 2 ^ 64 → v.encode.length + 1 ≤ f → s.ahead = none →
    s.Fits v.encode.length → s.r = v.encode ++ rest →
    ∃ t, decodeInterface f s = (.ok v, t) ∧ Consumed s v.encode.length t
  | _, 0, _, _, _, hf, _, _, _ => by omega
  | .str b, f + 1, s, rest, hlen, _, hs, hfit, hr => by
    rw [Value.encode] at hlen hfit hr ⊢
    obtain ⟨t, hb, hc⟩ :=
      bytes_strEncoding hs (lt_of_le_of_lt (length_le_strEncoding b) hlen) hfit hr
    exact ⟨t, decodeInterface_of_bytes f hb, hc⟩
  | .list vs, f + 1, s, rest, hlen, hf, hs, hfit, hr => by
    rw [Value.encode] at hlen hf hfit hr ⊢
    rw [List.length_append, length_puthead] at hlen hf hfit ⊢
    have hpos := headsize_pos (Value.encodeAll vs).length
    obtain ⟨t₀, hk₀, hc₀⟩ := readKind_puthead (k := .list) (n := (Value.encodeAll vs).length)
      (by decide) (by omega) (hfit.mono (by omega)) (by rw [hr, List.append_assoc]; rfl)
    have hk := kind_of_readKind hs hfit hpos hk₀ hc₀
    have ht₀r : t₀.r = Value.encodeAll vs ++ rest := by
      rw [hc₀.r, hr, List.append_assoc, ← length_puthead 0xC0 0xF7, List.drop_left]
    have hlist := list_eq (kind_kind hk)
    have hfit₀ : t₀.Fits (Value.encodeAll vs).length := hc₀.fits hfit
    cases vs with
    | nil =>
      obtain ⟨t₃, he, hc₃⟩ := listEnd_consumed (Consumed.refl (s := t₀.enter 0) rfl)
      refine ⟨t₃, ?_, hc₀.trans hc₃⟩
      simp only [Value.encodeAll, List.length_nil] at hk hlist
      simp only [decodeInterface, hk, andThen_ok, if_true, decodeListSlice, hlist, enter_cached,
        he]
    | cons v vs' =>
      have hlen' := length_le_encodeAll (v :: vs')
      have hP : (Value.encodeAll (v :: vs')).length ≠ 0 := by
        simp only [List.length_cons] at hlen'
        omega
      obtain ⟨t₂, hvs, hc₂⟩ := decodeSliceElems_encode (v :: vs') (f := f) (m := f)
        (s := t₀.enter (Value.encodeAll (v :: vs')).length) (by omega) (by omega) (by omega) rfl
        (fits_enter hfit₀) ⟨⟨0, _⟩, t₀.stack, rfl, by simp⟩
        (show (t₀.enter _).r = Value.encodeAll (v :: vs') ++ rest by simpa [enter] using ht₀r)
      obtain ⟨t₃, he, hc₃⟩ := listEnd_consumed hc₂
      refine ⟨t₃, ?_, hc₀.trans hc₃⟩
      simp only [decodeInterface, hk, andThen_ok, if_true, decodeListSlice, hlist, enter_cached,
        if_neg hP, hvs, he]
theorem decodeSliceElems_encode : ∀ (vs : List Value) {f m : ℕ} {s : Stream} {rest : List UInt8},
    (Value.encodeAll vs).length < 2 ^ 64 → (Value.encodeAll vs).length + 1 ≤ f →
    vs.length + 1 ≤ m → s.ahead = none → s.Fits (Value.encodeAll vs).length →
    (∃ tos up, s.stack = tos :: up ∧ tos.pos + (Value.encodeAll vs).length = tos.size) →
    s.r = Value.encodeAll vs ++ rest →
    ∃ t, decodeSliceElems (decodeInterface f) m s = (.ok vs, t) ∧
      Consumed s (Value.encodeAll vs).length t
  | _, _, 0, _, _, _, _, hm, _, _, _, _ => by omega
  | _, 0, _, _, _, _, hf, _, _, _, _, _ => by omega
  | [], f + 1, m + 1, s, rest, _, _, _, hs, _, ⟨tos, up, hst, hpos⟩, _ => by
    refine ⟨{ s with kinderr := none }, ?_, (Consumed.refl hs).set_kinderr none⟩
    simp only [Value.encodeAll, List.length_nil, Nat.add_zero] at hpos
    simp [decodeSliceElems, decodeInterface_eol hs hst hpos]
  | v :: vs, f, m + 1, s, rest, hlen, hf, hm, hs, hfit, ⟨tos, up, hst, hpos⟩, hr => by
    simp only [Value.encodeAll, List.length_append, List.length_cons] at hlen hf hm hfit hpos hr ⊢
    obtain ⟨t₁, hv, hc₁⟩ := decodeInterface_encode v (f := f) (s := s) (by omega) (by omega) hs
      (hfit.mono (by omega))
      (show s.r = v.encode ++ (Value.encodeAll vs ++ rest) by rw [hr, List.append_assoc])
    have hst₁ : t₁.stack = { tos with pos := tos.pos + v.encode.length } :: up := by
      rw [hc₁.stack, hst]; rfl
    obtain ⟨t₂, hvs, hc₂⟩ := decodeSliceElems_encode vs (f := f) (m := m) (by omega) (by omega)
      (by omega) hc₁.ahead (hc₁.fits hfit) ⟨_, up, hst₁, by dsimp only; omega⟩
      (show t₁.r = Value.encodeAll vs ++ rest by rw [hc₁.r, hr, List.append_assoc, List.drop_left])
    refine ⟨t₂, ?_, hc₁.trans hc₂⟩
    simp only [decodeSliceElems, hv, hvs, andThen_ok]
end

/-! ### Where `EOL` comes from -/

theorem decodeSliceElems_ne_eol {α : Type} (elemdec : Stream → Except RlpError α × Stream) :
    ∀ (m : ℕ) (s : Stream), (decodeSliceElems elemdec m s).1 ≠ .error .eol
  | 0, _ => by simp [decodeSliceElems]
  | m + 1, s => by
    simp only [decodeSliceElems]
    split
    · simp
    · simpa
    · exact andThen_ne_error (decodeSliceElems_ne_eol elemdec m _) fun _ _ => by simp

theorem decodeListSlice_ne_eol {α : Type} {elemdec : Stream → Except RlpError α × Stream}
    {f n : ℕ} {s u : Stream} (h : s.list = (.ok n, u)) :
    (decodeListSlice elemdec f s).1 ≠ .error .eol := by
  simp only [decodeListSlice, h, andThen_ok]
  split_ifs
  · exact andThen_ne_error (listEnd_ne_eol u) fun _ _ => by simp
  · exact andThen_ne_error (decodeSliceElems_ne_eol elemdec f u) fun _ _ =>
      andThen_ne_error (listEnd_ne_eol _) fun _ _ => by simp

/-- `decodeInterface` reports `EOL` only where `Kind` does: at the end of the innermost list,
having read nothing. -/
theorem decodeInterface_eq_eol {f : ℕ} {s t : Stream} (hs : s.ahead = none)
    (h : decodeInterface f s = (.error .eol, t)) : t = { s with kinderr := none } := by
  cases f with
  | zero => simp [decodeInterface] at h
  | succ f =>
    rcases hk : s.kind with ⟨e | ⟨k, n⟩, t₁⟩
    · simp only [decodeInterface, hk, andThen_error, Prod.mk.injEq, Except.error.injEq] at h
      obtain ⟨rfl, rfl⟩ := h
      exact kind_eq_eol hs hk
    · exfalso
      simp only [decodeInterface, hk, andThen_ok] at h
      split_ifs at h with hl
      · subst hl
        exact andThen_ne_error (decodeListSlice_ne_eol (list_eq (kind_kind hk)))
          (fun _ _ => by simp) (congrArg Prod.fst h)
      · exact andThen_ne_error (bytes_ne_eol_of_kind hk) (fun _ _ => by simp)
          (congrArg Prod.fst h)

section Canonical

/-! ### Reading back: what is accepted is an encoding -/

variable {f : ℕ}
  (ih : ∀ {s t : Stream} {v : Value}, decodeInterface f s = (.ok v, t) → s.ahead = none →
    s.r = v.encode ++ t.r ∧ Consumed s v.encode.length t)
include ih

theorem decodeSliceElems_canonical : ∀ (m : ℕ) {s t : Stream} {vs : List Value},
    decodeSliceElems (decodeInterface f) m s = (.ok vs, t) → s.ahead = none →
    s.r = Value.encodeAll vs ++ t.r ∧ Consumed s (Value.encodeAll vs).length t
  | 0, _, _, _, h, _ => by simp [decodeSliceElems] at h
  | m + 1, s, t, vs, h, hs => by
    simp only [decodeSliceElems] at h
    split at h
    · rename_i s₁ he
      obtain ⟨rfl, rfl⟩ : [] = vs ∧ s₁ = t := by simpa using h
      rw [decodeInterface_eq_eol hs he]
      exact ⟨rfl, (Consumed.refl hs).set_kinderr none⟩
    · simp at h
    · rename_i v t₁ hv
      obtain ⟨vs', t₂, hvs, h⟩ := andThen_eq_ok.1 h
      obtain ⟨rfl, rfl⟩ : v :: vs' = vs ∧ t₂ = t := by simpa using h
      obtain ⟨hr₁, hc₁⟩ := ih hv hs
      obtain ⟨hr₂, hc₂⟩ := decodeSliceElems_canonical m hvs hc₁.ahead
      refine ⟨by rw [hr₁, hr₂, Value.encodeAll, List.append_assoc], ?_⟩
      simpa [Value.encodeAll] using hc₁.trans hc₂

theorem decodeListSlice_canonical {m : ℕ} {s t : Stream} {vs : List Value}
    (h : decodeListSlice (decodeInterface f) m s = (.ok vs, t)) (hs : s.ahead = none) :
    s.r = (Value.list vs).encode ++ t.r ∧ Consumed s (Value.list vs).encode.length t := by
  unfold decodeListSlice at h
  obtain ⟨n, u, hl, h⟩ := andThen_eq_ok.1 h
  obtain ⟨t₁, hk, rfl⟩ := list_eq_ok hl
  obtain ⟨t₀, hk₀, -, rfl⟩ := kind_eq_ok_fresh hs hk
  obtain ⟨hd, hr, hc, hh⟩ := readKind_eq_ok hk₀
  have hhd : hd = puthead 0xC0 0xF7 n := hh
  rw [enter_cached] at h
  split_ifs at h with hn0
  · subst hn0
    obtain ⟨_, t', he, h⟩ := andThen_eq_ok.1 h
    obtain ⟨rfl, rfl⟩ : [] = vs ∧ t' = t := by simpa using h
    obtain ⟨-, hc'⟩ := consumed_of_listEnd (Consumed.refl (s := t₀.enter 0) rfl) he
    have ht : t'.r = t₀.r := by rw [hc'.r, List.drop_zero]
    refine ⟨by simp [Value.encode, Value.encodeAll, hr, hhd, ht], ?_⟩
    simpa [Value.encode, Value.encodeAll, hhd] using hc.trans hc'
  · obtain ⟨vs', t₂, hvs, h⟩ := andThen_eq_ok.1 h
    obtain ⟨_, t', he, h⟩ := andThen_eq_ok.1 h
    obtain ⟨rfl, rfl⟩ : vs' = vs ∧ t' = t := by simpa using h
    obtain ⟨hr₂, hc₂⟩ := decodeSliceElems_canonical ih m hvs rfl
    obtain ⟨hlen, hc'⟩ := consumed_of_listEnd hc₂ he
    have ht : t'.r = t₂.r := by
      rw [hc'.r, show t₀.r = (t₀.enter n).r from rfl, hr₂, ← hlen, List.drop_left]
    refine ⟨by rw [Value.encode, hr, hhd, show t₀.r = (t₀.enter n).r from rfl, hr₂, ht, hlen,
      List.append_assoc], ?_⟩
    simpa [Value.encode, hhd, hlen] using hc.trans hc'

end Canonical

theorem decodeInterface_canonical : ∀ (f : ℕ) {s t : Stream} {v : Value},
    decodeInterface f s = (.ok v, t) → s.ahead = none →
    s.r = v.encode ++ t.r ∧ Consumed s v.encode.length t
  | 0, _, _, _, h, _ => by simp [decodeInterface] at h
  | f + 1, s, t, v, h, hs => by
    rcases decodeInterface_succ_eq_ok h with ⟨b, rfl, hb⟩ | ⟨vs, rfl, hl⟩
    · exact bytes_eq_ok hs hb
    · exact decodeListSlice_canonical (decodeInterface_canonical f) hl hs

/-! ### Whole inputs -/

theorem fits_new (b : List UInt8) : (Stream.new b b.length).Fits b.length :=
  ⟨by simp [Stream.new], fun _ => by simp [Stream.new]⟩

theorem decodeBytes_of_consumed {α : Type} {dec : Stream → Except RlpError α × Stream}
    {b : List UInt8} {a : α} {t : Stream} (h : dec (Stream.new b b.length) = (.ok a, t))
    (hc : Consumed (Stream.new b b.length) b.length t) : decodeBytes dec b = .ok a := by
  have ht : t.r = [] := by rw [hc.r]; simp [Stream.new]
  simp [decodeBytes, h, ht]

theorem decodeBytes_eq_ok {α : Type} {dec : Stream → Except RlpError α × Stream}
    {b : List UInt8} {a : α} (h : decodeBytes dec b = .ok a) :
    ∃ t, dec (Stream.new b b.length) = (.ok a, t) ∧ t.r = [] := by
  unfold decodeBytes at h
  rcases hd : dec (Stream.new b b.length) with ⟨e | a', t⟩ <;> simp only [hd, reduceCtorEq] at h
  split_ifs at h with hlen
  obtain rfl : a' = a := by simpa using h
  exact ⟨t, rfl, List.eq_nil_of_length_eq_zero (by omega)⟩

/-- `DecodeBytes` into an `interface{}` reads back `EncodeToBytes` of every value. -/
theorem decodeValue_encodeToBytes (v : Value) (h : v.encode.length < 2 ^ 64) :
    decodeValue (encodeToBytes writeInterface v) = .ok v := by
  rw [encodeToBytes_writeInterface, decodeValue]
  obtain ⟨t, hd, hc⟩ := decodeInterface_encode v (f := v.encode.length + 1)
    (s := Stream.new v.encode v.encode.length) h le_rfl rfl (fits_new _)
    (show (Stream.new _ _).r = v.encode ++ [] by simp [Stream.new])
  exact decodeBytes_of_consumed hd hc

/-- What `DecodeBytes` accepts into an `interface{}` is the encoding of what it returns. -/
theorem encodeToBytes_of_decodeValue {b : List UInt8} {v : Value} (h : decodeValue b = .ok v) :
    encodeToBytes writeInterface v = b := by
  obtain ⟨t, hd, ht⟩ := decodeBytes_eq_ok h
  obtain ⟨hr, -⟩ := decodeInterface_canonical _ hd rfl
  rw [encodeToBytes_writeInterface]
  simpa [Stream.new, ht] using hr.symm

/-! ### Integers and raw values -/
theorem decodeUint_encodeToBytes (n : UInt64) :
    decodeBytes decodeUint (encodeToBytes writeUint n) = .ok n := by
  rw [encodeToBytes_writeUint]
  obtain ⟨t, hu, hc⟩ := uint_strEncoding (s := Stream.new (strEncoding (bigBytes n.toNat))
    (strEncoding (bigBytes n.toNat)).length) rfl n.toNat_lt (fits_new _)
    (show (Stream.new _ _).r = strEncoding (bigBytes n.toNat) ++ [] by simp [Stream.new])
  refine decodeBytes_of_consumed ?_ hc
  simp [decodeUint, hu]

theorem encodeToBytes_of_decodeUint {b : List UInt8} {n : UInt64}
    (h : decodeBytes decodeUint b = .ok n) : encodeToBytes writeUint n = b := by
  obtain ⟨t, hd, ht⟩ := decodeBytes_eq_ok h
  unfold decodeUint at hd
  obtain ⟨v, t', hu, hd⟩ := andThen_eq_ok.1 hd
  obtain ⟨rfl, rfl⟩ : UInt64.ofNat v = n ∧ t' = t := by simpa using hd
  obtain ⟨hlt, hr⟩ := uint_canonical rfl hu
  rw [encodeToBytes_writeUint, UInt64.toNat_ofNat_of_lt' hlt]
  simpa [Stream.new, ht] using hr.symm

theorem decodeBigInt_encode {x : ℤ} (hx : 0 ≤ x) (hb : (bigBytes x.toNat).length < 2 ^ 64) :
    (encodeBigIntToBytes x).bind (decodeBytes decodeBigInt) = .ok x := by
  rw [encodeBigIntToBytes_eq hx]
  obtain ⟨t, hby, hc⟩ := bytes_strEncoding (s := Stream.new (strEncoding (bigBytes x.toNat))
    (strEncoding (bigBytes x.toNat)).length) rfl hb (fits_new _)
    (show (Stream.new _ _).r = strEncoding (bigBytes x.toNat) ++ [] by simp [Stream.new])
  have h0 : (bigBytes x.toNat).head? ≠ some 0 := by
    rw [bigBytes_eq]
    split_ifs with h
    · simp
    · exact putint_head_ne_zero h
  refine decodeBytes_of_consumed ?_ hc
  simp [decodeBigInt, hby, h0, Int.toNat_of_nonneg hx]

theorem encodeBigInt_of_decodeBigInt {b : List UInt8} {x : ℤ}
    (h : decodeBytes decodeBigInt b = .ok x) : encodeBigIntToBytes x = .ok b := by
  obtain ⟨t, hd, ht⟩ := decodeBytes_eq_ok h
  unfold decodeBigInt at hd
  obtain ⟨bs, t', hby, hd⟩ := andThen_eq_ok.1 hd
  split_ifs at hd with h0
  · simp at hd
  obtain ⟨rfl, rfl⟩ : ((beNat bs : ℕ) : ℤ) = x ∧ t' = t := by simpa using hd
  obtain ⟨hr, -⟩ := bytes_eq_ok rfl hby
  rw [encodeBigIntToBytes_eq (by positivity), Int.toNat_natCast, bigBytes_beNat h0]
  simpa [Stream.new, ht] using hr.symm

/-- What `DecodeBytes` accepts into a `RawValue` is returned as it is. -/
theorem encodeToBytes_of_decodeRawValue {b r : List UInt8} (h : decodeBytes decodeRawValue b = .ok r) :
    encodeToBytes writeRawValue r = b := by
  obtain ⟨t, hd, ht⟩ := decodeBytes_eq_ok h
  have := raw_canonical rfl hd
  rw [encodeToBytes, writeRawValue, toBytes_append_empty]
  simpa [Stream.new, ht] using this.symm

/-! ### What `DecodeBytes` makes of `EncodeToBytes` -/

/-- `DecodeBytes` reads back `EncodeToBytes` of every value of the grammar, every `uint64` and
every non-negative `*big.Int`.  The bounds say that the encoding, and the bytes of the number, are
shorter than `2^64`, as every Go slice is: `readKind` reads a size of at most eight bytes. -/
theorem decodeBytes_encodeToBytes :
    (∀ v : Value, v.encode.length < 2 ^ 64 →
      decodeValue (encodeToBytes writeInterface v) = .ok v) ∧
    (∀ n : UInt64, decodeBytes decodeUint (encodeToBytes writeUint n) = .ok n) ∧
    (∀ x : ℤ, 0 ≤ x → (bigBytes x.toNat).length < 2 ^ 64 →
      (encodeBigIntToBytes x).bind (decodeBytes decodeBigInt) = .ok x) :=
  ⟨decodeValue_encodeToBytes, decodeUint_encodeToBytes, fun _ hx hb => decodeBigInt_encode hx hb⟩

theorem decodeBytes_encodeToBytes_sample :
    decodeValue (encodeToBytes writeInterface (.list [.str [1, 2], .list []])) =
        .ok (.list [.str [1, 2], .list []]) ∧
      (encodeBigIntToBytes 1000).bind (decodeBytes decodeBigInt) = .ok 1000 :=
  ⟨decodeBytes_encodeToBytes.1 _ (by decide),
    decodeBytes_encodeToBytes.2.2 1000 (by decide) (by decide)⟩

/-- Whatever `DecodeBytes` accepts into an `interface{}`, a `RawValue`, a `uint64` or a
`*big.Int`, `EncodeToBytes` of the result gives the input back. -/
theorem decodeBytes_canonical (b : List UInt8) :
    (∀ v, decodeValue b = .ok v → encodeToBytes writeInterface v = b) ∧
    (∀ r, decodeBytes decodeRawValue b = .ok r → encodeToBytes writeRawValue r = b) ∧
    (∀ n, decodeBytes decodeUint b = .ok n → encodeToBytes writeUint n = b) ∧
    (∀ x, decodeBytes decodeBigInt b = .ok x → encodeBigIntToBytes x = .ok b) :=
  ⟨fun _ => encodeToBytes_of_decodeValue, fun _ => encodeToBytes_of_decodeRawValue,
    fun _ => encodeToBytes_of_decodeUint, fun _ => encodeBigInt_of_decodeBigInt⟩

theorem decodeBytes_canonical_sample :
    decodeValue [0xC3, 0x82, 0x01, 0x02] = .ok (.list [.str [1, 2]]) ∧
      encodeToBytes writeInterface (.list [.str [1, 2]]) = [0xC3, 0x82, 0x01, 0x02] :=
  have h : decodeValue [0xC3, 0x82, 0x01, 0x02] = .ok (.list [.str [1, 2]]) := rfl
  ⟨h, (decodeBytes_canonical _).1 _ h⟩

/-- `Raw` checks the header only: a `RawValue` takes the byte 5 in string form, which the other
decoders refuse, as well as the byte itself. -/
theorem decodeRawValue_accepts_noncanonical :
    decodeBytes decodeRawValue [0x81, 0x05] = .ok [0x81, 0x05] ∧
      decodeValue [0x81, 0x05] = .error .canonSize ∧
      decodeBytes decodeRawValue [0x05] = .ok [0x05] :=
  ⟨rfl, rfl, rfl⟩

end GoXdn.Rlp
