import Mathlib
import GoXdn.Proofs.RlpEncode

/-!
# Reading the stream

Each read of the `Stream` is described by how many bytes it takes: `Fits s n` says `n` more
bytes fit in the innermost list and under the input limit, and `Consumed s n t` that `t` is `s`
with `n` bytes read and accounted to both.  A header `puthead` writes is read back as its size
(`readKind_puthead`), and what `readKind` accepts is the header `puthead` writes for the size it
returns (`readKind_eq_ok`): sizes have one encoding each, as `readUint` refuses a leading zero
and `readKind` a long form below 56.  On these, `Bytes` and `uint` read back a string's
encoding and accept nothing else (`bytes_strEncoding`, `bytes_eq_ok`, `uint_strEncoding`,
`uint_canonical`), `List` and `ListEnd` open and close a list around reads that fill it
exactly, and `Raw` returns the bytes it reads (`raw_canonical`).
-/

namespace GoXdn.Rlp

open GoStd

/-- The header tags of a string or a list: `puthead`'s `smalltag` and `largetag`. -/
def Kind.tags : Kind → UInt8 × UInt8
  | .list => (0xC0, 0xF7)
  | _ => (0x80, 0xB7)

/-- What a header read says about the bytes it took. -/
def Header : Kind → ℕ → List UInt8 → UInt8 → Prop
  | .byte, n, hd, b => n = 0 ∧ hd = [b] ∧ b < 0x80
  | k, n, hd, _ => hd = puthead k.tags.1 k.tags.2 n

@[simp]
theorem andThen_ok {α β : Type} (a : α) (s : Stream) (k : α → Stream → Except RlpError β × Stream) :
    andThen (.ok a, s) k = k a s :=
  rfl

@[simp]
theorem andThen_error {α β : Type} (e : RlpError) (s : Stream)
    (k : α → Stream → Except RlpError β × Stream) : andThen (.error e, s) k = (.error e, s) :=
  rfl

/-- A run of calls that ends well: each call on the way ended well. -/
theorem andThen_eq_ok {α β : Type} {r : Except RlpError α × Stream}
    {k : α → Stream → Except RlpError β × Stream} {b : β} {t : Stream} :
    andThen r k = (.ok b, t) ↔ ∃ a s, r = (.ok a, s) ∧ k a s = (.ok b, t) := by
  rcases r with ⟨_ | a, s⟩ <;> simp

/-- A run of calls fails with `e` only where one of its calls does. -/
theorem andThen_ne_error {α β : Type} {r : Except RlpError α × Stream}
    {k : α → Stream → Except RlpError β × Stream} {e : RlpError} (h₁ : r.1 ≠ .error e)
    (h₂ : ∀ a s, (k a s).1 ≠ .error e) : (andThen r k).1 ≠ .error e := by
  rcases r with ⟨_ | a, s⟩
  · simpa using h₁
  · exact h₂ a s

namespace Stream

/-- `n` more bytes fit in the innermost list and, when the stream is limited, under the limit. -/
def Fits (s : Stream) (n : ℕ) : Prop :=
  (∀ tos ∈ s.stack.head?, n ≤ tos.size - tos.pos) ∧ (s.limited = true → n ≤ s.remaining)

/-- The bookkeeping of `willRead s n`: the bytes counted, the reader itself not yet moved. -/
def skip (s : Stream) (n : ℕ) : Stream :=
  { s with ahead := none, stack := ListPos.advance s.stack n,
           remaining := (if s.limited then s.remaining - n else s.remaining) }

theorem Fits.mono {s : Stream} {m n : ℕ} (h : s.Fits n) (hm : m ≤ n) : s.Fits m :=
  ⟨fun tos htos => le_trans hm (h.1 tos htos), fun hl => le_trans hm (h.2 hl)⟩

@[simp]
theorem r_skip (s : Stream) (n : ℕ) : (s.skip n).r = s.r := rfl

@[simp]
theorem ahead_skip (s : Stream) (n : ℕ) : (s.skip n).ahead = none := rfl

/-- `t` is `s` with `n` bytes read: taken from the reader, counted in the innermost list and
under the limit, and no header cached. -/
structure Consumed (s : Stream) (n : ℕ) (t : Stream) : Prop where
  r : t.r = s.r.drop n
  ahead : t.ahead = none
  stack : t.stack = ListPos.advance s.stack n
  limited : t.limited = s.limited
  remaining : t.remaining = if s.limited then s.remaining - n else s.remaining

theorem willRead_eq_ok_iff {s t : Stream} {n : ℕ} :
    s.willRead n = (.ok (), t) ↔ s.Fits n ∧ t = s.skip n := by
  rcases s with ⟨r, remaining, limited, ahead, size, byteval, kinderr, stack⟩
  cases stack with
  | nil =>
    cases limited <;> by_cases h : remaining < n <;>
      simp [willRead, Fits, skip, ListPos.advance, h, eq_comm]
    omega
  | cons tos up =>
    by_cases h₁ : tos.size - tos.pos < n <;> cases limited <;> by_cases h₂ : remaining < n <;>
      simp [willRead, Fits, skip, ListPos.advance, h₁, h₂, eq_comm] <;> omega

theorem willRead_of_fits {s : Stream} {n : ℕ} (h : s.Fits n) : s.willRead n = (.ok (), s.skip n) :=
  willRead_eq_ok_iff.2 ⟨h, rfl⟩

theorem readByte_eq_ok_iff {s t : Stream} {b : UInt8} :
    s.readByte = (.ok b, t) ↔
      s.Fits 1 ∧ ∃ r, s.r = b :: r ∧ t = { s.skip 1 with r := r } := by
  unfold readByte
  rw [andThen_eq_ok]
  constructor
  · rintro ⟨_, s₁, hw, hr⟩
    obtain ⟨hfit, rfl⟩ := willRead_eq_ok_iff.1 hw
    rcases hsr : s.r with _ | ⟨x, r⟩ <;> simp [hsr] at hr
    obtain ⟨rfl, rfl⟩ := hr
    exact ⟨hfit, r, rfl, rfl⟩
  · rintro ⟨hfit, r, hsr, rfl⟩
    exact ⟨(), s.skip 1, willRead_of_fits hfit, by simp [hsr]⟩

theorem readFull_eq_ok_iff {s t : Stream} {n : ℕ} {bs : List UInt8} :
    s.readFull n = (.ok bs, t) ↔
      s.Fits n ∧ n ≤ s.r.length ∧ bs = s.r.take n ∧ t = { s.skip n with r := s.r.drop n } := by
  unfold readFull
  rw [andThen_eq_ok]
  constructor
  · rintro ⟨_, s₁, hw, hr⟩
    obtain ⟨hfit, rfl⟩ := willRead_eq_ok_iff.1 hw
    by_cases hn : s.r.length < n <;> simp [hn] at hr
    obtain ⟨rfl, rfl⟩ := hr
    exact ⟨hfit, by omega, rfl, rfl⟩
  · rintro ⟨hfit, hlen, rfl, rfl⟩
    exact ⟨(), s.skip n, willRead_of_fits hfit, by simp [show ¬ s.r.length < n by omega]⟩

@[simp]
theorem advance_zero (st : List ListPos) : ListPos.advance st 0 = st := by
  cases st <;> simp [ListPos.advance]

theorem advance_advance (st : List ListPos) (a b : ℕ) :
    ListPos.advance (ListPos.advance st a) b = ListPos.advance st (a + b) := by
  cases st <;> simp [ListPos.advance, Nat.add_assoc]

namespace Consumed

theorem zero (s : Stream) : Consumed s 0 { s with ahead := none } :=
  ⟨by simp, rfl, by simp, rfl, by split <;> simp⟩

theorem refl {s : Stream} (h : s.ahead = none) : Consumed s 0 s :=
  ⟨by simp, h, by simp, rfl, by split <;> simp⟩

theorem skip (s : Stream) (n : ℕ) : Consumed s n { s.skip n with r := s.r.drop n } :=
  ⟨rfl, rfl, rfl, rfl, rfl⟩

/-- `Consumed` does not look at the error `Kind` keeps. -/
theorem set_kinderr {s t : Stream} {n : ℕ} (h : Consumed s n t) (e : Option RlpError) :
    Consumed s n { t with kinderr := e } :=
  ⟨h.r, h.ahead, h.stack, h.limited, h.remaining⟩

theorem trans {s t u : Stream} {a b : ℕ} (h₁ : Consumed s a t) (h₂ : Consumed t b u) :
    Consumed s (a + b) u where
  r := by rw [h₂.r, h₁.r, List.drop_drop]
  ahead := h₂.ahead
  stack := by rw [h₂.stack, h₁.stack, advance_advance]
  limited := by rw [h₂.limited, h₁.limited]
  remaining := by
    rw [h₂.remaining, h₁.remaining, h₁.limited]
    split <;> omega

/-- Room left: what fits before reading `a` bytes, less those bytes, fits after. -/
theorem fits {s t : Stream} {a b : ℕ} (h : Consumed s a t) (hf : s.Fits (a + b)) : t.Fits b := by
  obtain ⟨hl, hr⟩ := hf
  refine ⟨fun tos htos => ?_, fun hlim => ?_⟩
  · rw [h.stack] at htos
    cases hst : s.stack with
    | nil => simp [hst, ListPos.advance] at htos
    | cons tos' up =>
      simp only [hst, ListPos.advance, List.head?_cons, Option.mem_some_iff] at htos
      have := hl tos' (by simp [hst])
      subst htos
      dsimp only
      omega
  · rw [h.limited] at hlim
    rw [h.remaining, if_pos hlim]
    have := hr hlim
    omega

/-- `Consumed` looks at its source's input, lists and limit only, not at a cached header. -/
theorem cached {t u : Stream} {a : Option Kind} {n m : ℕ} {e : Option RlpError}
    (h : Consumed { t with ahead := a, size := n, kinderr := e } m u) : Consumed t m u :=
  ⟨h.r, h.ahead, h.stack, h.limited, h.remaining⟩

end Consumed

theorem readUint_eq_ok {s t : Stream} {k v : ℕ} (h : s.readUint k = (.ok v, t)) :
    ∃ bs, s.r = bs ++ t.r ∧ Consumed s k t ∧ bs.length = k ∧ v = beNat bs ∧
      (2 ≤ k → bs.head? ≠ some 0) := by
  match k, h with
  | 0, h =>
    simp only [readUint, Prod.mk.injEq, Except.ok.injEq] at h
    obtain ⟨rfl, rfl⟩ := h
    exact ⟨[], rfl, Consumed.zero s, rfl, rfl, by omega⟩
  | 1, h =>
    unfold readUint at h
    obtain ⟨b, s₁, hb, h⟩ := andThen_eq_ok.1 h
    simp only [Prod.mk.injEq, Except.ok.injEq] at h
    obtain ⟨rfl, rfl⟩ := h
    obtain ⟨-, r, hr, rfl⟩ := readByte_eq_ok_iff.1 hb
    refine ⟨[b], by simp [hr], ?_, rfl, by simp [beNat], by omega⟩
    simpa [hr] using Consumed.skip s 1
  | k + 2, h =>
    unfold readUint at h
    obtain ⟨bs, s₁, hbs, h⟩ := andThen_eq_ok.1 h
    obtain ⟨-, hlen, rfl, rfl⟩ := readFull_eq_ok_iff.1 hbs
    by_cases h0 : (s.r.take (k + 2)).head? = some 0 <;>
      simp only [h0, if_true, if_false, reduceCtorEq, Prod.mk.injEq, Except.ok.injEq,
        false_and] at h
    obtain ⟨rfl, rfl⟩ := h
    exact ⟨s.r.take (k + 2), by simp, Consumed.skip s _, by simp; omega, rfl, fun _ => h0⟩

theorem readUint_putint {s : Stream} {n : ℕ} {rest : List UInt8} (hn : n ≠ 0)
    (hfit : s.Fits (intsize n)) (hr : s.r = putint n ++ rest) :
    ∃ t, s.readUint (intsize n) = (.ok n, t) ∧ Consumed s (intsize n) t := by
  obtain ⟨k, hk⟩ : ∃ k, intsize n = k + 1 := ⟨Nat.log 256 n, intsize_eq_log n⟩
  rw [hk] at hfit ⊢
  rcases k with _ | k
  · have hlt : n < 256 := by simpa [hk] using lt_pow_intsize n
    have hput : putint n = [UInt8.ofNat n] := by rw [putint_eq, if_pos hlt, List.nil_append]
    have hb : s.readByte = (.ok (UInt8.ofNat n), { s.skip 1 with r := rest }) :=
      readByte_eq_ok_iff.2 ⟨hfit, rest, by rw [hr, hput]; rfl, rfl⟩
    refine ⟨{ s.skip 1 with r := rest }, by simp only [readUint, hb, andThen_ok,
      UInt8.toNat_ofNat', Nat.mod_eq_of_lt hlt], ?_⟩
    simpa [hr, hput] using Consumed.skip s 1
  · have hlen : (putint n).length = k + 2 := by rw [length_putint, hk]
    have hbs : s.readFull (k + 2) = (.ok (putint n), { s.skip (k + 2) with r := rest }) := by
      refine readFull_eq_ok_iff.2 ⟨hfit, by rw [hr]; simp [hlen], ?_, ?_⟩
      · rw [hr, ← hlen, List.take_left]
      · rw [hr, ← hlen, List.drop_left]
    refine ⟨{ s.skip (k + 2) with r := rest }, by simp only [readUint, hbs, andThen_ok,
      if_neg (putint_head_ne_zero hn), beNat_putint], ?_⟩
    simpa [hr, hlen] using Consumed.skip s (k + 2)


theorem tag_add_sub (tag b : UInt8) : tag + UInt8.ofNat (b - tag).toNat = b := by
  rw [UInt8.ofNat_toNat]
  exact add_sub_cancel tag b

theorem toNat_sub_tag {b tag : UInt8} (h : tag.toNat ≤ b.toNat) :
    (b - tag).toNat = b.toNat - tag.toNat :=
  UInt8.toNat_sub_of_le _ _ (UInt8.le_iff_toNat_le.2 h)

theorem short_header {b tag : UInt8} (h56 : (b - tag).toNat < 56) (large : UInt8) :
    [b] = puthead tag large (b - tag).toNat := by
  rw [puthead, if_pos h56, tag_add_sub]

/-- A long-form header read back: the size bytes are the `putint` of the size. -/
theorem long_header {b tag : UInt8} {bs : List UInt8} (htag : tag < b)
    (hlen : bs.length = (b - tag).toNat) (h56 : 56 ≤ beNat bs) (h0 : 2 ≤ bs.length → bs.head? ≠ some 0)
    (small : UInt8) : b :: bs = puthead small tag (beNat bs) := by
  have hpos : 0 < bs.length := by
    rw [hlen, UInt8.toNat_sub_of_le _ _ (UInt8.le_of_lt htag)]
    have := UInt8.lt_iff_toNat_lt.1 htag
    omega
  have hhead : bs.head? ≠ some 0 := by
    rcases Nat.lt_or_ge bs.length 2 with h1 | h2
    · obtain ⟨x, rfl⟩ : ∃ x, bs = [x] := List.length_eq_one_iff.1 (by omega)
      rintro h
      simp only [List.head?_cons, Option.some.injEq] at h
      subst h
      simp [beNat] at h56
    · exact h0 h2
  have hput : putint (beNat bs) = bs := putint_beNat (List.ne_nil_of_length_pos hpos) hhead
  have hsize : intsize (beNat bs) = (b - tag).toNat := by rw [← length_putint, hput, hlen]
  rw [puthead, if_neg (by omega), hsize, tag_add_sub, hput]

theorem readKind_long {s t : Stream} {b tag : UInt8} {size : ℕ} (htag : tag < b)
    (hu : s.readUint (b - tag).toNat = (.ok size, t)) (h56 : ¬ size < 56) (small : UInt8) :
    ∃ bs, s.r = bs ++ t.r ∧ Consumed s bs.length t ∧ b :: bs = puthead small tag size := by
  obtain ⟨bs, hr, hc, hlen, rfl, h0⟩ := readUint_eq_ok hu
  refine ⟨bs, hr, by rwa [hlen], long_header htag hlen (by omega) (fun h => h0 (by omega)) small⟩

theorem readKind_eq_ok {s t : Stream} {k : Kind} {n : ℕ} (h : s.readKind = ((k, n, none), t)) :
    ∃ hd, s.r = hd ++ t.r ∧ Consumed s hd.length t ∧ Header k n hd t.byteval := by
  unfold readKind at h
  rcases hb : s.readByte with ⟨e | b, s₁⟩ <;> rw [hb] at h
  · simp at h
  obtain ⟨-, r, hr, rfl⟩ := readByte_eq_ok_iff.1 hb
  have hc₁ : Consumed s 1 { s.skip 1 with r := r, byteval := 0 } :=
    ⟨by simp [hr], rfl, rfl, rfl, rfl⟩
  simp only [UInt8.lt_iff_toNat_lt, UInt8.toNat_ofNat, Nat.reducePow, Nat.reduceMod] at h
  split_ifs at h with h₁ h₂ h₃ h₄
  · obtain ⟨⟨rfl, rfl⟩, rfl⟩ : (Kind.byte = k ∧ 0 = n) ∧ _ = t := by simpa using h
    exact ⟨[b], by simp [hr], ⟨by simp [hr], rfl, rfl, rfl, rfl⟩, rfl, rfl, h₁⟩
  · obtain ⟨⟨rfl, rfl⟩, rfl⟩ : (Kind.string = k ∧ (b - 0x80).toNat = n) ∧ _ = t := by simpa using h
    refine ⟨[b], by simp [hr], hc₁, ?_⟩
    show [b] = puthead 0x80 0xB7 (b - 0x80).toNat
    refine short_header ?_ _
    rw [toNat_sub_tag (by simp only [UInt8.toNat_ofNat, Nat.reducePow, Nat.reduceMod]; omega)]
    simp only [UInt8.toNat_ofNat, Nat.reducePow, Nat.reduceMod]
    omega
  · rcases hu : readUint { s.skip 1 with r := r, byteval := 0 } (b - 0xB7).toNat with
      ⟨e | size, t'⟩ <;> simp only [hu] at h
    · simp at h
    split_ifs at h with h56
    · simp at h
    obtain ⟨⟨rfl, rfl⟩, rfl⟩ : (Kind.string = k ∧ size = n) ∧ t' = t := by simpa using h
    obtain ⟨bs, hr', hc₂, hhd⟩ :=
      readKind_long (by simp only [UInt8.lt_iff_toNat_lt, UInt8.toNat_ofNat]; omega) hu h56 0x80
    refine ⟨b :: bs, by simp [hr, ← hr'], ?_, hhd⟩
    simpa [Nat.add_comm] using hc₁.trans hc₂
  · obtain ⟨⟨rfl, rfl⟩, rfl⟩ : (Kind.list = k ∧ (b - 0xC0).toNat = n) ∧ _ = t := by simpa using h
    refine ⟨[b], by simp [hr], hc₁, ?_⟩
    show [b] = puthead 0xC0 0xF7 (b - 0xC0).toNat
    refine short_header ?_ _
    rw [toNat_sub_tag (by simp only [UInt8.toNat_ofNat, Nat.reducePow, Nat.reduceMod]; omega)]
    simp only [UInt8.toNat_ofNat, Nat.reducePow, Nat.reduceMod]
    omega
  · rcases hu : readUint { s.skip 1 with r := r, byteval := 0 } (b - 0xF7).toNat with
      ⟨e | size, t'⟩ <;> simp only [hu] at h
    · simp at h
    split_ifs at h with h56
    · simp at h
    obtain ⟨⟨rfl, rfl⟩, rfl⟩ : (Kind.list = k ∧ size = n) ∧ t' = t := by simpa using h
    obtain ⟨bs, hr', hc₂, hhd⟩ :=
      readKind_long (by simp only [UInt8.lt_iff_toNat_lt, UInt8.toNat_ofNat]; omega) hu h56 0xC0
    refine ⟨b :: bs, by simp [hr, ← hr'], ?_, hhd⟩
    simpa [Nat.add_comm] using hc₁.trans hc₂


/-- A header `readKind` reads back: the size below 56 in the tag, or in as few bytes as it needs
(no more than eight), after the tag. -/
theorem readKind_puthead {s : Stream} {k : Kind} (hk : k ≠ .byte) {n : ℕ} {rest : List UInt8}
    (hn : n < 2 ^ 64) (hfit : s.Fits (headsize n))
    (hr : s.r = puthead k.tags.1 k.tags.2 n ++ rest) :
    ∃ t, s.readKind = ((k, n, none), t) ∧ Consumed s (headsize n) t := by
  have htags : (k.tags.1.toNat = 128 ∧ k.tags.2.toNat = 183) ∨
      (k.tags.1.toNat = 192 ∧ k.tags.2.toNat = 247) := by
    cases k <;> simp [Kind.tags] at hk ⊢
  by_cases h56 : n < 56
  · have hb : (k.tags.1 + UInt8.ofNat n : UInt8).toNat = k.tags.1.toNat + n :=
      toNat_tag (by omega)
    have hhs : headsize n = 1 := by simp [headsize, h56]
    rw [hhs] at hfit ⊢
    have hrb : s.readByte = (.ok (k.tags.1 + UInt8.ofNat n), { s.skip 1 with r := rest }) :=
      readByte_eq_ok_iff.2 ⟨hfit, rest, by rw [hr, puthead, if_pos h56]; rfl, rfl⟩
    refine ⟨{ s.skip 1 with r := rest, byteval := 0 }, ?_,
      ⟨by simp [hr, puthead, h56], rfl, rfl, rfl, rfl⟩⟩
    have hsub : (k.tags.1 + UInt8.ofNat n - k.tags.1 : UInt8).toNat = n := by
      rw [toNat_sub_tag (by omega), hb]
      omega
    cases k
    · exact absurd rfl hk
    all_goals
      simp only [Kind.tags] at hb hsub hrb
      simp only [readKind, hrb, UInt8.lt_iff_toNat_lt, hb, hsub, UInt8.reduceToNat]
      split_ifs <;> first | rfl | omega
  · have hn0 : n ≠ 0 := by omega
    have hm : intsize n ≤ 8 := intsize_le_eight hn
    have hm1 : 1 ≤ intsize n := by rw [intsize_eq_log]; omega
    have hb : (k.tags.2 + UInt8.ofNat (intsize n) : UInt8).toNat = k.tags.2.toNat + intsize n :=
      toNat_tag (by omega)
    have hhs : headsize n = 1 + intsize n := by simp [headsize, h56]
    rw [hhs] at hfit ⊢
    have hrb : s.readByte =
        (.ok (k.tags.2 + UInt8.ofNat (intsize n)), { s.skip 1 with r := putint n ++ rest }) :=
      readByte_eq_ok_iff.2 ⟨hfit.mono (by omega), _, by rw [hr, puthead, if_neg h56]; rfl, rfl⟩
    have hc₁ : Consumed s 1 { s.skip 1 with r := putint n ++ rest, byteval := 0 } :=
      ⟨by simp [hr, puthead, h56], rfl, rfl, rfl, rfl⟩
    obtain ⟨t, hu, hc₂⟩ := readUint_putint hn0 (hc₁.fits hfit) rfl
    refine ⟨t, ?_, hc₁.trans hc₂⟩
    have hsub : (k.tags.2 + UInt8.ofNat (intsize n) - k.tags.2 : UInt8).toNat = intsize n := by
      rw [toNat_sub_tag (by omega), hb]
      omega
    cases k
    · exact absurd rfl hk
    all_goals
      simp only [Kind.tags] at hb hsub hrb hu
      simp only [readKind, hrb, UInt8.lt_iff_toNat_lt, hb, hsub, UInt8.reduceToNat]
      split_ifs <;> first | omega | (rw [hu]; simp [h56])


theorem readKind_byte {s : Stream} {x : UInt8} {rest : List UInt8} (hfit : s.Fits 1)
    (hr : s.r = x :: rest) (hx : x < 0x80) :
    s.readKind = ((.byte, 0, none), { s.skip 1 with r := rest, byteval := x }) := by
  have hrb : s.readByte = (.ok x, { s.skip 1 with r := rest }) :=
    readByte_eq_ok_iff.2 ⟨hfit, rest, hr, rfl⟩
  simp [readKind, hrb, hx]


/-! ### `Kind` -/

theorem kind_cached {s : Stream} {k : Kind} (h : s.ahead = some k) : s.kind = (s.answer k, s) := by
  simp [kind, h]

theorem answer_eq_ok {s : Stream} {k k' : Kind} {n : ℕ} :
    s.answer k = .ok (k', n) ↔ s.kinderr = none ∧ k = k' ∧ s.size = n := by
  unfold answer
  split <;> simp_all

/-- A header `Kind` answers without error is left cached, with no error beside it. -/
theorem kind_eq_ok {s t : Stream} {k : Kind} {n : ℕ} (h : s.kind = (.ok (k, n), t)) :
    t.ahead = some k ∧ t.kinderr = none ∧ t.size = n := by
  unfold kind at h
  split at h
  · rename_i k' hk'
    obtain ⟨ha, rfl⟩ := Prod.mk.inj h
    obtain ⟨he, rfl, hn⟩ := answer_eq_ok.1 ha
    exact ⟨hk', he, hn⟩
  · split_ifs at h
    · simp at h
    rcases hk : s.readKind with ⟨⟨k', n', err⟩, t'⟩
    rw [hk] at h
    obtain ⟨ha, rfl⟩ := Prod.mk.inj h
    obtain ⟨he, rfl, hn⟩ := answer_eq_ok.1 ha
    exact ⟨rfl, he, hn⟩

/-- `Kind` leaves its answer cached. -/
theorem kind_kind {s t : Stream} {k : Kind} {n : ℕ} (h : s.kind = (.ok (k, n), t)) :
    t.kind = (.ok (k, n), t) := by
  obtain ⟨ha, he, hn⟩ := kind_eq_ok h
  rw [kind_cached ha, answer_eq_ok.2 ⟨he, rfl, hn⟩]

/-- A header that fits where it is read comes out of `Kind` as `readKind` reads it. -/
theorem kind_of_readKind {s t : Stream} {k : Kind} {n hd : ℕ} (hs : s.ahead = none)
    (hfit : s.Fits (hd + n)) (hpos : 0 < hd) (hk : s.readKind = ((k, n, none), t))
    (hc : Consumed s hd t) :
    s.kind = (.ok (k, n), { t with ahead := some k, size := n, kinderr := none }) := by
  obtain ⟨hl, hlim⟩ := hfit
  have heol : s.stack.head?.any (fun tos => tos.pos == tos.size) = false := by
    cases hst : s.stack with
    | nil => rfl
    | cons tos up =>
      have := hl tos (by simp [hst])
      simp only [List.head?_cons, Option.any_some, beq_eq_false_iff_ne]
      omega
  have hsize : t.sizeError n = none := by
    unfold sizeError
    cases hst : s.stack with
    | nil =>
      have hst' : t.stack = [] := by rw [hc.stack, hst]; rfl
      have : ¬ (t.limited = true ∧ t.remaining < n) := by
        rintro ⟨hl', hr'⟩
        rw [hc.remaining, hc.limited] at *
        rw [if_pos hl'] at hr'
        have := hlim hl'
        omega
      simp [hst', this]
    | cons tos up =>
      have hst' : t.stack = { tos with pos := tos.pos + hd } :: up := by rw [hc.stack, hst]; rfl
      have := hl tos (by simp [hst])
      simp only [hst']
      rw [if_neg (by omega)]
  simp [kind, hs, heol, hk, hsize, answer]

theorem kind_eq_ok_fresh {s t : Stream} {k : Kind} {n : ℕ} (hs : s.ahead = none)
    (h : s.kind = (.ok (k, n), t)) :
    ∃ t', s.readKind = ((k, n, none), t') ∧ t'.sizeError n = none ∧
      t = { t' with ahead := some k, size := n, kinderr := none } := by
  simp only [kind, hs] at h
  split_ifs at h
  · simp at h
  rcases hk : s.readKind with ⟨⟨k', n', err⟩, t'⟩
  rw [hk] at h
  obtain ⟨ha, rfl⟩ := Prod.mk.inj h
  obtain ⟨he, rfl, rfl⟩ := answer_eq_ok.1 ha
  obtain ⟨rfl, hsz⟩ : err = none ∧ t'.sizeError n' = none := by
    cases err <;> simp_all
  exact ⟨t', rfl, hsz, by simp [hsz]⟩

theorem bytes_of_kind {s t : Stream} {k : Kind} {n : ℕ} (h : s.kind = (.ok (k, n), t)) :
    t.bytes = s.bytes := by
  unfold bytes
  rw [h, kind_kind h]

theorem list_of_kind {s t : Stream} {k : Kind} {n : ℕ} (h : s.kind = (.ok (k, n), t)) :
    t.list = s.list := by
  unfold list
  rw [h, kind_kind h]


/-! ### Strings -/

theorem bytes_strEncoding {s : Stream} {b rest : List UInt8} (hs : s.ahead = none)
    (hb : b.length < 2 ^ 64) (hfit : s.Fits (strEncoding b).length)
    (hr : s.r = strEncoding b ++ rest) :
    ∃ t, s.bytes = (.ok b, t) ∧ Consumed s (strEncoding b).length t := by
  rw [strEncoding_eq] at hfit hr ⊢
  split_ifs at hfit hr ⊢ with hsingle
  · obtain ⟨x, rfl⟩ := List.length_eq_one_iff.1 hsingle.1
    have hx : x < 0x80 := by
      have := hsingle.2
      simp only [List.headD_cons, UInt8.le_iff_toNat_le] at this
      exact UInt8.lt_iff_toNat_lt.2 (by simp only [UInt8.reduceToNat] at this ⊢; omega)
    have hfit' : s.Fits (1 + 0) := hfit
    have hk := kind_of_readKind hs hfit' Nat.one_pos (readKind_byte hfit hr hx)
      ⟨by simp [hr], rfl, rfl, rfl, rfl⟩
    refine ⟨{ s.skip 1 with r := rest, byteval := x, size := 0, kinderr := none }, ?_,
      ⟨by simp [hr], rfl, rfl, rfl, rfl⟩⟩
    simp [bytes, hk]
  · simp only [List.length_append, length_puthead] at hfit ⊢
    obtain ⟨t₀, hk₀, hc₀⟩ := readKind_puthead (k := .string) (by decide) hb
      (hfit.mono (by omega)) (by rw [hr, List.append_assoc]; rfl)
    have hpos : 0 < headsize b.length := by unfold headsize; split <;> omega
    have hk := kind_of_readKind hs hfit hpos hk₀ hc₀
    have ht₀r : t₀.r = b ++ rest := by
      rw [hc₀.r, hr, List.append_assoc, ← length_puthead 0x80 0xB7, List.drop_left]
    have hfull : readFull { t₀ with ahead := some .string, size := b.length, kinderr := none }
        b.length = (.ok b, { ({ t₀ with ahead := some .string, size := b.length, kinderr := none } :
          Stream).skip b.length with r := rest }) :=
      readFull_eq_ok_iff.2 ⟨hc₀.fits hfit, by simp [ht₀r], by simp [ht₀r], by simp [ht₀r]⟩
    have hcanon : ¬ (b.length = 1 ∧ b.headD 0 < 128) := by
      rintro ⟨h1, h2⟩
      refine hsingle ⟨h1, ?_⟩
      rw [UInt8.le_iff_toNat_le]
      rw [UInt8.lt_iff_toNat_lt] at h2
      simp only [UInt8.reduceToNat] at h2 ⊢
      omega
    refine ⟨_, by simp only [bytes, hk, andThen_ok, hfull, hcanon, if_false]; rfl, ?_⟩
    exact hc₀.trans ⟨by simp [ht₀r], rfl, rfl, rfl, rfl⟩

theorem bytes_eq_ok {s t : Stream} {b : List UInt8} (hs : s.ahead = none)
    (h : s.bytes = (.ok b, t)) : s.r = strEncoding b ++ t.r ∧ Consumed s (strEncoding b).length t := by
  rcases hk : s.kind with ⟨e | ⟨k, n⟩, t₁⟩
  · simp [bytes, hk] at h
  obtain ⟨t₀, hk₀, -, rfl⟩ := kind_eq_ok_fresh hs hk
  obtain ⟨hd, hr, hc, hh⟩ := readKind_eq_ok hk₀
  simp only [bytes, hk, andThen_ok] at h
  cases k with
  | byte =>
    obtain ⟨rfl, rfl, hx⟩ := hh
    obtain ⟨rfl, rfl⟩ : [t₀.byteval] = b ∧ _ = t := by simpa using h
    have hx' : t₀.byteval ≤ 0x7F := by
      rw [UInt8.le_iff_toNat_le]
      rw [UInt8.lt_iff_toNat_lt] at hx
      simp only [UInt8.reduceToNat] at hx ⊢
      omega
    simp only [strEncoding, hx', if_true]
    exact ⟨hr, ⟨hc.r, rfl, hc.stack, hc.limited, hc.remaining⟩⟩
  | string =>
    rcases hf : readFull { t₀ with ahead := some .string, size := n, kinderr := none } n with
      ⟨e | b', t₂⟩ <;> simp only [hf, andThen_error, andThen_ok, Prod.mk.injEq, reduceCtorEq,
        false_and] at h
    obtain ⟨-, hlen, rfl, rfl⟩ := readFull_eq_ok_iff.1 hf
    split_ifs at h with hcanon
    · simp at h
    obtain ⟨rfl, rfl⟩ : t₀.r.take n = b ∧ _ = t := by simpa using h
    have hblen : (t₀.r.take n).length = n := by simp; omega
    have hnot : ¬ ((t₀.r.take n).length = 1 ∧ (t₀.r.take n).headD 0 ≤ 0x7F) := by
      rintro ⟨h1, h2⟩
      refine hcanon ⟨by omega, ?_⟩
      rw [UInt8.lt_iff_toNat_lt]
      rw [UInt8.le_iff_toNat_le] at h2
      simp only [UInt8.reduceToNat] at h2 ⊢
      omega
    have hh' : hd = puthead 0x80 0xB7 n := hh
    rw [strEncoding_eq, if_neg hnot, hblen, ← hh']
    refine ⟨by simp [hr], ?_⟩
    have hc₂ : Consumed t₀ n { ({ t₀ with ahead := some .string, size := n, kinderr := none } :
        Stream).skip n with r := t₀.r.drop n } := ⟨rfl, rfl, rfl, rfl, rfl⟩
    simpa [hblen] using hc.trans hc₂
  | list => simp at h


/-! ### Lists -/

/-- The stream `List` leaves: a new innermost list of `n` bytes, nothing read of it. -/
def enter (t : Stream) (n : ℕ) : Stream :=
  { t with stack := ⟨0, n⟩ :: t.stack, ahead := none, size := 0, kinderr := none }

/-- Entering a list forgets the header cached for it. -/
theorem enter_cached (t : Stream) (a : Option Kind) (m n : ℕ) (e : Option RlpError) :
    ({ t with ahead := a, size := m, kinderr := e } : Stream).enter n = t.enter n :=
  rfl

theorem list_eq {s t : Stream} {n : ℕ} (h : s.kind = (.ok (.list, n), t)) :
    s.list = (.ok n, t.enter n) := by
  obtain ⟨-, he, -⟩ := kind_eq_ok h
  simp [list, h, enter, he]

theorem list_eq_ok {s u : Stream} {n : ℕ} (h : s.list = (.ok n, u)) :
    ∃ t, s.kind = (.ok (.list, n), t) ∧ u = t.enter n := by
  rcases hk : s.kind with ⟨e | ⟨k, n'⟩, t⟩
  · simp [list, hk] at h
  cases k <;> simp [list, hk] at h
  obtain ⟨rfl, rfl⟩ := h
  obtain ⟨-, he, -⟩ := kind_eq_ok hk
  exact ⟨t, rfl, by simp [enter, he]⟩

/-- A list read to its end closes: what was read of it counts in the list around it. -/
theorem listEnd_consumed {t u : Stream} {n : ℕ} (h : Consumed (t.enter n) n u) :
    ∃ v, u.listEnd = (.ok (), v) ∧ Consumed t n v := by
  have hst : u.stack = ⟨n, n⟩ :: t.stack := by rw [h.stack]; simp [enter, ListPos.advance]
  refine ⟨{ u with stack := ListPos.advance t.stack n, ahead := none, size := 0 },
    by simp [listEnd, hst], ?_⟩
  exact ⟨by rw [h.r]; rfl, rfl, rfl, h.limited, h.remaining⟩

theorem consumed_of_listEnd {t u v : Stream} {n m : ℕ} (h : Consumed (t.enter n) m u)
    (he : u.listEnd = (.ok (), v)) : m = n ∧ Consumed t n v := by
  have hst : u.stack = ⟨m, n⟩ :: t.stack := by rw [h.stack]; simp [enter, ListPos.advance]
  simp only [listEnd, hst] at he
  split_ifs at he with hmn
  · simp at he
  obtain rfl : m = n := by simpa using hmn
  cases he
  exact ⟨rfl, ⟨by rw [h.r]; rfl, rfl, rfl, h.limited, h.remaining⟩⟩

theorem fits_enter {t : Stream} {n : ℕ} (h : t.Fits n) : (t.enter n).Fits n :=
  ⟨by simp [enter], h.2⟩

/-! ### Raw values and integers -/

theorem consumed_zero_cached (t : Stream) (a : Option Kind) (n : ℕ) (e : Option RlpError) :
    Consumed t 0 { ({ t with ahead := a, size := n, kinderr := e } : Stream) with ahead := none } :=
  ⟨by simp, rfl, by simp, rfl, by split <;> simp⟩

theorem readFull_r {s t : Stream} {n : ℕ} {c : List UInt8}
    (h : s.readFull n = (.ok c, t)) : s.r = c ++ t.r := by
  obtain ⟨-, -, rfl, rfl⟩ := readFull_eq_ok_iff.1 h
  simp

theorem raw_canonical {s t : Stream} {bs : List UInt8} (hs : s.ahead = none)
    (h : s.raw = (.ok bs, t)) : s.r = bs ++ t.r := by
  rcases hk : s.kind with ⟨e | ⟨k, n⟩, t₁⟩
  · simp [raw, hk] at h
  obtain ⟨t₀, hk₀, -, rfl⟩ := kind_eq_ok_fresh hs hk
  obtain ⟨hd, hr, -, hh⟩ := readKind_eq_ok hk₀
  simp only [raw, hk, andThen_ok] at h
  cases k with
  | byte =>
    obtain ⟨rfl, rfl, -⟩ := hh
    obtain ⟨rfl, rfl⟩ : [t₀.byteval] = bs ∧ _ = t := by simpa using h
    exact hr
  | string =>
    simp only [reduceCtorEq, if_false, if_true] at h
    rcases hf : readFull { t₀ with ahead := some .string, size := n, kinderr := none } n with
      ⟨e | c, t₂⟩ <;> simp only [hf, andThen_error, andThen_ok, reduceCtorEq, Except.ok.injEq,
        Prod.mk.injEq, false_and] at h
    obtain ⟨rfl, rfl⟩ := h
    have hhd : hd = puthead 0x80 0xB7 n := hh
    rw [hr, hhd, show t₀.r = ({ t₀ with ahead := some .string, size := n, kinderr := none } :
      Stream).r from rfl,
      readFull_r hf, List.append_assoc]
  | list =>
    simp only [reduceCtorEq, if_false] at h
    rcases hf : readFull { t₀ with ahead := some .list, size := n, kinderr := none } n with
      ⟨e | c, t₂⟩ <;> simp only [hf, andThen_error, andThen_ok, reduceCtorEq, Except.ok.injEq,
        Prod.mk.injEq, false_and] at h
    obtain ⟨rfl, rfl⟩ := h
    have hhd : hd = puthead 0xC0 0xF7 n := hh
    rw [hr, hhd, show t₀.r = ({ t₀ with ahead := some .list, size := n, kinderr := none } :
      Stream).r from rfl,
      readFull_r hf, List.append_assoc]

theorem uint_strEncoding {s : Stream} {N : ℕ} {rest : List UInt8} (hs : s.ahead = none)
    (hN : N < 2 ^ 64) (hfit : s.Fits (strEncoding (bigBytes N)).length)
    (hr : s.r = strEncoding (bigBytes N) ++ rest) :
    ∃ t, s.uint 64 = (.ok N, t) ∧ Consumed s (strEncoding (bigBytes N)).length t := by
  rcases Nat.lt_or_ge N 128 with h128 | h128
  · rcases Nat.eq_zero_or_pos N with rfl | hpos
    · have henc : strEncoding (bigBytes 0) = puthead Kind.string.tags.1 Kind.string.tags.2 0 := by
        rfl
      rw [henc] at hfit hr ⊢
      obtain ⟨t₀, hk₀, hc₀⟩ := readKind_puthead (k := .string) (n := 0) (by decide) (by decide)
        hfit (by rw [hr])
      have hk := kind_of_readKind hs (by simpa using hfit) (by decide) hk₀ hc₀
      refine ⟨_, ?_, by simpa using hc₀.trans (consumed_zero_cached t₀ (some .string) 0 none)⟩
      simp [uint, hk, readUint]
    · have hx : UInt8.ofNat N < 0x80 := by
        rw [UInt8.lt_iff_toNat_lt, toNat_ofNat_of_lt (by omega)]
        simp only [UInt8.reduceToNat]
        omega
      have henc : strEncoding (bigBytes N) = [UInt8.ofNat N] := by
        rw [bigBytes_eq, if_neg (by omega), putint_of_lt (by omega), strEncoding, if_pos]
        exact UInt8.le_iff_toNat_le.2 (by rw [toNat_ofNat_of_lt (by omega)]; simp; omega)
      rw [henc] at hfit hr ⊢
      have hfit' : s.Fits (1 + 0) := hfit
      have hk := kind_of_readKind hs hfit' Nat.one_pos (readKind_byte hfit hr hx)
        ⟨by simp [hr], rfl, rfl, rfl, rfl⟩
      have hx0 : UInt8.ofNat N ≠ 0 := fun h0 => by
        have := congrArg UInt8.toNat h0
        rw [toNat_ofNat_of_lt (by omega)] at this
        simp at this
        omega
      refine ⟨{ s.skip 1 with r := rest, byteval := UInt8.ofNat N, size := 0, kinderr := none }, ?_,
        ⟨by simp [hr], rfl, rfl, rfl, rfl⟩⟩
      simp [uint, hk, hx0, toNat_ofNat_of_lt (by omega : N < 256)]
  · have h8 := intsize_le_eight hN
    have henc : strEncoding (bigBytes N) =
        puthead Kind.string.tags.1 Kind.string.tags.2 (intsize N) ++ putint N := by
      rw [bigBytes_eq, if_neg (by omega), strEncoding_putint h128]
      rfl
    rw [henc] at hfit hr ⊢
    rw [List.length_append, length_puthead, length_putint] at hfit ⊢
    obtain ⟨t₀, hk₀, hc₀⟩ := readKind_puthead (k := .string) (n := intsize N) (by decide)
      (by omega) (hfit.mono (by omega)) (by rw [hr, List.append_assoc])
    have hpos := headsize_pos (intsize N)
    have hk := kind_of_readKind hs hfit hpos hk₀ hc₀
    have ht₀r : t₀.r = putint N ++ rest := by
      rw [hc₀.r, hr, List.append_assoc, ← length_puthead Kind.string.tags.1 Kind.string.tags.2,
        List.drop_left]
    obtain ⟨t₂, hu, hc₂⟩ := readUint_putint
      (s := { t₀ with ahead := some .string, size := intsize N, kinderr := none })
      (by omega) (hc₀.fits hfit) ht₀r
    refine ⟨t₂, ?_, hc₀.trans hc₂.cached⟩
    simp only [uint, hk, andThen_ok, if_neg (show ¬ 64 / 8 < intsize N by omega), hu]
    rw [if_neg (by omega)]

theorem uint_canonical {s t : Stream} {N : ℕ} (hs : s.ahead = none) (h : s.uint 64 = (.ok N, t)) :
    N < 2 ^ 64 ∧ s.r = strEncoding (bigBytes N) ++ t.r := by
  rcases hk : s.kind with ⟨e | ⟨k, n⟩, t₁⟩
  · simp [uint, hk] at h
  obtain ⟨t₀, hk₀, -, rfl⟩ := kind_eq_ok_fresh hs hk
  obtain ⟨hd, hr, hc, hh⟩ := readKind_eq_ok hk₀
  simp only [uint, hk, andThen_ok] at h
  cases k with
  | byte =>
    obtain ⟨rfl, rfl, hx⟩ := hh
    dsimp only at h
    split_ifs at h with h0
    · simp at h
    obtain ⟨rfl, rfl⟩ : t₀.byteval.toNat = N ∧ _ = t := by simpa using h
    have hx' := UInt8.lt_iff_toNat_lt.1 hx
    simp only [UInt8.reduceToNat] at hx'
    refine ⟨by omega, ?_⟩
    have hne : t₀.byteval.toNat ≠ 0 := fun h' => h0 (UInt8.toNat_inj.1 (by rw [h']; rfl))
    rw [bigBytes_eq, if_neg hne, putint_of_lt (by omega), UInt8.ofNat_toNat, strEncoding,
      if_pos (UInt8.le_iff_toNat_le.2 (by simp only [UInt8.reduceToNat]; omega))]
    exact hr
  | string =>
    have hhd : hd = puthead 0x80 0xB7 n := hh
    dsimp only at h
    split_ifs at h with h8
    · simp at h
    rcases hu : readUint { t₀ with ahead := some .string, size := n, kinderr := none } n with
      ⟨e | v, t₂⟩ <;> simp only [hu] at h
    · cases e <;> simp at h
    by_cases hv : 0 < n ∧ v < 128
    · rw [if_pos hv] at h
      simp at h
    rw [if_neg hv] at h
    obtain ⟨rfl, rfl⟩ : v = N ∧ t₂ = t := by simpa using h
    obtain ⟨bs, hr₂, -, hlen, rfl, h0⟩ := readUint_eq_ok hu
    have hlt : beNat bs < 2 ^ 64 := by
      calc beNat bs < 256 ^ bs.length := beNat_lt bs
        _ ≤ 256 ^ 8 := Nat.pow_le_pow_right (by norm_num) (by omega)
        _ = 2 ^ 64 := by norm_num
    refine ⟨hlt, ?_⟩
    rw [hr, hhd, show t₀.r = ({ t₀ with ahead := some .string, size := n, kinderr := none } :
      Stream).r from rfl, hr₂,
      ← List.append_assoc]
    congr 1
    rcases Nat.eq_zero_or_pos n with rfl | hn
    · obtain rfl := List.eq_nil_of_length_eq_zero hlen
      rfl
    · have hbig : 128 ≤ beNat bs := by omega
      have h0' : bs.head? ≠ some 0 := by
        rcases Nat.lt_or_ge n 2 with h1 | h2
        · obtain ⟨x, rfl⟩ : ∃ x, bs = [x] := List.length_eq_one_iff.1 (by omega)
          rintro hx
          simp only [List.head?_cons, Option.some.injEq] at hx
          subst hx
          simp [beNat] at hbig
        · exact h0 h2
      rw [bigBytes_beNat h0', ← putint_beNat (List.ne_nil_of_length_pos (by omega)) h0',
        strEncoding_putint hbig, putint_beNat (List.ne_nil_of_length_pos (by omega)) h0',
        ← length_putint, putint_beNat (List.ne_nil_of_length_pos (by omega)) h0', hlen]
  | list => simp at h


/-! ### Where `EOL` comes from -/

theorem willRead_ne_eol (s : Stream) (n : ℕ) : (s.willRead n).1 ≠ .error .eol := by
  unfold willRead
  dsimp only
  split_ifs <;> simp

theorem readByte_ne_eol (s : Stream) : s.readByte.1 ≠ .error .eol :=
  andThen_ne_error (willRead_ne_eol s 1) fun _ s => by
    split <;> simp

theorem readFull_ne_eol (s : Stream) (n : ℕ) : (s.readFull n).1 ≠ .error .eol :=
  andThen_ne_error (willRead_ne_eol s n) fun _ s => by
    split_ifs <;> simp

theorem readUint_ne_eol (s : Stream) : ∀ k, (s.readUint k).1 ≠ .error .eol
  | 0 => by simp [readUint]
  | 1 => andThen_ne_error (readByte_ne_eol s) fun _ _ => by simp
  | k + 2 => andThen_ne_error (readFull_ne_eol s (k + 2)) fun _ _ => by
    split_ifs <;> simp

/-- A header read fails with an error of the read, never with `EOL`. -/
theorem readKind_ne_eol (s : Stream) : s.readKind.1.2.2 ≠ some .eol := by
  unfold readKind
  rcases hb : s.readByte with ⟨e | b, s₁⟩
  · have := readByte_ne_eol s
    rw [hb] at this
    simp only [ne_eq, Option.some.injEq]
    split_ifs
    · simp
    · simpa using this
  · simp only
    split_ifs
    · simp
    · simp
    · rcases hu : readUint { s₁ with byteval := 0 } (b - 0xB7).toNat with ⟨e | size, t⟩
      · simpa [hu] using readUint_ne_eol { s₁ with byteval := 0 } (b - 0xB7).toNat
      · simp only
        split_ifs <;> simp
    · simp
    · rcases hu : readUint { s₁ with byteval := 0 } (b - 0xF7).toNat with ⟨e | size, t⟩
      · simpa [hu] using readUint_ne_eol { s₁ with byteval := 0 } (b - 0xF7).toNat
      · simp only
        split_ifs <;> simp

theorem sizeError_ne_eol (s : Stream) (n : ℕ) : s.sizeError n ≠ some .eol := by
  unfold sizeError
  split <;> split_ifs <;> simp

/-- `Kind` on a stream with no header ahead answers `EOL` only at the end of the innermost list,
where it reads nothing. -/
theorem kind_eq_eol {s t : Stream} (hs : s.ahead = none) (h : s.kind = (.error .eol, t)) :
    t = { s with kinderr := none } := by
  simp only [kind, hs] at h
  split_ifs at h
  · obtain ⟨-, rfl⟩ := Prod.mk.inj h
    rw [hs]
  rcases hk : s.readKind with ⟨⟨k, n, err⟩, t'⟩
  have hne := readKind_ne_eol s
  have hne' := sizeError_ne_eol t' n
  rw [hk] at h hne
  cases err <;> cases he : t'.sizeError n <;> simp_all [answer]

theorem listEnd_ne_eol (s : Stream) : s.listEnd.1 ≠ .error .eol := by
  unfold listEnd
  split
  · simp
  · split_ifs <;> simp

/-- After a header has been read, `Bytes` fails with an error of its own or of the read. -/
theorem bytes_ne_eol_of_kind {s t : Stream} {k : Kind} {n : ℕ} (h : s.kind = (.ok (k, n), t)) :
    t.bytes.1 ≠ .error .eol := by
  simp only [bytes, kind_kind h, andThen_ok]
  cases k with
  | byte => simp
  | string =>
    refine andThen_ne_error (readFull_ne_eol t n) fun _ _ => ?_
    split_ifs <;> simp
  | list => simp

end Stream

end GoXdn.Rlp
