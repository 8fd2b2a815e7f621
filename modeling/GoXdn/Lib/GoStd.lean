import Mathlib

/-!
# What Go's standard library gives

The pieces of Go and its standard library that the modelled code leans on, in list and number
form: big-endian integers (`encoding/binary`), a 32-byte `hash.Hash` used as
`Reset(); Write(b); Sum(nil)`, byte shifts done in `uint8`, and counting-down loops
`for i := n; i >= 0; i--`.  Two loops that run side by side keep a relation when each pass
does (`forDown_rel`); that is how one generator is shown to build what another does.
-/

namespace GoStd

/-- A hash function with 32-byte digests: `h.Reset(); h.Write(b); h.Sum(nil)`. -/
structure Hash256 where
  sum : List UInt8 → List UInt8
  length_sum : ∀ b, (sum b).length = 32

attribute [simp] Hash256.length_sum

/-- The hash whose every digest is 32 zero bytes. -/
def Hash256.zero : Hash256 := ⟨fun _ => List.replicate 32 0, fun _ => List.length_replicate⟩

/-- `binary.BigEndian.PutUint64`. -/
def putUint64 (n : UInt64) : List UInt8 :=
  [(n >>> 56).toUInt8, (n >>> 48).toUInt8, (n >>> 40).toUInt8, (n >>> 32).toUInt8,
    (n >>> 24).toUInt8, (n >>> 16).toUInt8, (n >>> 8).toUInt8, n.toUInt8]

/-- The value of a big-endian byte string, as `new(big.Int).SetBytes(b)` reads it. -/
def beNat (b : List UInt8) : ℕ := b.foldl (fun acc x => acc * 256 + x.toNat) 0

/-- `x.Bytes()` for a non-negative `big.Int` `x = n`: big-endian with no leading zero byte, empty
for zero.  Each pass takes off the last byte; `n` passes are more than the bytes `n` has. -/
def bigBytesAux : ℕ → ℕ → List UInt8
  | 0, _ => []
  | fuel + 1, n => if n = 0 then [] else bigBytesAux fuel (n / 256) ++ [UInt8.ofNat n]

@[inherit_doc bigBytesAux]
def bigBytes (n : ℕ) : List UInt8 := bigBytesAux n n

/-- `binary.BigEndian.Uint64(b)`: the first eight bytes; `none` where Go panics on a shorter
slice. -/
def beUint64 (b : List UInt8) : Option UInt64 :=
  if 8 ≤ b.length then some (UInt64.ofNat (beNat (b.take 8))) else none

/-- `b << n` on a `byte`: the shift is done in eight bits, so what leaves them is lost. -/
def shlByte (b : UInt8) (n : ℕ) : UInt8 := UInt8.ofNat (b.toNat * 2 ^ n)

/-- A Go `int` of 64 bits after arithmetic that may overflow: the value modulo `2^64`, in
`[-2^63, 2^63)`. -/
def wrapInt64 (x : ℤ) : ℤ := (x + 2 ^ 63) % 2 ^ 64 - 2 ^ 63

/-- Where an `int` sum stays in range it does not wrap. -/
theorem wrapInt64_of_lt {x : ℤ} (h₁ : -2 ^ 63 ≤ x) (h₂ : x < 2 ^ 63) : wrapInt64 x = x := by
  unfold wrapInt64
  rw [Int.emod_eq_of_lt (by omega) (by omega)]
  omega

/-- A sum that passes `2^63 - 1` wraps to the negative numbers. -/
theorem wrapInt64_of_ge {x : ℤ} (h₁ : 2 ^ 63 ≤ x) (h₂ : x < 2 ^ 64 + 2 ^ 63) : wrapInt64 x = x - 2 ^ 64 := by
  unfold wrapInt64
  rw [Int.emod_eq_sub_self_emod, Int.emod_eq_of_lt (by omega) (by omega)]
  omega

/-- `int` of a `uint64` is never above it. -/
theorem wrapInt64_le (a : UInt64) : wrapInt64 a.toNat ≤ a.toNat := by
  have ha := a.toNat_lt
  rcases Nat.lt_or_ge a.toNat (2 ^ 63) with h | h
  · rw [wrapInt64_of_lt (by omega) (by omega)]
  · rw [wrapInt64_of_ge (by omega) (by omega)]
    omega

/-- `uint64(x)` of an `int`. -/
def uint64OfInt (x : ℤ) : UInt64 := UInt64.ofNat (x % 2 ^ 64).toNat

/-- `if bad { return err }`. -/
def failIf {ε : Type*} (bad : Prop) [Decidable bad] (err : ε) : Except ε Unit :=
  if bad then .error err else .ok ()

@[simp]
theorem failIf_bind_eq_ok {ε α : Type} {bad : Prop} [Decidable bad] {err : ε}
    {f : Unit → Except ε α} {a : α} : (failIf bad err >>= f) = .ok a ↔ ¬ bad ∧ f () = .ok a := by
  unfold failIf
  split <;> simp_all [bind, Except.bind]

@[simp]
theorem failIf_bind_eq_error {ε α : Type} {bad : Prop} [Decidable bad] {err e : ε}
    {f : Unit → Except ε α} :
    (failIf bad err >>= f) = .error e ↔ bad ∧ err = e ∨ ¬ bad ∧ f () = .error e := by
  unfold failIf
  split <;> simp_all [bind, Except.bind]

@[simp]
theorem failIf_eq_error {ε : Type} {bad : Prop} [Decidable bad] {err e : ε} :
    failIf bad err = .error e ↔ bad ∧ err = e := by
  unfold failIf
  split <;> simp_all

@[simp]
theorem failIf_eq_ok {ε : Type*} {bad : Prop} [Decidable bad] {err : ε} :
    failIf bad err = .ok () ↔ ¬ bad := by
  unfold failIf
  split <;> simp_all

/-- A returned error is never a result. -/
@[simp]
theorem throw_ne_ok {ε α : Type} (e : ε) (a : α) : (throw e : Except ε α) ≠ .ok a := by
  simp [throw, throwThe, MonadExceptOf.throw]

/-- A function mapped over a fallible value succeeds exactly when the value does. -/
theorem map_eq_ok {ε α β : Type} {f : α → β} {x : Except ε α} {b : β} :
    f <$> x = .ok b ↔ ∃ a, x = .ok a ∧ f a = b := by
  cases x <;> simp [Functor.map, Except.map]

/-- `for i := n; i >= 0; i-- { s = body(i, s) }`. -/
def forDown {β : Type*} (body : ℕ → β → β) : ℕ → β → β
  | 0, b => body 0 b
  | i + 1, b => forDown body i (body (i + 1) b)

section

variable {β γ : Type*}

/-- Two counting-down loops keep a relation that each pass keeps: `R k a b` relates the states
after the passes at every index `≥ k`. -/
theorem forDown_rel (R : ℕ → β → γ → Prop) (f : ℕ → β → β) (g : ℕ → γ → γ)
    (step : ∀ i a b, R (i + 1) a b → R i (f i a) (g i b)) :
    ∀ n a b, R (n + 1) a b → R 0 (forDown f n a) (forDown g n b)
  | 0, a, b, h => step 0 a b h
  | n + 1, a, b, h => forDown_rel R f g step n _ _ (step (n + 1) a b h)

end

@[simp]
theorem length_putUint64 (n : UInt64) : (putUint64 n).length = 8 := rfl

theorem beNat_foldl (b : List UInt8) (acc : ℕ) :
    b.foldl (fun acc x => acc * 256 + x.toNat) acc = acc * 256 ^ b.length + beNat b := by
  induction b generalizing acc with
  | nil => simp [beNat]
  | cons x b ih =>
    simp only [beNat, List.foldl_cons, List.length_cons] at ih ⊢
    rw [ih, ih (0 * 256 + x.toNat), pow_succ]
    ring

theorem beNat_append (a b : List UInt8) :
    beNat (a ++ b) = beNat a * 256 ^ b.length + beNat b := by
  rw [beNat, List.foldl_append, ← beNat, beNat_foldl]

theorem beNat_cons (x : UInt8) (b : List UInt8) :
    beNat (x :: b) = x.toNat * 256 ^ b.length + beNat b := by
  rw [← List.singleton_append, beNat_append]
  simp [beNat]

theorem beNat_lt (b : List UInt8) : beNat b < 256 ^ b.length := by
  induction b with
  | nil => simp [beNat]
  | cons x b ih =>
    have hx : x.toNat < 256 := x.toNat_lt
    rw [beNat_cons, List.length_cons, pow_succ]
    nlinarith

end GoStd
