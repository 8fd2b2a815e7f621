import Mathlib

/-!
# Byte buffers

Go code builds byte strings by slicing, by copying a block into a buffer one index at a time,
and by writing blocks at offsets of a file.  Here are their list forms, with what the proofs use
about them: a block copy replaces exactly its range (`setRange_eq`), and a range that some write
covers, where every other write either misses it or puts the same bytes there, reads back those
bytes whatever the rest of the writes were (`slice_foldl_writeAt`).
-/

namespace Buffer

variable {α : Type*}

/-- The slice expression `b[lo:hi]`. -/
def slice (b : List α) (lo hi : ℕ) : List α := (b.take hi).drop lo

/-- The loop `for j := range src { dst[off+j] = src[j] }`. -/
def setRange : List α → ℕ → List α → List α
  | dst, _, [] => dst
  | dst, off, x :: xs => setRange (dst.set off x) (off + 1) xs

/-- `File.WriteAt(d, off)`: a block that ends past the end of the file grows it, zero-filled. -/
def writeAt [Zero α] (f : List α) (off : ℕ) (d : List α) : List α :=
  setRange (f ++ List.replicate (off + d.length - f.length) 0) off d

/-- `File.ReadAt(buf, off)` on a file of bytes `f`: as many bytes from `off` as `buf` holds and
the file has, over the start of `buf`; nothing at a negative offset. -/
def readAt (f : List α) (off : ℤ) (buf : List α) : List α :=
  if off < 0 then buf
  else
    let got := (f.drop off.toNat).take buf.length
    got ++ buf.drop got.length

/-- A block `d` written at `off` leaves the range `[lo, hi)` alone. -/
def Misses (off : ℕ) (d : List α) (lo hi : ℕ) : Prop := off + d.length ≤ lo ∨ hi ≤ off

/-- A block `d` written at `off` covers the range `[lo, hi)` and puts `r` there. -/
def Puts (off : ℕ) (d : List α) (lo hi : ℕ) (r : List α) : Prop :=
  off ≤ lo ∧ hi ≤ off + d.length ∧ slice d (lo - off) (hi - off) = r

@[simp]
theorem length_slice (b : List α) (lo hi : ℕ) : (slice b lo hi).length = min hi b.length - lo := by
  simp [slice]

theorem slice_append_left {a b : List α} {lo hi : ℕ} (h : hi ≤ a.length) :
    slice (a ++ b) lo hi = slice a lo hi := by
  simp [slice, List.take_append_of_le_length h]

theorem slice_append_right {a b : List α} {lo hi : ℕ} (h : a.length ≤ lo) :
    slice (a ++ b) lo hi = slice b (lo - a.length) (hi - a.length) := by
  rw [slice, slice, List.take_append, List.drop_append, List.drop_eq_nil_of_le (by simp; omega),
    List.nil_append]
  rcases Nat.lt_or_ge hi a.length with h' | h'
  · rw [Nat.sub_eq_zero_of_le (Nat.le_of_lt h')]
    simp
  · rw [List.take_of_length_le h']

theorem slice_append_of_le {a b : List α} {lo : ℕ} (h : lo ≤ a.length) (n : ℕ) :
    slice (a ++ b) lo (a.length + n) = a.drop lo ++ b.take n := by
  rw [slice, List.take_append, List.take_of_length_le (by omega), Nat.add_sub_cancel_left,
    List.drop_append_of_le_length h]

theorem slice_drop {b : List α} {n lo hi : ℕ} (h : n ≤ lo) :
    slice (b.drop n) (lo - n) (hi - n) = slice b lo hi := by
  rw [slice, slice, List.take_drop, List.drop_drop]
  rcases Nat.lt_or_ge hi n with h' | h'
  · rw [Nat.sub_eq_zero_of_le (Nat.le_of_lt h'), Nat.add_zero,
      List.drop_eq_nil_of_le (by rw [List.length_take]; omega),
      List.drop_eq_nil_of_le (by rw [List.length_take]; omega)]
  · congr 2 <;> omega

@[simp]
theorem length_setRange (dst src : List α) (off : ℕ) :
    (setRange dst off src).length = dst.length := by
  induction src generalizing dst off with
  | nil => rfl
  | cons x xs ih => simp [setRange, ih]

/-- A block copy that fits replaces exactly its range. -/
theorem setRange_eq (dst src : List α) (off : ℕ) (h : off + src.length ≤ dst.length) :
    setRange dst off src = dst.take off ++ src ++ dst.drop (off + src.length) := by
  induction src generalizing dst off with
  | nil => simp [setRange]
  | cons x xs ih =>
    simp only [List.length_cons] at h
    have hlen : off + 1 + xs.length ≤ (dst.set off x).length := by simp; omega
    have htake : (dst.set off x).take (off + 1) = dst.take off ++ [x] := by
      rw [List.take_set, List.take_add_one, List.getElem?_eq_getElem (by omega),
        List.set_append_right _ _ (by rw [List.length_take]; omega)]
      simp [Nat.min_eq_left (show off ≤ dst.length by omega)]
    rw [setRange, ih _ _ hlen, htake, List.drop_set_of_lt (by omega)]
    simp [Nat.add_comm, Nat.add_left_comm]

theorem slice_split (b : List α) {lo mid hi : ℕ} (h1 : lo ≤ mid) (h2 : mid ≤ hi) :
    slice b lo hi = slice b lo mid ++ slice b mid hi := by
  simp only [slice]
  conv_lhs => rw [← List.take_append_drop mid (b.take hi)]
  rw [List.take_take, Nat.min_eq_left h2, List.drop_append]
  rcases Nat.lt_or_ge b.length mid with hb | hb
  · have hnil : List.drop mid (List.take hi b) = [] := List.drop_eq_nil_of_le (by simp; omega)
    simp [hnil]
  · rw [List.length_take_of_le hb, Nat.sub_eq_zero_of_le h1, List.drop_zero]

theorem slice_of_length_eq {b : List α} {n : ℕ} (h : b.length = n) : slice b 0 n = b := by
  simp [slice, ← h]

theorem length_flatMap_range (f : ℕ → List α) (n : ℕ) :
    ∀ m, (∀ i < m, (f i).length = n) → ((List.range m).flatMap f).length = n * m
  | 0, _ => by simp
  | m + 1, hf => by
    rw [List.range_succ, List.flatMap_append, List.length_append,
      length_flatMap_range f n m (fun i hi => hf i (by omega))]
    simp [hf m (by omega), Nat.mul_succ]

/-- Blocks of one length laid end to end: the `k`-th block is read back at `n * k`. -/
theorem slice_flatMap_range (f : ℕ → List α) (n : ℕ) :
    ∀ (m k : ℕ), (∀ i < m, (f i).length = n) → k < m →
      slice ((List.range m).flatMap f) (n * k) (n * k + n) = f k
  | 0, k, _, hk => absurd hk (Nat.not_lt_zero k)
  | m + 1, k, hf, hk => by
    have hlen := length_flatMap_range f n m (fun i hi => hf i (by omega))
    rw [List.range_succ, List.flatMap_append, List.flatMap_singleton]
    rcases Nat.lt_or_ge k m with hkm | hkm
    · have hle : n * k + n ≤ n * m := by
        rw [← Nat.mul_succ]
        exact Nat.mul_le_mul_left n hkm
      rw [slice_append_left (by rw [hlen]; exact hle)]
      exact slice_flatMap_range f n m k (fun i hi => hf i (by omega)) hkm
    · obtain rfl : k = m := by omega
      rw [slice_append_right (by omega), hlen, Nat.sub_self, Nat.add_sub_cancel_left]
      exact slice_of_length_eq (hf k (by omega))

theorem drop_setRange {dst src : List α} {off : ℕ} (h : off + src.length ≤ dst.length) :
    (setRange dst off src).drop off = src ++ dst.drop (off + src.length) := by
  rw [setRange_eq _ _ _ h, List.append_assoc, List.drop_append_of_le_length (by simp; omega)]
  simp

theorem slice_eq_take_drop (b : List α) (lo n : ℕ) : slice b lo (lo + n) = (b.drop lo).take n := by
  rw [slice, List.drop_take, Nat.add_sub_cancel_left]

section WriteAt

variable [Zero α]

theorem writeAt_of_fits {f d : List α} {off : ℕ} (h : off + d.length ≤ f.length) :
    writeAt f off d = f.take off ++ d ++ f.drop (off + d.length) := by
  rw [writeAt, Nat.sub_eq_zero_of_le h, List.replicate_zero, List.append_nil, setRange_eq _ _ _ h]

theorem length_writeAt_of_fits {f d : List α} {off : ℕ} (h : off + d.length ≤ f.length) :
    (writeAt f off d).length = f.length := by
  simp [writeAt, Nat.sub_eq_zero_of_le h]

theorem slice_writeAt_of_misses {f d : List α} {off lo hi : ℕ} (h : off + d.length ≤ f.length)
    (hm : Misses off d lo hi) : slice (writeAt f off d) lo hi = slice f lo hi := by
  have hoff : (f.take off).length = off := by simp; omega
  rw [writeAt_of_fits h]
  rcases hm with hm | hm
  · have hpre : (f.take off ++ d).length = off + d.length := by simp [hoff]
    rw [slice_append_right (by omega), hpre]
    exact slice_drop hm
  · rw [List.append_assoc, slice_append_left (by simp; omega)]
    conv_rhs => rw [← List.take_append_drop off f]
    rw [slice_append_left (by simp; omega)]

theorem slice_writeAt_of_puts {f d r : List α} {off lo hi : ℕ} (h : off + d.length ≤ f.length)
    (hp : Puts off d lo hi r) : slice (writeAt f off d) lo hi = r := by
  obtain ⟨hlo, hhi, rfl⟩ := hp
  have hoff : (f.take off).length = off := by simp; omega
  rw [writeAt_of_fits h, List.append_assoc, slice_append_right (by simp; omega), hoff,
    slice_append_left (by omega)]

variable {ω : Type*} (off : ω → ℕ) (dat : ω → List α)

/-- Writes that each miss a range or put `r` there keep `r` there. -/
theorem slice_foldl_writeAt_stays (r : List α) (lo hi : ℕ) :
    ∀ (ws : List ω) (f : List α), (∀ w ∈ ws, off w + (dat w).length ≤ f.length) →
      (∀ w ∈ ws, Misses (off w) (dat w) lo hi ∨ Puts (off w) (dat w) lo hi r) →
      slice f lo hi = r → slice (ws.foldl (fun f w => writeAt f (off w) (dat w)) f) lo hi = r
  | [], f, _, _, hf => hf
  | w :: ws, f, hfit, hw, hf => by
    have hw0 := hfit w (by simp)
    refine slice_foldl_writeAt_stays r lo hi ws _ (fun w' hw' => ?_)
      (fun w' hw' => hw w' (by simp [hw'])) ?_
    · rw [length_writeAt_of_fits hw0]
      exact hfit w' (by simp [hw'])
    · rcases hw w (by simp) with hm | hp
      · rw [slice_writeAt_of_misses hw0 hm, hf]
      · exact slice_writeAt_of_puts hw0 hp

/-- A range that some write covers, where every write either misses it or puts `r` there,
reads back `r`, whatever was there before and whatever order the writes come in. -/
theorem slice_foldl_writeAt (r : List α) (lo hi : ℕ) :
    ∀ (ws : List ω) (f : List α), (∀ w ∈ ws, off w + (dat w).length ≤ f.length) →
      (∀ w ∈ ws, Misses (off w) (dat w) lo hi ∨ Puts (off w) (dat w) lo hi r) →
      (∃ w ∈ ws, Puts (off w) (dat w) lo hi r) →
      slice (ws.foldl (fun f w => writeAt f (off w) (dat w)) f) lo hi = r
  | [], _, _, _, hput => by simp at hput
  | w :: ws, f, hfit, hw, hput => by
    have hw0 := hfit w (by simp)
    have hfit' : ∀ w' ∈ ws, off w' + (dat w').length ≤ (writeAt f (off w) (dat w)).length := by
      intro w' hw'
      rw [length_writeAt_of_fits hw0]
      exact hfit w' (by simp [hw'])
    have hw' : ∀ w' ∈ ws, Misses (off w') (dat w') lo hi ∨ Puts (off w') (dat w') lo hi r :=
      fun w' hw' => hw w' (by simp [hw'])
    rw [List.foldl_cons]
    rcases hw w (by simp) with hm | hp
    · obtain ⟨w', hmem, hp'⟩ := hput
      rcases List.mem_cons.mp hmem with rfl | hmem
      · exact slice_foldl_writeAt_stays off dat r lo hi ws _ hfit' hw'
          (slice_writeAt_of_puts hw0 hp')
      · exact slice_foldl_writeAt r lo hi ws _ hfit' hw' ⟨w', hmem, hp'⟩
    · exact slice_foldl_writeAt_stays off dat r lo hi ws _ hfit' hw'
        (slice_writeAt_of_puts hw0 hp)

end WriteAt

end Buffer
