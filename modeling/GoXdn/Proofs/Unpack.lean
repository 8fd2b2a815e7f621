import Mathlib
import GoXdn.Abi.Unpack

/-!
# When unpacking return data panics

The decoder's bounds checks compare `int` sums with the length of the output. Where no sum
wraps they are exact: a type that follows no offset word is decoded without a panic from any
index whose words fit below `2^62` (`toGoType_static_ne_panic`). An offset word is the remote
node's to choose, though. Read as an `int`, a word of `2^64 - 32` is `-32`, and `offset + 32 = 0`
passes the check that the length word lies inside the output; the read `output[-8:0]` then
panics. A word just below `2^63` does the same the other way: `offset + 32` wraps to a negative
number. So a method whose one output is a string, a byte slice or a slice panics on every
output whose first offset word lies in `[2^63 - 32, 2^64 - 25]` (`unpack_offset_panics`), and a
method with no outputs panics on every well-formed output (`unpack_no_outputs_panics`).
-/

namespace GoXdn.Abi

open GoStd

-- `wrapInt64` of a symbolic value must not be unfolded by unification
attribute [local irreducible] wrapInt64

lemma sliceExpr_eq_some {s : List UInt8} {lo hi : ℤ} (h₀ : 0 ≤ lo) (h₁ : lo ≤ hi) (h₂ : hi ≤ s.length) :
    sliceExpr s lo hi = some (Buffer.slice s lo.toNat hi.toNat) :=
  if_pos ⟨h₀, h₁, h₂⟩

lemma sliceExpr_eq_none {s : List UInt8} {lo hi : ℤ} (h : ¬ (0 ≤ lo ∧ lo ≤ hi ∧ hi ≤ s.length)) :
    sliceExpr s lo hi = none :=
  if_neg h

lemma length_sliceExpr {s w : List UInt8} {lo hi : ℤ} (h : sliceExpr s lo hi = some w) :
    0 ≤ lo ∧ lo ≤ hi ∧ hi ≤ s.length ∧ (w.length : ℤ) = hi - lo := by
  unfold sliceExpr at h
  split_ifs at h with hs
  cases h
  obtain ⟨h₀, h₁, h₂⟩ := hs
  refine ⟨h₀, h₁, h₂, ?_⟩
  rw [Buffer.length_slice]
  omega

lemma bytesAreProper_eq_ok {output : List UInt8} (h : bytesAreProper output = .ok ()) :
    32 ≤ output.length := by
  unfold bytesAreProper at h
  split_ifs at h with h₀ h₁
  omega

/-- An `Except` loop fails only with what one of its passes fails with. -/
lemma mapM_error_mem {α β : Type} {f : α → Except AbiError β} {e : AbiError} :
    ∀ {l : List α}, l.mapM f = .error e → ∃ x ∈ l, f x = .error e
  | [], h => by cases h
  | x :: l, h => by
    rw [List.mapM_cons] at h
    rcases hx : f x with e' | b
    · rw [hx] at h
      cases h
      exact ⟨x, List.mem_cons_self, hx⟩
    · rw [hx] at h
      rcases hl : l.mapM f with e' | bs
      · rw [hl] at h
        cases h
        obtain ⟨y, hy, hfy⟩ := mapM_error_mem hl
        exact ⟨y, List.mem_cons_of_mem x hy, hfy⟩
      · rw [hl] at h
        cases h

lemma orPanic_some_bind {α β : Type} (a : α) (f : α → Except AbiError β) :
    (orPanic (some a) >>= f) = f a := rfl

lemma orPanic_none_bind {α β : Type} (f : α → Except AbiError β) :
    (orPanic none >>= f) = .error .panic := rfl

/-! ## The offset word of a length-prefixed type -/

/-- `binary.BigEndian.Uint64` of an eight-byte word, as an `int`. -/
lemma beUint64_of_length {word : List UInt8} (h : word.length = 8) :
    beUint64 word = some (UInt64.ofNat (beNat word)) ∧ (UInt64.ofNat (beNat word)).toNat = beNat word := by
  have hlt : beNat word < 2 ^ 64 := by
    have := beNat_lt word
    rw [h] at this
    omega
  refine ⟨?_, UInt64.toNat_ofNat_of_lt' hlt⟩
  rw [beUint64, if_pos (by omega), List.take_of_length_le (by omega)]

/-- An offset word in `[2^63 - 32, 2^64 - 25]` passes the first check of `lengthPrefixPointsTo`
and sends the read of the length word out of the output. -/
theorem lengthPrefixPointsTo_panics {index : ℤ} {output : List UInt8} (h₀ : 0 ≤ index)
    (h₁ : index + 32 < 2 ^ 63) (hlen : index + 32 ≤ output.length)
    (hlo : 2 ^ 63 - 32 ≤ beNat (Buffer.slice output (index + 24).toNat (index + 32).toNat))
    (hhi : beNat (Buffer.slice output (index + 24).toNat (index + 32).toNat) ≤ 2 ^ 64 - 25) :
    lengthPrefixPointsTo index output = .error .panic := by
  set word := Buffer.slice output (index + 24).toNat (index + 32).toNat with hword_def
  have hword : sliceExpr output (wrapInt64 (index + 24)) (wrapInt64 (index + 32)) = some word := by
    rw [wrapInt64_of_lt (by omega) (by omega), wrapInt64_of_lt (by omega) (by omega)]
    exact sliceExpr_eq_some (by omega) (by omega) hlen
  have h8 : word.length = 8 := by
    rw [hword_def, Buffer.length_slice]
    omega
  obtain ⟨hb, hval⟩ := beUint64_of_length h8
  unfold lengthPrefixPointsTo
  rw [hword, orPanic_some_bind, hb, orPanic_some_bind]
  dsimp only
  rw [hval]
  rcases Nat.lt_or_ge (beNat word) (2 ^ 63) with hpos | hneg
  · have hoff : wrapInt64 (beNat word : ℤ) = beNat word := wrapInt64_of_lt (by omega) (by omega)
    have h32 : wrapInt64 ((beNat word : ℤ) + 32) = beNat word + 32 - 2 ^ 64 :=
      wrapInt64_of_ge (by omega) (by omega)
    rw [hoff, h32, if_neg (by omega), sliceExpr_eq_none (by omega), orPanic_none_bind]
  · have hoff : wrapInt64 (beNat word : ℤ) = beNat word - 2 ^ 64 := wrapInt64_of_ge (by omega) (by omega)
    rw [hoff, wrapInt64_of_lt (x := (beNat word : ℤ) - 2 ^ 64 + 32) (by omega) (by omega),
      wrapInt64_of_lt (x := (beNat word : ℤ) - 2 ^ 64 + 24) (by omega) (by omega), if_neg (by omega),
      sliceExpr_eq_none (by omega), orPanic_none_bind]

/-! ## Types decoded in place -/

namespace AbiType

/-- A type decoded in place, following no offset word: no string, byte slice or slice in it, and
its fixed-size byte arrays of at most a word. -/
def IsStatic : AbiType → Prop
  | base t _ size => t ≠ .stringTy ∧ t ≠ .bytesTy ∧ (t = .fixedBytesTy → size ≤ 32)
  | slice _ => False
  | array elem _ => elem.IsStatic

/-- A bound on the words the decoding of a static type reads from its index on: a word for a type
without brackets, and for an array its elements' words and one more, so that it is never zero. -/
def span : AbiType → ℕ
  | array elem size => size * elem.span + 1
  | _ => 1

lemma one_le_span : ∀ t : AbiType, 1 ≤ t.span
  | array _ _ => Nat.le_add_left 1 _
  | base .. => le_rfl
  | slice _ => le_rfl

lemma size_lt_span_of_isArray {t : AbiType} (h : t.isArray = true) : t.size < t.span := by
  cases t with
  | array elem n =>
    have he := one_le_span elem
    have hle : n ≤ n * elem.span := Nat.le_mul_of_pos_right n he
    simp only [AbiType.size, span]
    omega
  | base => cases h
  | slice => cases h

end AbiType

/-- Where the loop of `forEachUnpack` reads the `j`-th of `size` elements of `elem`: inside the
array's words, with no sum wrapped. -/
lemma elemIndex_bounds (elem : AbiType) {start : ℤ} {size j : ℕ} (hj : j < size) (h0 : 0 ≤ start)
    (hend : start + 32 * (size * elem.span) < 2 ^ 62) :
    0 ≤ elemIndex elem.isArray elem.size start j ∧
      elemIndex elem.isArray elem.size start j + 32 * elem.span ≤ start + 32 * (size * elem.span) := by
  have he := AbiType.one_le_span elem
  have hfit : ((j * elem.span + elem.span : ℕ) : ℤ) ≤ ((size * elem.span : ℕ) : ℤ) := by
    have := Nat.mul_le_mul_right elem.span (Nat.succ_le_of_lt hj)
    rw [Nat.succ_mul] at this
    exact_mod_cast this
  have hj' : ((j : ℕ) : ℤ) ≤ ((j * elem.span : ℕ) : ℤ) := by exact_mod_cast Nat.le_mul_of_pos_right j he
  push_cast at hfit hj' hend
  unfold elemIndex
  split_ifs with harr
  · have hs : ((elem.size : ℕ) : ℤ) * j ≤ j * elem.span := by
      have := Nat.mul_le_mul_right j (AbiType.size_lt_span_of_isArray harr.1).le
      rw [Nat.mul_comm elem.span j] at this
      exact_mod_cast this
    have hsize : (elem.size : ℤ) < elem.span := by exact_mod_cast AbiType.size_lt_span_of_isArray harr.1
    have hspan : (elem.span : ℤ) ≤ size * elem.span := by nlinarith
    have hprod : 0 ≤ (elem.size : ℤ) * 32 * j := by positivity
    rw [wrapInt64_of_lt (x := (elem.size : ℤ) * 32) (by omega) (by nlinarith),
      wrapInt64_of_lt (x := (elem.size : ℤ) * 32 * j) (by omega) (by nlinarith),
      wrapInt64_of_lt (by omega) (by nlinarith)]
    constructor <;> nlinarith
  · rw [wrapInt64_of_lt (by omega) (by nlinarith)]
    constructor <;> nlinarith

/-- The loop of `forEachUnpack` over elements none of whose reads panics, from a start where no
sum wraps, does not panic. -/
theorem forEachUnpack_ne_panic {isSlice elemIsArray : Bool} {elemSize size : ℕ}
    {decodeElem : ℤ → Except AbiError Value} {output : List UInt8} {start : ℤ} (h0 : 0 ≤ start)
    (hend : start + 32 * size < 2 ^ 62)
    (hdecode : ∀ j < size, decodeElem (elemIndex elemIsArray elemSize start j) ≠ .error .panic) :
    forEachUnpack isSlice elemIsArray elemSize decodeElem output start size ≠ .error .panic := by
  have h32 : wrapInt64 (32 * (size : ℤ)) = 32 * size := wrapInt64_of_lt (by omega) (by omega)
  have h32' : wrapInt64 ((size : ℤ) * 32) = 32 * size := by rw [mul_comm]; exact h32
  have hsum : wrapInt64 (start + 32 * size) = start + 32 * size := wrapInt64_of_lt (by omega) (by omega)
  unfold forEachUnpack
  rw [h32, h32', hsum]
  dsimp only
  by_cases hover : start + 32 * size > output.length
  · rw [if_pos hover]
    exact fun h => nomatch h
  · rw [if_neg hover, sliceExpr_eq_some h0 (by omega) (by omega), orPanic_some_bind,
      if_neg (fun h => absurd h.2 (by omega))]
    have hcount : ((Buffer.slice output start.toNat (start + 32 * size).toNat).length + 31) / 32 = size := by
      rw [Buffer.length_slice]
      omega
    rw [hcount]
    intro h
    rcases hm : (List.range size).mapM (fun j => decodeElem (elemIndex elemIsArray elemSize start j)) with
      e | vs
    · rw [hm] at h
      cases h
      obtain ⟨j, hj, hfj⟩ := mapM_error_mem hm
      exact hdecode j (List.mem_range.mp hj) hfj
    · rw [hm] at h
      cases h

lemma readBool_ne_panic {word : List UInt8} (h : 32 ≤ word.length) : readBool word ≠ .error .panic := by
  unfold readBool
  split_ifs
  · exact fun h => nomatch h
  · rw [List.getElem?_eq_getElem (by omega)]
    split
    next => exact fun h => nomatch h
    next => exact fun h => nomatch h
    next => exact fun h => nomatch h
    next hnone => cases hnone

lemma readFunctionType_ne_panic (word : List UInt8) : readFunctionType word ≠ .error .panic := by
  unfold readFunctionType
  split_ifs <;> exact fun h => nomatch h

/-- A static type is decoded without a panic from any index where its words fit below `2^62`. -/
theorem toGoType_static_ne_panic {output : List UInt8} :
    ∀ (t : AbiType), t.IsStatic → ∀ {index : ℤ}, 0 ≤ index → index + 32 * t.span < 2 ^ 62 →
      toGoType index t output ≠ .error .panic
  | .slice _, hs, _, _, _ => hs.elim
  | .base t kind size, hs, index, h0, hend => by
    obtain ⟨hstring, hbytes, hfixed⟩ := hs
    have hwrap : wrapInt64 (index + 32) = index + 32 := by
      simp only [AbiType.span] at hend
      exact wrapInt64_of_lt (by omega) (by omega)
    unfold toGoType
    rw [hwrap]
    by_cases hin : index + 32 > output.length
    · rw [if_pos hin]
      exact fun h => nomatch h
    have hlenPrefix : (AbiType.base t kind size).requiresLengthPrefix = false := by
      cases t <;> simp_all [AbiType.requiresLengthPrefix]
    rw [if_neg hin, hlenPrefix, if_neg Bool.false_ne_true, sliceExpr_eq_some h0 (by omega) (by omega),
      orPanic_some_bind]
    dsimp only
    have hword : 32 ≤ (Buffer.slice output index.toNat (index + 32).toNat).length := by
      rw [Buffer.length_slice]
      omega
    cases t with
    | boolTy => exact readBool_ne_panic hword
    | functionTy => exact readFunctionType_ne_panic _
    | fixedBytesTy =>
      have hsize := hfixed rfl
      unfold readFixedBytes
      rw [sliceExpr_eq_some le_rfl (by positivity) (by simp only [List.length_drop]; omega)]
      exact fun h => nomatch h
    | stringTy => exact absurd rfl hstring
    | bytesTy => exact absurd rfl hbytes
    | intTy | uintTy | addressTy | hashTy | fixedPointTy => exact fun h => nomatch h
  | .array elem size, hs, index, h0, hend => by
    have he := AbiType.one_le_span elem
    have hsize : (size : ℤ) ≤ size * elem.span := by exact_mod_cast Nat.le_mul_of_pos_right size he
    simp only [AbiType.span] at hend
    push_cast at hend
    have hwrap : wrapInt64 (index + 32) = index + 32 := wrapInt64_of_lt (by omega) (by omega)
    unfold toGoType
    rw [hwrap]
    by_cases hin : index + 32 > output.length
    · rw [if_pos hin]
      exact fun h => nomatch h
    rw [if_neg hin, if_neg (by simp [AbiType.requiresLengthPrefix]), sliceExpr_eq_some h0 (by omega) (by omega),
      orPanic_some_bind]
    dsimp only
    refine forEachUnpack_ne_panic h0 (by omega) fun j hj => ?_
    obtain ⟨hj0, hjend⟩ := elemIndex_bounds elem hj h0 (by omega)
    exact toGoType_static_ne_panic elem hs hj0 (by omega)

lemma toGoType_of_requiresLengthPrefix {index : ℤ} {t : AbiType} {output : List UInt8} {e : AbiError}
    (hin : ¬ wrapInt64 (index + 32) > output.length) (hp : t.requiresLengthPrefix = true)
    (he : lengthPrefixPointsTo index output = .error e) : toGoType index t output = .error e := by
  unfold toGoType
  rw [if_neg hin, if_pos hp, he]
  rfl

/-- `Unpack` of a method's name: the method's own unpacking once the output is well formed. -/
lemma unpack_of_method {abi : ABI} {v : Target} {name : String} {output : List UInt8} {method : Method}
    (hproper : bytesAreProper output = .ok ()) (hmethod : abi.methods name = some method) :
    abi.unpack v name output =
      if method.isTupleReturn then method.tupleUnpack v output else method.singleUnpack v output := by
  unfold ABI.unpack
  rw [hproper, hmethod]
  rfl

/-- A method with no outputs: `method.Outputs[0]` panics on every well-formed output. -/
theorem unpack_no_outputs_panics {abi : ABI} {v : Target} {name : String} {output : List UInt8}
    {method : Method} (hmethod : abi.methods name = some method) (houtputs : method.outputs = [])
    (hpointer : v.isPointer = true) (hproper : bytesAreProper output = .ok ()) :
    abi.unpack v name output = .error .panic := by
  rw [unpack_of_method hproper hmethod, Method.isTupleReturn, houtputs, if_neg (by simp)]
  unfold Method.singleUnpack
  rw [if_neg (by simp [hpointer]), houtputs]

theorem unpack_offset_panics (abi : ABI) (v : Target) (name : String) (output : List UInt8)
    (method : Method) (arg : Argument) (hmethod : abi.methods name = some method)
    (houtputs : method.outputs = [arg]) (hlenPrefix : arg.type.requiresLengthPrefix = true)
    (hpointer : v.isPointer = true) (hproper : bytesAreProper output = .ok ())
    (hlo : 2 ^ 63 - 32 ≤ beNat (Buffer.slice output 24 32))
    (hhi : beNat (Buffer.slice output 24 32) ≤ 2 ^ 64 - 25) :
    abi.unpack v name output = .error .panic := by
  have hlen := bytesAreProper_eq_ok hproper
  have hdecode : toGoType 0 arg.type output = .error .panic := by
    refine toGoType_of_requiresLengthPrefix ?_ hlenPrefix (lengthPrefixPointsTo_panics le_rfl (by norm_num)
      (by omega) hlo hhi)
    rw [zero_add, wrapInt64_of_lt (by norm_num) (by norm_num)]
    omega
  rw [unpack_of_method hproper hmethod, Method.isTupleReturn, houtputs, if_neg (by simp)]
  unfold Method.singleUnpack
  rw [if_neg (by simp [hpointer]), houtputs]
  dsimp only
  rw [hdecode]
  rfl


/-- An ABI whose method `get` returns one byte slice. -/
def bytesABI : ABI :=
  ⟨fun name => if name = "get" then some ⟨[⟨.base .bytesTy .other 0, false⟩]⟩ else none, fun _ => none⟩

/-- A pointer target that takes any value. -/
def anyTarget : Target := ⟨true, false, fun _ _ => .ok ()⟩

/-- One word whose last eight bytes are `2^64 - 32`, the `int` `-32`. -/
def minus32Word : List UInt8 := List.replicate 24 0 ++ [255, 255, 255, 255, 255, 255, 255, 224]

theorem unpack_offset_panics_minus32 :
    bytesABI.methods "get" = some ⟨[⟨.base .bytesTy .other 0, false⟩]⟩ ∧
      bytesAreProper minus32Word = .ok () ∧ 2 ^ 63 - 32 ≤ beNat (Buffer.slice minus32Word 24 32) ∧
      beNat (Buffer.slice minus32Word 24 32) ≤ 2 ^ 64 - 25 ∧
      bytesABI.unpack anyTarget "get" minus32Word = .error .panic := by
  have hmethod : bytesABI.methods "get" = some ⟨[⟨.base .bytesTy .other 0, false⟩]⟩ := by
    simp [bytesABI]
  have hproper : bytesAreProper minus32Word = .ok () := rfl
  have hword : beNat (Buffer.slice minus32Word 24 32) = 2 ^ 64 - 32 := by decide
  exact ⟨hmethod, hproper, by rw [hword]; norm_num, by rw [hword]; norm_num,
    unpack_offset_panics bytesABI anyTarget "get" minus32Word _ _ hmethod rfl rfl rfl hproper
      (by rw [hword]; norm_num) (by rw [hword]; norm_num)⟩

end GoXdn.Abi
