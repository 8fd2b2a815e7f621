import Mathlib
import GoXdn.Rlp.Decode

/-!
# The encoder writes the RLP encoding

`putint` writes a number big-endian in as few bytes as it needs (`beNat_putint`,
`putint_head_ne_zero`), and it is the only such byte string (`putint_beNat`), so sizes and
integers have one encoding each.

An `encbuf` written after another is the second one moved past the first one's string data
(`Encbuf.join`): every writer writes the same thing at any position (`writeInterface_join`), and
`toBytes` of the two is the concatenation of their outputs once the first one's lists are closed
(`toBytes_join`).  From that, `encodeToBytes` of a value is `Value.encode`
(`encodeToBytes_writeInterface`): the headers `listEnd` computes are the lengths of the
encodings under them.
-/

namespace GoXdn.Rlp

open GoStd

/-! ### Integers -/

@[simp]
theorem length_putbytes (k i : ℕ) : (putbytes k i).length = k := by
  induction k generalizing i with
  | zero => rfl
  | succ k ih => simp [putbytes, ih]

theorem beNat_putbytes (k i : ℕ) : beNat (putbytes k i) = i % 256 ^ k := by
  induction k generalizing i with
  | zero => simp [putbytes, beNat, Nat.mod_one]
  | succ k ih =>
    rw [putbytes, beNat_append, ih, pow_succ', Nat.mod_mul]
    simp [beNat]
    ring

theorem intsizeAux_eq_log : ∀ fuel i, i ≤ fuel → intsizeAux fuel i = Nat.log 256 i + 1
  | 0, i, h => by
    obtain rfl : i = 0 := by omega
    simp [intsizeAux]
  | fuel + 1, i, h => by
    rw [intsizeAux]
    split_ifs with h0
    · have : Nat.log 256 i = 0 := Nat.log_eq_zero_iff.2 (Or.inl (by omega))
      omega
    · rw [intsizeAux_eq_log fuel (i / 256) (by omega), Nat.log_div_base]
      have : Nat.log 256 i ≠ 0 := fun h' => by
        rw [Nat.log_eq_zero_iff] at h'
        omega
      omega

theorem intsize_eq_log (i : ℕ) : intsize i = Nat.log 256 i + 1 :=
  intsizeAux_eq_log i i le_rfl

theorem lt_pow_intsize (i : ℕ) : i < 256 ^ intsize i := by
  rw [intsize_eq_log]
  exact Nat.lt_pow_succ_log_self (by norm_num) i

theorem pow_intsize_le {i : ℕ} (h : i ≠ 0) : 256 ^ (intsize i - 1) ≤ i := by
  rw [intsize_eq_log, Nat.add_sub_cancel]
  exact Nat.pow_log_le_self 256 h

theorem intsize_of_bounds {i k : ℕ} (h₁ : 256 ^ k ≤ i) (h₂ : i < 256 ^ (k + 1)) :
    intsize i = k + 1 := by
  rw [intsize_eq_log, Nat.log_eq_of_pow_le_of_lt_pow h₁ h₂]

/-- A number below `2^64` takes at most eight bytes: a `uint64` size. -/
theorem intsize_le_eight {i : ℕ} (h : i < 2 ^ 64) : intsize i ≤ 8 := by
  rw [intsize_eq_log]
  rcases Nat.eq_zero_or_pos i with rfl | hi
  · simp
  · have : Nat.log 256 i < 8 := Nat.log_lt_of_lt_pow hi.ne' (by norm_num; omega)
    omega

theorem intsize_div {i : ℕ} (h : 256 ≤ i) : intsize i = intsize (i / 256) + 1 := by
  rw [intsize_eq_log, intsize_eq_log, Nat.log_div_base]
  have : Nat.log 256 i ≠ 0 := fun h' => by
    rw [Nat.log_eq_zero_iff] at h'
    omega
  omega

@[simp]
theorem length_putint (i : ℕ) : (putint i).length = intsize i := length_putbytes _ _

@[simp]
theorem beNat_putint (i : ℕ) : beNat (putint i) = i := by
  rw [putint, beNat_putbytes, Nat.mod_eq_of_lt (lt_pow_intsize i)]

/-- `putint` peels the last byte off: the recursion `x.Bytes()` makes. -/
theorem putint_eq (i : ℕ) :
    putint i = (if i < 256 then [] else putint (i / 256)) ++ [UInt8.ofNat i] := by
  split_ifs with h
  · have : intsize i = 1 := by rw [intsize_eq_log, Nat.log_eq_zero_iff.2 (Or.inl h)]
    rw [putint, this, putbytes, putbytes]
  · rw [putint, intsize_div (by omega), putbytes, putint]

theorem putint_head_ne_zero {i : ℕ} (h : i ≠ 0) : (putint i).head? ≠ some 0 := by
  intro h0
  obtain ⟨t, ht⟩ : ∃ t, putint i = 0 :: t := by
    cases hp : putint i with
    | nil => simp [hp] at h0
    | cons x t =>
      rw [hp, List.head?_cons, Option.some_inj] at h0
      exact ⟨t, by rw [h0]⟩
  have hlen : t.length = intsize i - 1 := by
    have := length_putint i
    rw [ht, List.length_cons] at this
    omega
  have hlt : beNat (putint i) < 256 ^ (intsize i - 1) := by
    rw [ht, beNat_cons, ← hlen]
    simpa using beNat_lt t
  rw [beNat_putint] at hlt
  exact absurd (pow_intsize_le h) (not_le.2 hlt)

theorem putbytes_beNat (b : List UInt8) : putbytes b.length (beNat b) = b := by
  induction b using List.reverseRecOn with
  | nil => rfl
  | append_singleton b x ih =>
    have hx : x.toNat < 256 := x.toNat_lt
    have hx' : beNat (b ++ [x]) = beNat b * 256 + x.toNat := by
      rw [beNat_append]
      simp [beNat]
    have hdiv : beNat (b ++ [x]) / 256 = beNat b := by
      rw [hx']
      omega
    have hmod : UInt8.ofNat (beNat (b ++ [x])) = x := by
      rw [hx', ← UInt8.toNat_inj, UInt8.toNat_ofNat']
      omega
    rw [List.length_append, List.length_singleton, putbytes, hdiv, hmod, ih]

/-- A byte string with no leading zero byte is the `putint` of its value. -/
theorem putint_beNat {b : List UInt8} (hb : b ≠ []) (h0 : b.head? ≠ some 0) :
    putint (beNat b) = b := by
  obtain ⟨x, t, rfl⟩ := List.exists_cons_of_ne_nil hb
  have hx : 1 ≤ x.toNat := by
    have : x ≠ 0 := fun h => h0 (by rw [h, List.head?_cons])
    have : x.toNat ≠ 0 := fun h => this (UInt8.toNat_inj.1 (by rw [h]; rfl))
    omega
  have hsize : intsize (beNat (x :: t)) = t.length + 1 := by
    apply intsize_of_bounds
    · calc 256 ^ t.length ≤ x.toNat * 256 ^ t.length := Nat.le_mul_of_pos_left _ hx
        _ ≤ beNat (x :: t) := by rw [beNat_cons]; exact Nat.le_add_right _ _
    · rw [← List.length_cons]
      exact beNat_lt _
  rw [putint, hsize, ← List.length_cons]
  exact putbytes_beNat _

theorem bigBytesAux_eq : ∀ fuel n, n ≤ fuel → bigBytesAux fuel n = if n = 0 then [] else putint n
  | 0, n, h => by
    obtain rfl : n = 0 := by omega
    rfl
  | fuel + 1, n, h => by
    rw [bigBytesAux]
    split_ifs with h0
    · rfl
    · rw [bigBytesAux_eq fuel (n / 256) (by omega), putint_eq n]
      congr 1
      split_ifs <;> first | rfl | omega

/-- `x.Bytes()` is `putint` but for zero, whose bytes are none. -/
theorem bigBytes_eq (n : ℕ) : bigBytes n = if n = 0 then [] else putint n :=
  bigBytesAux_eq n n le_rfl

/-! ### Headers -/

@[simp]
theorem length_puthead (smalltag largetag : UInt8) (size : ℕ) :
    (puthead smalltag largetag size).length = headsize size := by
  unfold puthead headsize
  split_ifs <;> simp [Nat.add_comm]

theorem toNat_tag {t : UInt8} {n : ℕ} (h : t.toNat + n < 256) :
    (t + UInt8.ofNat n).toNat = t.toNat + n := by
  rw [UInt8.toNat_add, UInt8.toNat_ofNat']
  omega

/-! ### Buffers written one after another -/

/-- A list header moved `n` bytes on in the string data. -/
def ListHead.shift (n : ℕ) (h : ListHead) : ListHead := { h with offset := n + h.offset }

namespace Encbuf

/-- `u` written after `w`: its string data after `w`'s, its headers moved past `w`'s data. -/
def join (w u : Encbuf) : Encbuf :=
  ⟨w.str ++ u.str, w.lheads ++ u.lheads.map (ListHead.shift w.str.length), w.lhsize + u.lhsize⟩

/-- `u` closed as a list: a header at its start over all of it. -/
def closeList (u : Encbuf) : Encbuf := ⟨u.str, ⟨0, u.size⟩ :: u.lheads, u.lhsize + headsize u.size⟩

/-- Every header lies within the string data: no list is left to be written at the end. -/
def Closed (w : Encbuf) : Prop := ∀ h ∈ w.lheads, h.offset ≤ w.str.length

@[simp]
theorem shift_zero : ListHead.shift 0 = id := by
  funext h
  simp [ListHead.shift]

theorem shift_shift (a b : ℕ) : ListHead.shift a ∘ ListHead.shift b = ListHead.shift (a + b) := by
  funext h
  simp [ListHead.shift, Nat.add_assoc]

@[simp]
theorem empty_join (u : Encbuf) : empty.join u = u := by
  simp [join, empty]

@[simp]
theorem join_empty (w : Encbuf) : w.join empty = w := by
  simp [join, empty]

theorem join_assoc (w u v : Encbuf) : (w.join u).join v = w.join (u.join v) := by
  simp only [join, List.length_append, List.map_append, List.map_map, shift_shift,
    List.append_assoc, Nat.add_assoc]

theorem append_eq_join (w : Encbuf) (b : List UInt8) : w.append b = w.join ⟨b, [], 0⟩ := by
  simp [append, join]

theorem encodeString_eq (w : Encbuf) (b : List UInt8) :
    w.encodeString b = w.append (strEncoding b) := by
  unfold encodeString strEncoding encodeStringHeader puthead
  split
  · split_ifs <;> simp_all [append]
  · split_ifs <;> simp [append]

/-- Closing a list opened on `w` after writing `u` in it closes `u` as a list after `w`. -/
theorem listEnd_join_list (w u : Encbuf) :
    (w.list.2.join u).listEnd w.list.1 = w.join u.closeList := by
  simp only [list, join, listEnd, closeList, size, List.length_append]
  have hget : (w.lheads ++ [(⟨w.str.length, w.lhsize⟩ : ListHead)] ++
      u.lheads.map (ListHead.shift w.str.length)).getD w.lheads.length ⟨0, 0⟩ =
      ⟨w.str.length, w.lhsize⟩ := by
    rw [List.append_assoc, List.getD_eq_getElem?_getD, List.getElem?_append_right le_rfl]
    simp
  have hsize : w.str.length + u.str.length + (w.lhsize + u.lhsize) - w.str.length - w.lhsize =
      u.str.length + u.lhsize := by omega
  rw [hget]
  dsimp only
  rw [hsize, List.append_assoc, List.singleton_append, List.set_append_right _ _ (by omega),
    Nat.sub_self, List.set_cons_zero]
  simp only [ListHead.shift, List.map_cons, Nat.add_zero, headsize, Nat.add_assoc]

@[simp]
theorem size_join (w u : Encbuf) : (w.join u).size = w.size + u.size := by
  simp only [size, join, List.length_append]
  omega

@[simp]
theorem size_closeList (u : Encbuf) : u.closeList.size = u.size + headsize u.size := by
  simp only [size, closeList]
  omega

theorem closed_join {w u : Encbuf} (hw : w.Closed) (hu : u.Closed) : (w.join u).Closed := by
  intro h hh
  simp only [join, List.mem_append, List.mem_map, List.length_append] at hh ⊢
  rcases hh with hh | ⟨h', hh', rfl⟩
  · have := hw h hh
    omega
  · have := hu h' hh'
    simp only [ListHead.shift]
    omega

theorem closed_closeList {u : Encbuf} (hu : u.Closed) : u.closeList.Closed := by
  intro h hh
  simp only [closeList, List.mem_cons] at hh ⊢
  rcases hh with rfl | hh
  · exact Nat.zero_le _
  · exact hu h hh

end Encbuf

open Encbuf

/-! ### `toBytes` over joined buffers -/

theorem toBytesFrom_shift (s₁ s₂ : List UInt8) :
    ∀ (hs : List ListHead) (q : ℕ),
      toBytesFrom (s₁ ++ s₂) (s₁.length + q) (hs.map (ListHead.shift s₁.length)) =
        toBytesFrom s₂ q hs
  | [], q => by simp [toBytesFrom, List.drop_append]
  | h :: hs, q => by
    simp only [List.map_cons, toBytesFrom, ListHead.shift]
    rw [toBytesFrom_shift s₁ s₂ hs h.offset, Buffer.slice_append_right (by omega)]
    simp

theorem toBytesFrom_append_shift (s₁ s₂ : List UInt8) {p : ℕ} (hp : p ≤ s₁.length) :
    ∀ hs : List ListHead, toBytesFrom (s₁ ++ s₂) p (hs.map (ListHead.shift s₁.length)) =
      s₁.drop p ++ toBytesFrom s₂ 0 hs
  | [] => by simp [toBytesFrom, List.drop_append_of_le_length hp]
  | h :: hs => by
    simp only [List.map_cons, toBytesFrom, ListHead.shift]
    rw [Buffer.slice_append_of_le hp, toBytesFrom_shift]
    simp [Buffer.slice]

theorem toBytesFrom_append (s₁ s₂ : List UInt8) (hs₂ : List ListHead) :
    ∀ (hs₁ : List ListHead) (p : ℕ), p ≤ s₁.length → (∀ h ∈ hs₁, h.offset ≤ s₁.length) →
      toBytesFrom (s₁ ++ s₂) p (hs₁ ++ hs₂.map (ListHead.shift s₁.length)) =
        toBytesFrom s₁ p hs₁ ++ toBytesFrom s₂ 0 hs₂
  | [], p, hp, _ => by
    rw [List.nil_append, toBytesFrom_append_shift s₁ s₂ hp]
    rfl
  | h :: hs₁, p, _, hh => by
    have hoff : h.offset ≤ s₁.length := hh h List.mem_cons_self
    simp only [List.cons_append, toBytesFrom]
    rw [Buffer.slice_append_left hoff,
      toBytesFrom_append s₁ s₂ hs₂ hs₁ h.offset hoff (fun h' h'm => hh h' (List.mem_cons_of_mem _ h'm))]
    simp

theorem toBytes_join {w : Encbuf} (hw : w.Closed) (u : Encbuf) :
    (w.join u).toBytes = w.toBytes ++ u.toBytes :=
  toBytesFrom_append w.str u.str u.lheads w.lheads 0 (Nat.zero_le _) hw

theorem toBytes_closeList (u : Encbuf) :
    u.closeList.toBytes = puthead 0xC0 0xF7 u.size ++ u.toBytes := by
  simp [closeList, toBytes, toBytesFrom, Buffer.slice]

/-! ### The writers -/

mutual
/-- Every writer writes the same bytes wherever it starts. -/
theorem writeInterface_join : ∀ (v : Value) (w : Encbuf), writeInterface v w = w.join (writeInterface v .empty)
  | .str b, w => by
    simp only [writeInterface, writeBytes, encodeString_eq, append_eq_join, empty_join]
  | .list vs, w => by
    simp only [writeInterface]
    rw [writeElems_join vs, writeElems_join vs empty.list.2, listEnd_join_list, listEnd_join_list,
      empty_join]
theorem writeElems_join : ∀ (vs : List Value) (w : Encbuf), writeElems vs w = w.join (writeElems vs .empty)
  | [], w => by simp [writeElems]
  | v :: vs, w => by
    simp only [writeElems]
    rw [writeElems_join vs, writeElems_join vs (writeInterface v .empty), writeInterface_join v w,
      join_assoc]
end

theorem writeInterface_list (vs : List Value) :
    writeInterface (.list vs) .empty = (writeElems vs .empty).closeList := by
  simp only [writeInterface]
  rw [writeElems_join vs, listEnd_join_list, empty_join]

mutual
theorem writeInterface_encodes : ∀ v : Value,
    (writeInterface v .empty).Closed ∧ (writeInterface v .empty).toBytes = v.encode ∧
      (writeInterface v .empty).size = v.encode.length
  | .str b => by
    simp only [writeInterface, writeBytes, encodeString_eq]
    refine ⟨by simp [Closed, append, empty], ?_, ?_⟩
    · simp [toBytes, toBytesFrom, append, empty, Value.encode]
    · simp [size, append, empty, Value.encode]
  | .list vs => by
    obtain ⟨hc, hb, hs⟩ := writeElems_encodes vs
    rw [writeInterface_list]
    refine ⟨closed_closeList hc, ?_, ?_⟩
    · rw [toBytes_closeList, hb, hs, Value.encode]
    · rw [size_closeList, hs, Value.encode, List.length_append, length_puthead, Nat.add_comm]
theorem writeElems_encodes : ∀ vs : List Value,
    (writeElems vs .empty).Closed ∧ (writeElems vs .empty).toBytes = Value.encodeAll vs ∧
      (writeElems vs .empty).size = (Value.encodeAll vs).length
  | [] => by simp [writeElems, Closed, empty, toBytes, toBytesFrom, size, Value.encodeAll]
  | v :: vs => by
    obtain ⟨hc, hb, hs⟩ := writeInterface_encodes v
    obtain ⟨hc', hb', hs'⟩ := writeElems_encodes vs
    simp only [writeElems]
    rw [writeElems_join]
    refine ⟨closed_join hc hc', ?_, ?_⟩
    · rw [toBytes_join hc, hb, hb', Value.encodeAll]
    · rw [size_join, hs, hs', Value.encodeAll, List.length_append]
end

/-- `EncodeToBytes` of a value is its RLP encoding. -/
theorem encodeToBytes_writeInterface (v : Value) : encodeToBytes writeInterface v = v.encode :=
  (writeInterface_encodes v).2.1

/-- Bytes written straight into the string data come out as they are. -/
theorem toBytes_append_empty (b : List UInt8) : (Encbuf.empty.append b).toBytes = b := by
  simp [toBytes, toBytesFrom, append, empty]

/-! ### Strings, integers and big integers written -/

theorem strEncoding_eq (b : List UInt8) :
    strEncoding b = if b.length = 1 ∧ b.headD 0 ≤ 0x7F then b
      else puthead 0x80 0xB7 b.length ++ b := by
  unfold strEncoding
  split
  · rename_i x
    by_cases hx : x ≤ 0x7F <;> simp [hx]
  · rename_i hne
    rw [if_neg]
    rintro ⟨h1, -⟩
    obtain ⟨x, rfl⟩ := List.length_eq_one_iff.1 h1
    exact hne x rfl

theorem headsize_pos (n : ℕ) : 0 < headsize n := by
  unfold headsize
  split <;> omega

theorem length_le_strEncoding (b : List UInt8) : b.length ≤ (strEncoding b).length := by
  rw [strEncoding_eq]
  split_ifs <;> simp

theorem length_encode_pos : ∀ v : Value, 0 < v.encode.length
  | .str b => by
    rw [Value.encode, strEncoding_eq]
    split_ifs with h
    · omega
    · simp only [List.length_append, length_puthead]
      have := headsize_pos b.length
      omega
  | .list vs => by
    simp only [Value.encode, List.length_append, length_puthead]
    have := headsize_pos (Value.encodeAll vs).length
    omega

theorem length_le_encodeAll : ∀ vs : List Value, vs.length ≤ (Value.encodeAll vs).length
  | [] => by simp [Value.encodeAll]
  | v :: vs => by
    have := length_encode_pos v
    have := length_le_encodeAll vs
    simp only [Value.encodeAll, List.length_append, List.length_cons]
    omega


theorem toUInt8_eq (n : UInt64) : n.toUInt8 = UInt8.ofNat n.toNat := by
  rw [← UInt8.toNat_inj, UInt64.toNat_toUInt8, UInt8.toNat_ofNat']

/-- The single byte of a number below 256. -/
theorem putint_of_lt {n : ℕ} (h : n < 256) : putint n = [UInt8.ofNat n] := by
  rw [putint_eq, if_pos h, List.nil_append]

theorem toNat_ofNat_of_lt {n : ℕ} (h : n < 256) : (UInt8.ofNat n).toNat = n := by
  rw [UInt8.toNat_ofNat']
  omega

/-- `putint` of a number from 128 on is never a single byte below 0x80. -/
theorem strEncoding_putint {n : ℕ} (h : 128 ≤ n) :
    strEncoding (putint n) = puthead 0x80 0xB7 (intsize n) ++ putint n := by
  rw [strEncoding_eq, if_neg, length_putint]
  rintro ⟨h1, h2⟩
  have hlt : n < 256 := by
    have := lt_pow_intsize n
    rw [← length_putint, h1] at this
    simpa using this
  rw [putint_of_lt hlt] at h2
  simp only [List.headD_cons, UInt8.le_iff_toNat_le, toNat_ofNat_of_lt hlt,
    UInt8.reduceToNat] at h2
  omega

/-- `writeUint` writes the string of the number's bytes. -/
theorem encodeToBytes_writeUint (n : UInt64) :
    encodeToBytes writeUint n = strEncoding (bigBytes n.toNat) := by
  have hlt := n.toNat_lt
  rw [encodeToBytes, writeUint, bigBytes_eq]
  by_cases h0 : n = 0
  · subst h0
    simp [toBytes_append_empty, strEncoding, puthead]
  have hN : n.toNat ≠ 0 := fun h => h0 (UInt64.toNat_inj.1 (by simpa using h))
  rw [if_neg h0, if_neg hN]
  split_ifs with h128
  · have h128' : n.toNat < 128 := by simpa [UInt64.lt_iff_toNat_lt] using h128
    rw [toBytes_append_empty, putint_of_lt (by omega), toUInt8_eq]
    simp only [strEncoding, UInt8.le_iff_toNat_le, toNat_ofNat_of_lt (by omega : n.toNat < 256),
      UInt8.reduceToNat]
    rw [if_pos (by omega)]
  · have h128' : 128 ≤ n.toNat := by simpa [UInt64.lt_iff_toNat_lt] using h128
    have h8 := intsize_le_eight hlt
    rw [toBytes_append_empty, strEncoding_putint h128', puthead, if_pos (by omega)]
    rfl

/-- A byte string with no leading zero byte is `x.Bytes()` of its value. -/
theorem bigBytes_beNat {b : List UInt8} (h0 : b.head? ≠ some 0) : bigBytes (beNat b) = b := by
  rcases b with _ | ⟨x, t⟩
  · rfl
  · have hx : x ≠ 0 := fun h => h0 (by rw [h, List.head?_cons])
    have hpos : beNat (x :: t) ≠ 0 := by
      rw [beNat_cons]
      have : 0 < x.toNat := Nat.pos_of_ne_zero (fun h => hx (UInt8.toNat_inj.1 (by rw [h]; rfl)))
      have : 0 < 256 ^ t.length := pow_pos (by norm_num) _
      positivity
    rw [bigBytes_eq, if_neg hpos, putint_beNat (List.cons_ne_nil _ _) h0]


theorem encodeBigIntToBytes_eq {x : ℤ} (hx : 0 ≤ x) :
    encodeBigIntToBytes x = .ok (strEncoding (bigBytes x.toNat)) := by
  unfold encodeBigIntToBytes writeBigInt
  rw [if_neg (by omega)]
  split_ifs with h0
  · subst h0
    simp [Except.map, toBytes_append_empty, bigBytes_eq, strEncoding, puthead]
  · simp [Except.map, Encbuf.encodeString_eq, toBytes_append_empty]

@[simp]
theorem beNat_bigBytes (n : ℕ) : beNat (bigBytes n) = n := by
  rw [bigBytes_eq]
  split_ifs with h
  · simp [beNat, h]
  · exact beNat_putint n

end GoXdn.Rlp
