import Mathlib
import GoXdn.Proofs.RlpEncode

/-!
# Three ways out of the encoder

`EncodeToBytes` interleaves the list headers with the string data in one buffer (`toBytes`),
`Encode` writes the same pieces to an `io.Writer` one by one (`toWriter`), and `EncodeToReader`
hands them out through `Read` calls of whatever sizes the caller picks (`encReader`). The three
agree because the encoder opens its lists in the order of their starts: the headers' offsets
never go down (`Encbuf.Ordered`), so each path walks the string data once, from the front,
stopping at each header.

The reader is followed through the bytes it has yet to give (`EncReader.pending`): every piece
`next` hands out is a non-empty prefix of them, every `Read` returns a prefix and keeps the rest,
and one that does not meet the end returns at least one byte. So successive reads of positive
sizes meet `io.EOF` within `size + 1` calls, having returned exactly what `toBytes` gives
(`encode_outputs_agree`).
-/

namespace GoXdn.Rlp

open Encbuf

namespace Encbuf

/-- The headers' offsets never go down: the lists were opened in the order of their starts. -/
def Ordered (w : Encbuf) : Prop := (w.lheads.map ListHead.offset).Pairwise (· ≤ ·)

theorem ordered_join {w u : Encbuf} (hwc : w.Closed) (hw : w.Ordered) (hu : u.Ordered) :
    (w.join u).Ordered := by
  unfold Ordered join at *
  simp only [List.map_append, List.map_map, List.pairwise_append]
  refine ⟨hw, ?_, ?_⟩
  · rw [List.pairwise_map] at hu ⊢
    exact hu.imp fun h => by simp only [Function.comp, ListHead.shift]; omega
  · intro a ha b hb
    obtain ⟨h, hh, rfl⟩ := List.mem_map.mp ha
    obtain ⟨h', -, rfl⟩ := List.mem_map.mp hb
    have := hwc h hh
    simp only [Function.comp, ListHead.shift]
    omega

theorem ordered_closeList {u : Encbuf} (hu : u.Ordered) : u.closeList.Ordered := by
  unfold Ordered closeList at *
  simp only [List.map_cons, List.pairwise_cons]
  exact ⟨fun _ _ => Nat.zero_le _, hu⟩

end Encbuf

mutual
theorem writeInterface_ordered : ∀ v : Value, (writeInterface v .empty).Ordered
  | .str b => by
    simp [writeInterface, writeBytes, encodeString_eq, Ordered, append, empty]
  | .list vs => by
    rw [writeInterface_list]
    exact ordered_closeList (writeElems_ordered vs)
theorem writeElems_ordered : ∀ vs : List Value, (writeElems vs .empty).Ordered
  | [] => by simp [writeElems, Ordered, empty]
  | v :: vs => by
    simp only [writeElems]
    rw [writeElems_join]
    exact ordered_join (writeInterface_encodes v).1 (writeInterface_ordered v) (writeElems_ordered vs)
end

/-! ### The writer path -/

/-- From a string position at or before every header left, the chunks `toWriter` writes are the
bytes `toBytes` copies. -/
theorem flatten_toWriterFrom (str : List UInt8) :
    ∀ (heads : List ListHead) (strpos : ℕ), (∀ h ∈ heads, strpos ≤ h.offset) →
      (heads.map ListHead.offset).Pairwise (· ≤ ·) →
      (toWriterFrom str strpos heads).flatten = toBytesFrom str strpos heads
  | [], strpos, _, _ => by
    unfold toWriterFrom toBytesFrom
    split_ifs with h
    · simp
    · simp [List.drop_eq_nil_of_le (Nat.le_of_not_lt h)]
  | head :: heads, strpos, hle, hord => by
    rw [List.map_cons, List.pairwise_cons] at hord
    have hnext : ∀ h ∈ heads, head.offset ≤ h.offset := fun h hh => hord.1 _ (List.mem_map_of_mem hh)
    unfold toWriterFrom
    split_ifs with hlt
    · rw [List.flatten_cons, List.flatten_cons, flatten_toWriterFrom str heads head.offset hnext hord.2,
        toBytesFrom, List.append_assoc]
    · have heq : head.offset = strpos := le_antisymm (Nat.le_of_not_lt hlt) (hle head List.mem_cons_self)
      rw [List.flatten_cons, toBytesFrom, heq, flatten_toWriterFrom str heads strpos (heq ▸ hnext) hord.2]
      simp [Buffer.slice]

theorem flatten_toWriter {w : Encbuf} (ho : w.Ordered) : w.toWriter.flatten = w.toBytes :=
  flatten_toWriterFrom w.str w.lheads 0 (fun _ _ => Nat.zero_le _) ho

/-! ### The reader path -/

namespace EncReader

/-- What is left of the buffer from the list header and string position the reader reached. -/
def rest (r : EncReader) : List UInt8 :=
  match r.buf with
  | none => []
  | some buf => toBytesFrom buf.str r.strpos (buf.lheads.drop r.lhpos)

/-- The bytes the reader has yet to give: its piece, then the rest of the buffer; nothing once
the buffer is released. -/
def pending (r : EncReader) : List UInt8 :=
  match r.buf with
  | none => []
  | some _ => r.piece ++ r.rest

/-- The buffer is one the encoder closed, its headers in order, and none of the headers left
starts before the string position. -/
def Inv (r : EncReader) : Prop :=
  match r.buf with
  | none => True
  | some buf => buf.Closed ∧ buf.Ordered ∧ ∀ h ∈ buf.lheads.drop r.lhpos, r.strpos ≤ h.offset

theorem pending_of_buf {r : EncReader} {buf : Encbuf} (h : r.buf = some buf) :
    r.pending = r.piece ++ toBytesFrom buf.str r.strpos (buf.lheads.drop r.lhpos) := by
  simp only [pending, rest, h]

theorem inv_of_buf {r : EncReader} {buf : Encbuf} (h : r.buf = some buf) (hi : r.Inv) :
    buf.Closed ∧ buf.Ordered ∧ ∀ h ∈ buf.lheads.drop r.lhpos, r.strpos ≤ h.offset := by
  simpa only [Inv, h] using hi

/-- `next` at the end: nothing was pending. -/
theorem next_none {r r' : EncReader} (h : r.next = (none, r')) : r.pending = [] := by
  unfold next at h
  rcases hb : r.buf with _ | buf
  · simp [pending, hb]
  rw [hb] at h
  dsimp only at h
  split_ifs at h with hp hl hs hs'
  · cases h
  · cases h
  · cases h
  · cases h
  rw [pending_of_buf hb, not_not.mp hp, List.drop_eq_nil_of_le (Nat.le_of_not_lt hl)]
  simp [toBytesFrom, List.drop_eq_nil_of_le (Nat.le_of_not_lt hs')]

/-- `next` handing out a piece: a non-empty prefix of what was pending, the rest left to the
reader without its piece. -/
theorem next_some {r r' : EncReader} {p : List UInt8} (hi : r.Inv) (h : r.next = (some p, r')) :
    p ≠ [] ∧ r'.buf = r.buf ∧ { r' with piece := [] }.Inv ∧
      p ++ { r' with piece := [] }.pending = r.pending := by
  unfold next at h
  rcases hb : r.buf with _ | buf
  · rw [hb] at h
    cases h
  obtain ⟨hc, ho, hbelow⟩ := inv_of_buf hb hi
  rw [hb] at h
  dsimp only at h
  split_ifs at h with hp hl hs hs'
  · cases h
    refine ⟨hp, hb, ?_, ?_⟩
    · simpa only [Inv, hb] using ⟨hc, ho, hbelow⟩
    · simp only [pending, rest, hb, List.nil_append]
  · cases h
    have hdrop := List.drop_eq_getElem_cons hl
    have hhead : buf.lheads[r.lhpos] ∈ buf.lheads := List.getElem_mem hl
    have hord : ((buf.lheads.drop r.lhpos).map ListHead.offset).Pairwise (· ≤ ·) :=
      ho.sublist ((List.drop_sublist _ _).map _)
    rw [hdrop, List.map_cons, List.pairwise_cons] at hord
    refine ⟨?_, rfl, ?_, ?_⟩
    · have := hc _ hhead
      rw [ne_eq, ← List.length_eq_zero_iff, Buffer.length_slice]
      omega
    · simp only [Inv]
      refine ⟨hc, ho, fun h' hh' => ?_⟩
      rw [hdrop, List.mem_cons] at hh'
      rcases hh' with rfl | hh'
      · exact le_rfl
      · exact hord.1 _ (List.mem_map_of_mem hh')
    · simp only [pending, rest, hb, not_not.mp hp, List.nil_append]
      rw [hdrop, toBytesFrom, toBytesFrom]
      simp [Buffer.slice]
  · cases h
    have hdrop := List.drop_eq_getElem_cons hl
    have heq : buf.lheads[r.lhpos].offset = r.strpos :=
      le_antisymm (Nat.le_of_not_lt hs) (hbelow _ (by rw [hdrop]; exact List.mem_cons_self))
    refine ⟨?_, rfl, ?_, ?_⟩
    · rw [ne_eq, ← List.length_eq_zero_iff, length_puthead]
      exact (headsize_pos _).ne'
    · simp only [Inv]
      refine ⟨hc, ho, fun h' hh' => hbelow h' ?_⟩
      rw [hdrop]
      exact List.mem_cons_of_mem _ hh'
    · simp only [pending, rest, hb, not_not.mp hp, List.nil_append]
      rw [hdrop, toBytesFrom, heq]
      simp [Buffer.slice]
  · cases h
    have hnil := List.drop_eq_nil_of_le (Nat.le_of_not_lt hl)
    refine ⟨by simpa [List.drop_eq_nil_iff] using hs', rfl, ?_, ?_⟩
    · simp only [Inv]
      refine ⟨hc, ho, fun h' hh' => ?_⟩
      rw [hnil] at hh'
      cases hh'
    · simp only [pending, rest, hb, not_not.mp hp, List.nil_append, hnil]
      simp [toBytesFrom]
  · cases h

theorem pending_piece {r : EncReader} {buf : Encbuf} (h : r.buf = some buf) (x : List UInt8) :
    { r with piece := x }.pending = x ++ { r with piece := [] }.pending := by
  simp only [pending, rest, h, List.nil_append]

/-- A `Read` loop returns a prefix of what was pending and keeps the rest; at `io.EOF` nothing is
left, and a pass with room in `b` that does not meet the end copies a byte. -/
theorem readLoop_spec {k : ℕ} : ∀ (fuel : ℕ) (out : List UInt8) (r : EncReader) {res : List UInt8}
    {eof : Bool} {r' : EncReader}, r.Inv → readLoop k fuel out r = (res, eof, r') →
    r'.Inv ∧ ∃ bytes, res = out ++ bytes ∧ bytes ++ r'.pending = r.pending ∧
      (eof = true → r'.pending = []) ∧ (0 < fuel → out.length < k → eof = false → bytes ≠ [])
  | 0, out, r, res, eof, r', hi, h => by
    cases h
    exact ⟨hi, [], by simp, by simp, by simp, by simp⟩
  | fuel + 1, out, r, res, eof, r', hi, h => by
    rw [readLoop] at h
    rcases hn : r.next with ⟨_ | piece, r₁⟩
    · rw [hn] at h
      cases h
      have hp := next_none hn
      exact ⟨trivial, [], by simp, by rw [hp]; rfl, fun _ => rfl, by simp⟩
    rw [hn] at h
    dsimp only at h
    obtain ⟨hne, hbuf, hi₁, hpend⟩ := next_some hi hn
    obtain ⟨buf, hb⟩ : ∃ buf, r₁.buf = some buf := by
      rcases hr : r.buf with _ | buf
      · simp [next, hr] at hn
      · exact ⟨buf, hbuf.trans hr⟩
    split_ifs at h with hfit
    · cases h
      refine ⟨hi₁, _, rfl, ?_, by simp, fun _ hroom _ => ?_⟩
      · rw [← hpend, pending_piece hb, ← List.append_assoc, List.take_append_drop]
      · rw [ne_eq, List.take_eq_nil_iff, not_or]
        exact ⟨by omega, hne⟩
    · obtain ⟨hi', bytes, hres, hbytes, heof, -⟩ := readLoop_spec fuel _ _ hi₁ h
      refine ⟨hi', piece ++ bytes, by rw [hres, List.append_assoc], ?_, heof, fun _ _ _ => by simp [hne]⟩
      rw [List.append_assoc, hbytes, hpend]

end EncReader

/-- Successive `Read` calls with buffers of `ks i` bytes from the `i`-th call on, `fuel` passes
each: what they return up to and with the call that returns `io.EOF`, or `none` if none of
`calls` calls does. -/
def readAll (fuel : ℕ) (ks : ℕ → ℕ) : ℕ → ℕ → EncReader → Option (List UInt8)
  | 0, _, _ => none
  | calls + 1, i, r =>
    match r.read (ks i) fuel with
    | (bytes, true, _) => some bytes
    | (bytes, false, r) => (readAll fuel ks calls (i + 1) r).map (bytes ++ ·)

/-- Reads of positive sizes meet the end within one call more than there are bytes pending, and
return all of them. -/
theorem readAll_pending {ks : ℕ → ℕ} (hks : ∀ i, 0 < ks i) (fuel : ℕ) :
    ∀ (calls i : ℕ) (r : EncReader), r.Inv → r.pending.length < calls →
      readAll (fuel + 1) ks calls i r = some r.pending
  | 0, _, _, _, hlen => absurd hlen (Nat.not_lt_zero _)
  | calls + 1, i, r, hi, hlen => by
    rw [readAll]
    rcases hread : r.read (ks i) (fuel + 1) with ⟨res, eof, r'⟩
    obtain ⟨hi', bytes, hres, hbytes, heof, hprog⟩ := EncReader.readLoop_spec _ _ _ hi hread
    rw [List.nil_append] at hres
    subst hres
    cases eof with
    | true => rw [← hbytes, heof rfl, List.append_nil]
    | false =>
      have hne := hprog (Nat.succ_pos _) (hks i) rfl
      have hshort : r'.pending.length < calls := by
        have := congrArg List.length hbytes
        rw [List.length_append] at this
        have := List.length_pos_iff.mpr hne
        omega
      dsimp only
      rw [readAll_pending hks fuel calls (i + 1) r' hi' hshort, Option.map_some, hbytes]

theorem encode_outputs_agree (v : Value) (ks : ℕ → ℕ) (hks : ∀ i, 0 < ks i) (fuel : ℕ) :
    (encode writeInterface v).flatten = encodeToBytes writeInterface v ∧
      readAll (fuel + 1) ks ((encodeToReader writeInterface v).1 + 1) 0 (encodeToReader writeInterface v).2 =
        some (encodeToBytes writeInterface v) ∧
      (encodeToBytes writeInterface v).length = (encodeToReader writeInterface v).1 := by
  obtain ⟨hc, hbytes, hsize⟩ := writeInterface_encodes v
  have ho := writeInterface_ordered v
  have hstart : (encodeToReader writeInterface v).2.pending = encodeToBytes writeInterface v := by
    simp [encodeToReader, EncReader.pending, EncReader.rest, encodeToBytes, toBytes]
  have hlen : (encodeToBytes writeInterface v).length = (encodeToReader writeInterface v).1 := by
    rw [encodeToBytes, hbytes, ← hsize]
    rfl
  refine ⟨flatten_toWriter ho, ?_, hlen⟩
  rw [← hstart]
  refine readAll_pending hks fuel _ 0 _ ⟨hc, ho, fun _ _ => Nat.zero_le _⟩ ?_
  rw [hstart, hlen]
  exact Nat.lt_succ_self _

theorem encode_outputs_agree_byte_reads :
    (∀ i, 0 < (fun _ => 1 : ℕ → ℕ) i) ∧
      (encode writeInterface (.list [.str [1, 2]])).flatten = encodeToBytes writeInterface (.list [.str [1, 2]]) ∧
      readAll 1 (fun _ => 1) ((encodeToReader writeInterface (.list [.str [1, 2]])).1 + 1) 0
          (encodeToReader writeInterface (.list [.str [1, 2]])).2 =
        some (encodeToBytes writeInterface (.list [.str [1, 2]])) ∧
      (encodeToBytes writeInterface (.list [.str [1, 2]])).length =
        (encodeToReader writeInterface (.list [.str [1, 2]])).1 :=
  ⟨fun _ => Nat.one_pos, encode_outputs_agree (.list [.str [1, 2]]) (fun _ => 1) (fun _ => Nat.one_pos) 0⟩

end GoXdn.Rlp
