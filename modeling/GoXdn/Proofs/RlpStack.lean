import Mathlib
import GoXdn.Proofs.RlpDecode

/-!
# The list stack of a stream

Three calls change the stack: `willRead` advances the innermost list by what it reads once it
has checked the room left, `List` pushes a list whose size `Kind` has checked against the same
room, and `ListEnd` pops a list read to its end and advances the one around it by its size. So
every list on the stack is read no further than its size and every list inside another fits in
what is left of it (`ListPos.Nested`): the differences `tos.size - tos.pos` that `willRead` and
`Kind` take never wrap, whatever the calls, the input and the errors on the way
(`stream_list_accounting`).

A call that fails leaves the stream as it stands, and the calls after it go on from there:
`willRead` has already counted the bytes in the innermost list when the limit of the input stops
it, and `Kind` keeps the error of its header as its answer until the next read.  So the invariant
is one of the stream every call leaves, whatever it returns (`Reachable` steps over failed calls
too).  A header read ahead is part of it: `Kind` checks its size once and caches it, and `List`
pushes the cached size without a second check; a header whose check failed is cached with its
error, which `List` returns instead.
-/

namespace GoXdn.Rlp

open GoStd

/-- The list stack, innermost first: each list read no further than its size, and each list
inside another no larger than what is left of the outer one. -/
def ListPos.Nested : List ListPos → Prop
  | [] => True
  | [tos] => tos.pos ≤ tos.size
  | c :: p :: up => c.pos ≤ c.size ∧ c.size ≤ p.size - p.pos ∧ ListPos.Nested (p :: up)

namespace ListPos

theorem Nested.pos_le : ∀ {st : List ListPos}, Nested st → ∀ tos ∈ st, tos.pos ≤ tos.size
  | [], _ => by simp
  | [c], h => by simpa [Nested] using h
  | c :: p :: up, ⟨hc, _, hup⟩ => by
    intro tos htos
    rcases List.mem_cons.1 htos with rfl | htos
    · exact hc
    · exact Nested.pos_le hup tos htos

/-- Reading `n` bytes that fit in the innermost list. -/
theorem Nested.advance {st : List ListPos} {n : ℕ} (h : Nested st)
    (hn : ∀ tos ∈ st.head?, n ≤ tos.size - tos.pos) : Nested (ListPos.advance st n) := by
  match st, h with
  | [], _ => trivial
  | [c], h =>
    have := hn c rfl
    show c.pos + n ≤ c.size
    simp only [Nested] at h
    omega
  | c :: p :: up, ⟨hc, hcp, hup⟩ =>
    have := hn c rfl
    exact ⟨by dsimp only; omega, hcp, hup⟩

/-- Entering a list of `n` bytes that fits in the innermost one. -/
theorem Nested.push {st : List ListPos} {n : ℕ} (h : Nested st)
    (hn : ∀ tos ∈ st.head?, n ≤ tos.size - tos.pos) : Nested (⟨0, n⟩ :: st) := by
  match st, h with
  | [], _ => exact Nat.zero_le n
  | p :: up, h => exact ⟨Nat.zero_le n, hn p rfl, h⟩

/-- Leaving a list: the list around it has room for all of it. -/
theorem Nested.pop {c : ListPos} {up : List ListPos} (h : Nested (c :: up)) :
    Nested (ListPos.advance up c.size) := by
  match up, h with
  | [], _ => trivial
  | p :: up, ⟨_, hcp, hup⟩ =>
    refine hup.advance fun tos htos => ?_
    obtain rfl : p = tos := Option.some.inj htos
    exact hcp

end ListPos

/-- A property of streams that every call of a run keeps holds of the stream the run leaves,
whether the run ends well or not. -/
theorem andThen_inv {α β : Type} {P : Stream → Prop} {r : Except RlpError α × Stream}
    {k : α → Stream → Except RlpError β × Stream} (h₁ : P r.2)
    (h₂ : ∀ a s, r = (.ok a, s) → P s → P (k a s).2) : P (andThen r k).2 := by
  rcases r with ⟨_ | a, s⟩
  · exact h₁
  · exact h₂ a s rfl h₁

namespace Stream

/-- The accounting of a stream: its lists nest, and a header read ahead without error fits in
the innermost list. -/
structure Wf (s : Stream) : Prop where
  nested : ListPos.Nested s.stack
  cached : ∀ k, s.ahead = some k → s.kinderr = none →
    ∀ tos ∈ s.stack.head?, s.size ≤ tos.size - tos.pos

theorem Wf.of_nested {s : Stream} (h : ListPos.Nested s.stack) (ha : s.ahead = none) : s.Wf :=
  ⟨h, fun k hk => by simp [ha] at hk⟩

/-- Where every read leaves a stream: no header ahead, and the lists nesting. -/
def Settled (s : Stream) : Prop :=
  ListPos.Nested s.stack ∧ s.ahead = none

theorem Settled.wf {s : Stream} (h : s.Settled) : s.Wf :=
  Wf.of_nested h.1 h.2

/-! ### Reads -/

section Reads

variable {s : Stream} (hs : ListPos.Nested s.stack)
include hs

/-- `willRead` counts the bytes in the innermost list only once it has checked that they fit. -/
theorem willRead_settled (n : ℕ) : (s.willRead n).2.Settled := by
  have hadv : ListPos.Nested (ListPos.advance s.stack n) ∨
      s.stack.head?.any (fun tos => tos.size - tos.pos < n) := by
    cases hst : s.stack with
    | nil => exact .inl trivial
    | cons tos up =>
      by_cases hn : tos.size - tos.pos < n
      · exact .inr (by simp [hn])
      · exact .inl ((hst ▸ hs).advance fun t ht => by
          obtain rfl : tos = t := Option.some.inj ht
          omega)
  unfold willRead
  dsimp only
  split_ifs with hroom
  · exact ⟨hs, rfl⟩
  all_goals
    have hadv := hadv.resolve_right hroom
    exact ⟨hadv, rfl⟩

theorem readByte_settled : s.readByte.2.Settled :=
  andThen_inv (willRead_settled hs 1) fun _ _ _ ht => by
    split <;> exact ht

theorem readFull_settled (n : ℕ) : (s.readFull n).2.Settled :=
  andThen_inv (willRead_settled hs n) fun _ _ _ ht => by
    split_ifs <;> exact ht

theorem readUint_settled : ∀ k, (s.readUint k).2.Settled
  | 0 => ⟨hs, rfl⟩
  | 1 => andThen_inv (readByte_settled hs) fun _ _ _ ht => ht
  | k + 2 => andThen_inv (readFull_settled hs (k + 2)) fun _ _ _ ht => by
    split_ifs <;> exact ht

end Reads

/-- A size read after the tag leaves the stream where `readUint` leaves it, whatever it reads. -/
theorem readSize_settled {s : Stream} (hs : ListPos.Nested s.stack) (k : Kind) (n : ℕ) :
    (match s.readUint n with
      | (.error e, s) => ((k, 0, some e), s)
      | (.ok size, s) => ((k, size, if size < 56 then some .canonSize else none), s) :
        (Kind × ℕ × Option RlpError) × Stream).2.Settled := by
  have hu := readUint_settled hs n
  split <;> rename_i h <;> rw [h] at hu <;> exact hu

theorem readKind_settled {s : Stream} (hs : ListPos.Nested s.stack) : s.readKind.2.Settled := by
  have hb := readByte_settled hs
  unfold readKind
  rcases h : s.readByte with ⟨e | b, t⟩ <;> rw [h] at hb
  · exact hb
  dsimp only
  split_ifs
  · exact hb
  · exact hb
  · exact readSize_settled (s := { t with byteval := 0 }) hb.1 .string _
  · exact hb
  · exact readSize_settled (s := { t with byteval := 0 }) hb.1 .list _

/-! ### `Kind` -/

theorem sizeError_eq_none {t : Stream} {n : ℕ} (h : t.sizeError n = none) :
    ∀ tos ∈ t.stack.head?, n ≤ tos.size - tos.pos := by
  unfold sizeError at h
  intro tos htos
  cases hst : t.stack with
  | nil => simp [hst] at htos
  | cons tos' up =>
    obtain rfl : tos' = tos := by simpa [hst] using htos
    simp only [hst] at h
    split_ifs at h
    omega

/-- `Kind` caches a header together with the check of its size against the room left after it. -/
theorem kind_wf {s : Stream} (hs : s.Wf) : s.kind.2.Wf := by
  rcases ha : s.ahead with _ | k
  · simp only [kind, ha]
    split_ifs
    · exact Wf.of_nested hs.nested rfl
    have ht := readKind_settled hs.nested
    rcases hk : s.readKind with ⟨⟨k, n, err⟩, t⟩
    rw [hk] at ht
    refine ⟨ht.1, fun _ _ he => ?_⟩
    simp only [Option.or_eq_none_iff] at he
    exact sizeError_eq_none he.2
  · rw [kind_cached ha]
    exact hs

/-! ### The calls -/

theorem bytes_wf {s : Stream} (hs : s.Wf) : s.bytes.2.Wf :=
  andThen_inv (kind_wf hs) fun ⟨k, n⟩ t _ ht => by
    cases k with
    | byte => exact Wf.of_nested ht.nested rfl
    | string =>
      refine (andThen_inv (P := Settled) (readFull_settled ht.nested n) fun _ _ _ hu => ?_).wf
      split_ifs <;> exact hu
    | list => exact ht

theorem raw_wf {s : Stream} (hs : s.Wf) : s.raw.2.Wf :=
  andThen_inv (kind_wf hs) fun ⟨k, n⟩ t _ ht => by
    dsimp only
    split_ifs
    · exact Wf.of_nested ht.nested rfl
    all_goals exact (andThen_inv (P := Settled) (readFull_settled ht.nested n) fun _ _ _ hu => hu).wf

theorem uint_wf {s : Stream} (hs : s.Wf) (maxbits : ℕ) : (s.uint maxbits).2.Wf :=
  andThen_inv (kind_wf hs) fun ⟨k, n⟩ t _ ht => by
    cases k with
    | byte =>
      dsimp only
      split_ifs
      · exact ht
      · exact Wf.of_nested ht.nested rfl
    | string =>
      dsimp only
      split_ifs
      · exact ht
      have hu := readUint_settled ht.nested n
      split <;> rename_i h <;> rw [h] at hu
      · exact hu.wf
      · exact hu.wf
      · split_ifs <;> exact hu.wf
    | list => exact ht

/-- `List` pushes the size `Kind` checked against the room in the innermost list. -/
theorem list_wf {s : Stream} (hs : s.Wf) : s.list.2.Wf :=
  andThen_inv (kind_wf hs) fun ⟨k, n⟩ t hk ht => by
    dsimp only
    split_ifs
    · exact ht
    obtain ⟨ha, he, hn⟩ := kind_eq_ok hk
    exact Wf.of_nested (ht.nested.push (hn ▸ ht.cached k ha he)) rfl

theorem listEnd_wf {s : Stream} (hs : s.Wf) : s.listEnd.2.Wf := by
  unfold listEnd
  split
  · exact hs
  rename_i tos up hst
  split_ifs
  · exact hs
  · exact Wf.of_nested (hst ▸ hs.nested).pop rfl

/-- `ListEnd` takes off a list read to its end and counts all of it in the list around it. -/
theorem listEnd_eq_ok {s t : Stream} (h : s.listEnd = (.ok (), t)) :
    ∃ c up, s.stack = c :: up ∧ c.pos = c.size ∧ t.stack = ListPos.advance up c.size := by
  unfold listEnd at h
  split at h
  · simp at h
  rename_i tos up hst
  split_ifs at h with hend
  · simp at h
  obtain ⟨-, rfl⟩ := Prod.mk.inj h
  exact ⟨tos, up, hst, not_not.mp hend, rfl⟩

/-! ### Decoders -/

section Decoders

variable {α : Type} {elemdec : Stream → Except RlpError α × Stream}
  (helem : ∀ s : Stream, s.Wf → (elemdec s).2.Wf)
include helem

theorem decodeSliceElems_wf : ∀ (fuel : ℕ) (s : Stream), s.Wf →
    (decodeSliceElems elemdec fuel s).2.Wf
  | 0, _, hs => hs
  | fuel + 1, s, hs => by
    have h₁ := helem s hs
    simp only [decodeSliceElems]
    split <;> rename_i h <;> rw [h] at h₁
    · exact h₁
    · exact h₁
    · exact andThen_inv (decodeSliceElems_wf fuel _ h₁) fun _ _ _ ht => ht

theorem decodeListSlice_wf (fuel : ℕ) {s : Stream} (hs : s.Wf) :
    (decodeListSlice elemdec fuel s).2.Wf :=
  andThen_inv (list_wf hs) fun _ t _ ht => by
    split_ifs
    · exact andThen_inv (listEnd_wf ht) fun _ _ _ hu => hu
    · exact andThen_inv (decodeSliceElems_wf helem fuel t ht) fun _ u _ hu =>
        andThen_inv (listEnd_wf hu) fun _ _ _ hv => hv

end Decoders

/-- By induction on the fuel: a value is a string, or a list of values one level down. -/
theorem decodeInterface_wf : ∀ (fuel : ℕ) (s : Stream), s.Wf → (decodeInterface fuel s).2.Wf
  | 0, _, hs => hs
  | fuel + 1, _, hs => andThen_inv (kind_wf hs) fun ⟨k, _⟩ t _ ht => by
    dsimp only
    split_ifs
    · exact andThen_inv (decodeListSlice_wf (decodeInterface_wf fuel) fuel ht) fun _ _ _ hu => hu
    · exact andThen_inv (bytes_wf ht) fun _ _ _ hu => hu

theorem decodeUint_wf {s : Stream} (hs : s.Wf) : (decodeUint s).2.Wf :=
  andThen_inv (uint_wf hs 64) fun _ _ _ ht => ht

theorem decodeBigInt_wf {s : Stream} (hs : s.Wf) : (decodeBigInt s).2.Wf :=
  andThen_inv (bytes_wf hs) fun _ _ _ ht => by
    split_ifs <;> exact ht

/-! ### Runs of calls -/

/-- The calls a decoder makes on a stream: `Kind`, `Bytes`, `uint`, `List`, `ListEnd`, `Raw`, and
`Decode` into an `interface{}`, a `uint64`, a `*big.Int` or a `RawValue`. -/
inductive Op
  | kind | bytes | uint (maxbits : ℕ) | list | listEnd | raw
  | decodeValue (fuel : ℕ) | decodeUint | decodeBigInt | decodeRawValue

/-- The stream a call leaves, whether it succeeded or failed. -/
def Op.apply : Op → Stream → Stream
  | .kind, s => s.kind.2
  | .bytes, s => s.bytes.2
  | .uint maxbits, s => (s.uint maxbits).2
  | .list, s => s.list.2
  | .listEnd, s => s.listEnd.2
  | .raw, s => s.raw.2
  | .decodeValue fuel, s => (decodeInterface fuel s).2
  | .decodeUint, s => (Rlp.decodeUint s).2
  | .decodeBigInt, s => (Rlp.decodeBigInt s).2
  | .decodeRawValue, s => (Rlp.decodeRawValue s).2

/-- The streams a sequence of calls reaches from one outside any list (`NewStream` or `Reset` over
any input, with or without a limit), each call going on from where the one before left the stream,
whatever it returned. -/
inductive Reachable : Stream → Prop
  | start {s : Stream} : s.stack = [] → Reachable s
  | step {s : Stream} (op : Op) : Reachable s → Reachable (op.apply s)

theorem Op.apply_wf {s : Stream} (hs : s.Wf) : ∀ op : Op, (op.apply s).Wf
  | .kind => kind_wf hs
  | .bytes => bytes_wf hs
  | .uint maxbits => uint_wf hs maxbits
  | .list => list_wf hs
  | .listEnd => listEnd_wf hs
  | .raw => raw_wf hs
  | .decodeValue fuel => decodeInterface_wf fuel s hs
  | .decodeUint => decodeUint_wf hs
  | .decodeBigInt => decodeBigInt_wf hs
  | .decodeRawValue => raw_wf hs

theorem Reachable.wf {s : Stream} (h : Reachable s) : s.Wf := by
  induction h with
  | start hst => exact ⟨by rw [hst]; trivial, fun _ _ _ tos htos => by simp [hst] at htos⟩
  | step op _ ih => exact Op.apply_wf ih op

theorem stream_list_accounting {s : Stream} (hs : Reachable s) :
    (∀ tos ∈ s.stack, tos.pos ≤ tos.size) ∧ ListPos.Nested s.stack ∧
      (∀ tos ∈ s.readKind.2.stack, tos.pos ≤ tos.size) ∧
      ∀ t, s.listEnd = (.ok (), t) →
        ∃ c up, s.stack = c :: up ∧ c.pos = c.size ∧ t.stack = ListPos.advance up c.size := by
  have hwf := hs.wf
  exact ⟨hwf.nested.pos_le, hwf.nested, (readKind_settled hwf.nested).1.pos_le,
    fun t he => listEnd_eq_ok he⟩

/-- In the list `0xC1 0x82 0x01 0x02`, whose one byte holds the header of a two-byte string:
`Bytes` fails, and the stream it leaves still keeps the accounting. -/
theorem stream_list_accounting_after_error :
    let s := Op.bytes.apply (Op.list.apply (Stream.new [0xC1, 0x82, 0x01, 0x02] 0))
    (Op.list.apply (Stream.new [0xC1, 0x82, 0x01, 0x02] 0)).bytes.1 = .error .elemTooLarge ∧
      (∀ tos ∈ s.stack, tos.pos ≤ tos.size) ∧ ListPos.Nested s.stack ∧
      (∀ tos ∈ s.readKind.2.stack, tos.pos ≤ tos.size) ∧
      ∀ t, s.listEnd = (.ok (), t) →
        ∃ c up, s.stack = c :: up ∧ c.pos = c.size ∧ t.stack = ListPos.advance up c.size :=
  ⟨rfl, stream_list_accounting (.step .bytes (.step .list (.start rfl)))⟩

end Stream

end GoXdn.Rlp
