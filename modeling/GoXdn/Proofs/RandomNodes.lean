import Mathlib
import GoXdn.Proofs.Table

/-!
# What `ReadRandomNodes` writes and what it returns

The loop takes the head of one shuffled bucket per slot of `buf`, so what it writes is a
sub-multiset of the table's nodes, `min(len(buf), tab.len())` of them, at the front of `buf`
(`readRandomNodes_spec`); with the table's invariant the written nodes have distinct IDs
(`readRandomNodes_ids_nodup`). The count it returns is `i + 1` on both exits of the loop. After
the `break` that is right, but a loop that runs to `i == len(buf)` returns one more than it wrote:
whenever the table holds more nodes than `buf` has room for, `ReadRandomNodes` reports
`len(buf) + 1` (`readRandomNodes_overcounts`), and `1` for an empty `buf`.
-/

namespace GoXdn.Discover

open GoStd

section Flatten

variable {α : Type} {a : α} {rest : List α}

lemma flatten_perm_of_getElem? : ∀ {l : List (List α)} {j : ℕ}, l[j]? = some (a :: rest) →
    l.flatten.Perm (a :: (l.set j rest).flatten)
  | b :: l, 0, h => by
    obtain rfl : b = a :: rest := by simpa using h
    rfl
  | b :: l, j + 1, h => by
    have ih := flatten_perm_of_getElem? (l := l) (j := j) (by simpa using h)
    rw [List.set_cons_succ, List.flatten_cons, List.flatten_cons]
    exact (ih.append_left b).trans List.perm_middle

lemma flatten_eraseIdx_of_getElem? : ∀ {l : List (List α)} {j : ℕ}, l[j]? = some [] →
    (l.eraseIdx j).flatten = l.flatten
  | b :: l, 0, h => by
    obtain rfl : b = [] := by simpa using h
    rfl
  | b :: l, j + 1, h => by
    have ih := flatten_eraseIdx_of_getElem? (l := l) (j := j) (by simpa using h)
    rw [List.eraseIdx_cons_succ, List.flatten_cons, List.flatten_cons, ih]

end Flatten

/-- One pass of the loop takes the head `n` of slot `j`; the slots left, with an emptied one cut
out, hold the other nodes. -/
lemma flatten_perm_take {buckets : List (List Node)} {j : ℕ} {n : Node} {rest : List Node}
    (h : buckets[j]? = some (n :: rest)) :
    buckets.flatten.Perm
      (n :: (if rest = [] then (buckets.set j rest).eraseIdx j else buckets.set j rest).flatten) := by
  have hp := flatten_perm_of_getElem? h
  split_ifs with hrest
  · subst hrest
    have hj : j < buckets.length := (List.getElem?_eq_some_iff.mp h).1
    rwa [flatten_eraseIdx_of_getElem? (by rw [List.getElem?_set_self hj])]
  · exact hp

lemma nonempty_take {buckets : List (List Node)} {j : ℕ} {rest : List Node}
    (hne : ∀ b ∈ buckets, b ≠ []) :
    ∀ b ∈ (if rest = [] then (buckets.set j rest).eraseIdx j else buckets.set j rest), b ≠ [] := by
  intro b hb
  split_ifs at hb with hrest
  · rw [List.eraseIdx_set_eq] at hb
    exact hne b (List.mem_of_mem_eraseIdx hb)
  · rcases List.mem_or_eq_of_mem_set hb with hb | rfl
    · exact hne b hb
    · exact hrest

/-- The loop from `buf[i]` over non-empty slots writes a sub-multiset of their nodes, as many as
fit, from `buf[i]` on, and returns `i` plus what it wrote after a `break` and `len(buf) + 1`
otherwise. -/
theorem readRandomLoop_spec (buf : List (Option Node)) (i j : ℕ) (buckets : List (List Node))
    (hi : i ≤ buf.length) (hne : ∀ b ∈ buckets, b ≠ []) (hj : j < buckets.length) :
    ∃ written : List Node, written.Subperm buckets.flatten ∧
      written.length = min buckets.flatten.length (buf.length - i) ∧
      readRandomLoop buf i j buckets =
        some (buf.take i ++ written.map some ++ buf.drop (i + written.length),
          if buckets.flatten.length ≤ buf.length - i then i + buckets.flatten.length
          else buf.length + 1) := by
  fun_induction readRandomLoop buf i j buckets with
  | case1 buf i j buckets hlt n rest hget buf' buckets' hnil =>
    have hp : buckets.flatten.Perm (n :: buckets'.flatten) := flatten_perm_take hget
    rw [hnil, List.flatten_nil] at hp
    refine ⟨[n], hp.symm.subperm, ?_, ?_⟩
    · rw [hp.length_eq, List.length_singleton]
      omega
    · have hbuf : buf' = buf.set i (some n) := rfl
      rw [hp.length_eq, List.length_singleton, if_pos (by omega), hbuf,
        List.set_eq_take_append_cons_drop, if_pos hlt]
      simp
  | case2 buf i j buckets hlt n rest hget buf' buckets' hnil ih =>
    have hp : buckets.flatten.Perm (n :: buckets'.flatten) := flatten_perm_take hget
    have hbuf : buf' = buf.set i (some n) := rfl
    have hlen : buf'.length = buf.length := List.length_set
    have hne' : ∀ b ∈ buckets', b ≠ [] := nonempty_take hne
    obtain ⟨written, hsub, hwlen, heq⟩ := ih (by omega) hne'
      (Nat.mod_lt _ (List.length_pos_of_ne_nil hnil))
    have htotal : buckets.flatten.length = buckets'.flatten.length + 1 := by
      rw [hp.length_eq, List.length_cons]
    refine ⟨n :: written, (List.subperm_cons n).mpr hsub |>.trans hp.symm.subperm, ?_, ?_⟩
    · rw [List.length_cons, hwlen, hlen, htotal]
      omega
    · have hcount : (if buckets'.flatten.length ≤ buf'.length - (i + 1)
            then i + 1 + buckets'.flatten.length else buf'.length + 1) =
          (if buckets.flatten.length ≤ buf.length - i then i + buckets.flatten.length
            else buf.length + 1) := by
        rw [hlen, htotal]
        split_ifs <;> omega
      have hmin : min i buf.length = i := by omega
      rw [heq, hcount, hbuf, List.set_eq_take_append_cons_drop, if_pos hlt]
      simp [List.take_append, List.drop_append, hmin, List.drop_drop, List.take_take, List.drop_take,
        Nat.add_assoc, Nat.add_comm 1]
  | case3 buf i j buckets hlt hget =>
    have hmem : buckets[j] ∈ buckets := List.getElem_mem hj
    obtain ⟨n, rest, hcons⟩ := List.exists_cons_of_ne_nil (hne _ hmem)
    exact absurd (by rw [List.getElem?_eq_getElem hj, hcons]) (hget n rest)
  | case4 buf i j buckets hge =>
    have hmem : buckets[j] ∈ buckets := List.getElem_mem hj
    obtain ⟨n, rest, hcons⟩ := List.exists_cons_of_ne_nil (hne _ hmem)
    have hpos : 0 < buckets.flatten.length :=
      List.length_pos_of_mem (List.mem_flatten.mpr ⟨_, hmem, hcons ▸ List.mem_cons_self⟩)
    refine ⟨[], List.nil_subperm, by simp only [List.length_nil]; omega, ?_⟩
    rw [if_neg (by omega)]
    simp only [List.map_nil, List.append_nil, List.length_nil, Nat.add_zero,
      List.take_append_drop]
    congr 2
    omega

lemma randUint_le (i : ℕ) (r : UInt32) : (randUint (UInt32.ofNat (i + 1)) r).toNat ≤ i := by
  unfold randUint
  split_ifs with h
  · simp
  · have hpos : 0 < (UInt32.ofNat (i + 1)).toNat := by
      rw [Nat.pos_iff_ne_zero, Ne, ← UInt32.toNat_zero, UInt32.toNat_inj]
      exact h
    have hle : (UInt32.ofNat (i + 1)).toNat ≤ i + 1 := by
      rw [UInt32.toNat_ofNat']
      exact Nat.mod_le _ _
    have := Nat.mod_lt r.toNat hpos
    rw [UInt32.toNat_mod]
    omega

/-- The shuffle only swaps slots in range. -/
lemma shuffle_perm (rand : ℕ → UInt32) :
    ∀ (k : ℕ) (buckets : List (List Node)), k < buckets.length → (shuffle rand k buckets).Perm buckets
  | 0, _, _ => List.Perm.refl _
  | k + 1, buckets, hk => by
    have hj := randUint_le k (rand (k + 1))
    rw [shuffle]
    refine (shuffle_perm rand k _ ?_).trans (BinaryHeap.perm_swap hk (by omega))
    rw [BinaryHeap.length_swap]
    omega

lemma len_eq_length_flatMap (t : Table) :
    t.len = ((List.finRange nBuckets).flatMap t.buckets).length := by
  rw [Table.len, List.length_flatMap]

/-- `ReadRandomNodes` writes a sub-multiset of the table's nodes, `min(len(buf), tab.len())` of
them, at the front of `buf`, and returns `0` for an empty table, the number written when all of
the table fits, and `len(buf) + 1` when it does not. -/
theorem readRandomNodes_spec (t : Table) (rand : ℕ → UInt32) (buf : List (Option Node)) :
    ∃ written : List Node, written.Subperm ((List.finRange nBuckets).flatMap t.buckets) ∧
      written.length = min t.len buf.length ∧
      t.readRandomNodes rand buf =
        some (written.map some ++ buf.drop written.length,
          if t.len = 0 then 0 else if t.len ≤ buf.length then t.len else buf.length + 1) := by
  rw [Table.readRandomNodes]
  set buckets := ((List.finRange nBuckets).map t.buckets).filter fun b => 0 < b.length with hb
  have hflat : buckets.flatten = (List.finRange nBuckets).flatMap t.buckets := by
    rw [List.flatMap_def, ← List.flatten_filter_ne_nil (L := (List.finRange nBuckets).map t.buckets), hb]
    congr 1
    exact List.filter_congr fun b _ => by simp [List.length_pos_iff]
  have hne : ∀ b ∈ buckets, b ≠ [] := by
    intro b hmem
    exact List.length_pos_iff.mp (by simpa using (List.mem_filter.mp hmem).2)
  have htotal : buckets.flatten.length = t.len := by rw [hflat, len_eq_length_flatMap]
  by_cases h0 : buckets.length = 0
  · have hnil : buckets = [] := List.length_eq_zero_iff.mp h0
    have hzero : t.len = 0 := by rw [← htotal, hnil, List.flatten_nil, List.length_nil]
    rw [if_pos h0, hzero]
    exact ⟨[], List.nil_subperm, by simp, by simp⟩
  · rw [if_neg h0]
    have hperm := shuffle_perm rand (buckets.length - 1) buckets (by omega)
    obtain ⟨written, hsub, hwlen, heq⟩ := readRandomLoop_spec buf 0 0 _ (Nat.zero_le _)
      (fun b hmem => hne b (hperm.subset hmem)) (by rw [hperm.length_eq]; omega)
    have hflat' : (shuffle rand (buckets.length - 1) buckets).flatten.length = t.len := by
      rw [hperm.flatten.length_eq, htotal]
    have hpos : t.len ≠ 0 := by
      obtain ⟨b, hmem⟩ := List.exists_mem_of_length_pos (Nat.pos_of_ne_zero h0)
      obtain ⟨n, rest, rfl⟩ := List.exists_cons_of_ne_nil (hne b hmem)
      rw [← htotal]
      exact Nat.pos_iff_ne_zero.mp
        (List.length_pos_of_mem (List.mem_flatten.mpr ⟨_, hmem, List.mem_cons_self⟩))
    refine ⟨written, hsub.trans (hflat ▸ hperm.flatten.subperm), by rw [hwlen, hflat']; simp, ?_⟩
    rw [heq, hflat', if_neg hpos]
    simp

/-- Any sub-multiset of the nodes of a table that keeps its invariant has distinct IDs. -/
lemma ids_nodup_of_subperm {K : Hash256} {t : Table} (h : t.Inv K) {written : List Node}
    (hw : written.Subperm ((List.finRange nBuckets).flatMap t.buckets)) :
    (written.map Node.id).Nodup := by
  have hids := (h.sound).ids_nodup
  rw [← List.map_flatMap] at hids
  obtain ⟨l, hperm, hsub⟩ := hw
  exact (hperm.map Node.id).nodup_iff.mp ((hsub.map Node.id).nodup hids)

/-- With the table's invariant, what `ReadRandomNodes` writes has distinct IDs. -/
theorem readRandomNodes_ids_nodup {K : Hash256} {t : Table} (h : t.Inv K) (rand : ℕ → UInt32)
    (buf : List (Option Node)) :
    ∃ written : List Node, (written.map Node.id).Nodup ∧ written.length = min t.len buf.length ∧
      ((t.readRandomNodes rand buf).map Prod.fst) = some (written.map some ++ buf.drop written.length) := by
  obtain ⟨written, hsub, hlen, heq⟩ := readRandomNodes_spec t rand buf
  exact ⟨written, ids_nodup_of_subperm h hsub, hlen, by rw [heq]; rfl⟩

/-- A table with more nodes than `buf` has room for makes `ReadRandomNodes` return `len(buf) + 1`:
the loop ends with `i == len(buf)` and returns `i + 1`. -/
theorem readRandomNodes_overcounts (t : Table) (rand : ℕ → UInt32) (buf : List (Option Node))
    (h : buf.length < t.len) :
    (t.readRandomNodes rand buf).map Prod.snd = some (buf.length + 1) := by
  obtain ⟨written, -, -, heq⟩ := readRandomNodes_spec t rand buf
  rw [heq, if_neg (by omega), if_neg (by omega)]
  rfl

lemma length_le_len (t : Table) (i : Fin nBuckets) : (t.buckets i).length ≤ t.len :=
  List.le_sum_of_mem (List.mem_map.mpr ⟨i, List.mem_finRange i, rfl⟩)

/-- A table of one node, in the first bucket. -/
def oneNodeTable : Table :=
  ⟨⟨[], [], 0, 0⟩, fun i => if i.val = 0 then [⟨[1], [], 0, 0⟩] else [], []⟩

theorem readRandomNodes_overcounts_empty_buf :
    ([] : List (Option Node)).length < oneNodeTable.len ∧
      (oneNodeTable.readRandomNodes (fun _ => 0) []).map Prod.snd = some 1 :=
  have hlen : ([] : List (Option Node)).length < oneNodeTable.len :=
    length_le_len oneNodeTable ⟨0, by decide⟩
  ⟨hlen, readRandomNodes_overcounts oneNodeTable (fun _ => 0) [] hlen⟩

end GoXdn.Discover
