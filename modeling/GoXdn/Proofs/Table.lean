import Mathlib
import GoXdn.Discover.Table

/-!
# The discovery table's invariant

A bucket holds only nodes at its own distance from the local node, at most `bucketSize` of them,
each ID once, and never the local node (`BucketOk`); the adds waiting on a ping never carry the
local node (`Table.Inv`). Every critical section keeps this (`apply_inv`), so every run from the
empty table does (`run_inv`). That the two halves of an `add` may have any other section between
them does not matter: `replace` looks again for the node and for room in the bucket as it finds
it after the ping, and trusts nothing from before. Across buckets an ID occurs once as well,
since the ID fixes its bucket (`Table.Inv.sound`).
-/

namespace GoXdn.Discover

open GoStd

variable (K : Hash256)

/-- The bucket invariant: all of `b` at distance `i` from the local node `ours`, none of it `ours`, no ID twice,
and at most `bucketSize` entries. -/
structure BucketOk (ours : Node) (i : Fin nBuckets) (b : List Node) : Prop where
  dist : ∀ n ∈ b, bucketOf K ours n = i
  not_self : ∀ n ∈ b, n.id ≠ ours.id
  nodup : (b.map Node.id).Nodup
  size : b.length ≤ bucketSize

namespace BucketOk

variable {K} {ours n : Node} {i : Fin nBuckets} {b c : List Node}

theorem nil : BucketOk K ours i [] := ⟨by simp, by simp, List.nodup_nil, Nat.zero_le _⟩

theorem sublist (h : BucketOk K ours i b) (hs : c.Sublist b) : BucketOk K ours i c :=
  ⟨fun m hm => h.dist m (hs.subset hm), fun m hm => h.not_self m (hs.subset hm),
    h.nodup.sublist (hs.map _), le_trans hs.length_le h.size⟩

theorem perm (h : BucketOk K ours i b) (hp : b.Perm c) : BucketOk K ours i c :=
  ⟨fun m hm => h.dist m (hp.mem_iff.mpr hm), fun m hm => h.not_self m (hp.mem_iff.mpr hm),
    (hp.map _).nodup_iff.mp h.nodup, hp.length_eq ▸ h.size⟩

/-- A node at distance `i`, other than the local node and with an ID not in the bucket, can go
in front of a bucket with room. -/
theorem cons (h : BucketOk K ours i b) (hi : bucketOf K ours n = i) (hn : n.id ≠ ours.id)
    (hnew : n.id ∉ b.map Node.id) (hroom : b.length < bucketSize) :
    BucketOk K ours i (n :: b) := by
  refine ⟨fun m hm => ?_, fun m hm => ?_, List.nodup_cons.mpr ⟨hnew, h.nodup⟩, ?_⟩
  · rcases List.mem_cons.mp hm with rfl | hm
    · exact hi
    · exact h.dist m hm
  · rcases List.mem_cons.mp hm with rfl | hm
    · exact hn
    · exact h.not_self m hm
  · rw [List.length_cons]
    omega

theorem append (h : BucketOk K ours i b) (hi : bucketOf K ours n = i) (hn : n.id ≠ ours.id)
    (hnew : n.id ∉ b.map Node.id) (hroom : b.length < bucketSize) :
    BucketOk K ours i (b ++ [n]) :=
  (h.cons hi hn hnew hroom).perm (List.perm_append_singleton n b).symm

end BucketOk

section Bucket

variable {K} {ours n : Node} {i : Fin nBuckets} {b b' : List Node}

/-- `bump` puts `n` in place of the entry with its ID, moved to the front. -/
theorem bump_eq_some (h : bump b n = some b') :
    ∃ k, ∃ hk : k < b.length, b[k].id = n.id ∧ b' = n :: b.eraseIdx k := by
  unfold bump at h
  split at h
  · rename_i k hk
    obtain ⟨hlt, hid, -⟩ := List.findIdx?_eq_some_iff_getElem.mp hk
    cases h
    exact ⟨k, hlt, by simpa using hid, by rw [List.eraseIdx_eq_take_drop_succ]⟩
  · cases h

theorem BucketOk.bump (h : BucketOk K ours i b) (hb : bump b n = some b') :
    BucketOk K ours i b' := by
  obtain ⟨k, hk, hid, rfl⟩ := bump_eq_some hb
  have hmem : b[k] ∈ b := List.getElem_mem hk
  refine (h.sublist (List.eraseIdx_sublist b k)).cons ?_ ?_ ?_ ?_
  · rw [← bucketOf_congr K ours hid]
    exact h.dist _ hmem
  · rw [← hid]
    exact h.not_self _ hmem
  · have hk' : k < (b.map Node.id).length := by simpa using hk
    rw [← List.eraseIdx_map, ← h.nodup.erase_getElem k hk', List.getElem_map, hid]
    exact h.nodup.not_mem_erase
  · have := h.size
    rw [List.length_eraseIdx, if_pos hk]
    omega

/-- `replace` puts a node with a new ID in front, and drops the last entry of a full bucket. -/
theorem replace_eq_some {last : Option Node} (h : replace b n last = some b') :
    n.id ∉ b.map Node.id ∧ b' = n :: if b.length < bucketSize then b else b.dropLast := by
  unfold replace at h
  split at h
  · cases h
  · rename_i hany
    split at h
    · cases h
    · cases h
      exact ⟨by simpa using hany, rfl⟩

theorem BucketOk.replace {last : Option Node} (h : BucketOk K ours i b)
    (hi : bucketOf K ours n = i) (hn : n.id ≠ ours.id) (hr : replace b n last = some b') :
    BucketOk K ours i b' := by
  obtain ⟨hnew, rfl⟩ := replace_eq_some hr
  split_ifs with hroom
  · exact h.cons hi hn hnew hroom
  · have hs := List.dropLast_sublist b
    refine (h.sublist hs).cons hi hn (fun hm => hnew ((hs.map _).subset hm)) ?_
    have := h.size
    have hpos : 0 < bucketSize := by decide
    rw [List.length_dropLast]
    omega

end Bucket

/-- The table invariant: every bucket is `BucketOk`, and no waiting add carries the local node. -/
structure Table.Inv (t : Table) : Prop where
  buckets : ∀ i, BucketOk K t.self i (t.buckets i)
  pinging : ∀ p ∈ t.pinging, p.1.id ≠ t.self.id

/-- The table as the protocol needs it: each node in the bucket of its distance from the local
node, no bucket over `bucketSize`, no ID twice in the whole table, and the local node absent. -/
structure Table.Sound (t : Table) : Prop where
  logdist_eq : ∀ i, ∀ n ∈ t.buckets i, logdist (K.sum t.self.id) (K.sum n.id) = i
  length_le : ∀ i, (t.buckets i).length ≤ bucketSize
  ids_nodup : ((List.finRange nBuckets).flatMap fun i => (t.buckets i).map Node.id).Nodup
  self_not_mem : ∀ i, ∀ n ∈ t.buckets i, n.id ≠ t.self.id

namespace Table

variable {K} {t : Table}

theorem newTable_inv (self : Node) : (newTable self).Inv K :=
  ⟨fun _ => BucketOk.nil, fun _ hp => absurd hp List.not_mem_nil⟩

theorem Inv.setBucket (h : t.Inv K) {i : Fin nBuckets} {b : List Node}
    (hb : BucketOk K t.self i b) : (t.setBucket i b).Inv K where
  buckets j := by
    rw [setBucket_buckets, setBucket_self]
    by_cases hj : j = i
    · subst hj
      rwa [Function.update_self]
    · rw [Function.update_of_ne hj]
      exact h.buckets j
  pinging := h.pinging

theorem Inv.wait (h : t.Inv K) {new : Node} (hn : new.id ≠ t.self.id) (oldest : Node) :
    ({ t with pinging := t.pinging ++ [(new, oldest)] } : Table).Inv K where
  buckets := h.buckets
  pinging p hp := by
    rcases List.mem_append.mp hp with hp | hp
    · exact h.pinging p hp
    · rw [List.mem_singleton.mp hp]
      exact hn

theorem Inv.resume (h : t.Inv K) (k : ℕ) :
    ({ t with pinging := t.pinging.eraseIdx k } : Table).Inv K where
  buckets := h.buckets
  pinging p hp := h.pinging p ((List.eraseIdx_sublist _ k).subset hp)

theorem add_inv (h : t.Inv K) {n : Node} (hn : n.id ≠ t.self.id) (contested : Bool) :
    (t.add K n contested).Inv K := by
  have hb := h.buckets (bucketOf K t.self n)
  unfold add
  dsimp only
  split
  · exact h.setBucket (hb.bump ‹_›)
  · split
    · split
      · split
        · exact h
        · exact h.wait hn _
      · exact h
    · split
      · exact h.setBucket (hb.replace rfl hn ‹_›)
      · exact h

theorem pong_inv (h : t.Inv K) (k : ℕ) (responded : Bool) : (t.pong K k responded).Inv K := by
  unfold pong
  split
  · exact h
  · rename_i new oldest hk
    have hn : new.id ≠ t.self.id := h.pinging _ (List.mem_of_getElem? hk)
    have h' := h.resume k
    dsimp only
    split
    · exact h'
    · split
      · exact h'.setBucket ((h'.buckets _).replace rfl hn ‹_›)
      · exact h'

theorem bond_inv (h : t.Inv K) (n : Node) (contested : Bool) : (t.bond K n contested).Inv K := by
  unfold bond
  split_ifs with hself
  · exact h
  · exact add_inv h hself contested

theorem stuff_inv : ∀ (nodes : List Node) {t : Table}, t.Inv K → (t.stuff K nodes).Inv K
  | [], _, h => h
  | n :: nodes, t, h => by
    rw [stuff]
    dsimp only
    split_ifs with hself hdup hroom
    · exact stuff_inv nodes h
    · exact stuff_inv nodes h
    · have hnew : n.id ∉ (t.buckets (bucketOf K t.self n)).map Node.id := by simpa using hdup
      exact stuff_inv nodes (h.setBucket ((h.buckets _).append rfl hself hnew hroom))
    · exact stuff_inv nodes h

theorem delete_inv (h : t.Inv K) (n : Node) : (t.delete K n).Inv K :=
  h.setBucket ((h.buckets _).sublist List.eraseP_sublist)

/-- Each critical section keeps the invariant. -/
theorem apply_inv (h : t.Inv K) : ∀ e, (t.apply K e).Inv K
  | .bond n contested => bond_inv h n contested
  | .pong k responded => pong_inv h k responded
  | .stuff nodes => stuff_inv nodes h
  | .delete n => delete_inv h n

theorem run_inv (h : t.Inv K) (es : List Event) : (t.run K es).Inv K := by
  induction es generalizing t with
  | nil => exact h
  | cons e es ih => exact ih (apply_inv h e)

theorem add_self (n : Node) (contested : Bool) : (t.add K n contested).self = t.self := by
  unfold add
  dsimp only
  split
  · rfl
  · split
    · split
      · split <;> rfl
      · rfl
    · split <;> rfl

theorem stuff_self : ∀ (nodes : List Node) {t : Table}, (t.stuff K nodes).self = t.self
  | [], _ => rfl
  | n :: nodes, t => by
    rw [stuff]
    dsimp only
    split_ifs <;> exact stuff_self nodes

theorem bond_self (n : Node) (contested : Bool) : (t.bond K n contested).self = t.self := by
  unfold bond
  split_ifs
  · rfl
  · exact add_self n contested

theorem pong_self (k : ℕ) (responded : Bool) : (t.pong K k responded).self = t.self := by
  unfold pong
  split
  · rfl
  · dsimp only
    split
    · rfl
    · split <;> rfl

theorem apply_self : ∀ e, (t.apply K e).self = t.self
  | .bond n contested => bond_self n contested
  | .pong k responded => pong_self k responded
  | .stuff nodes => stuff_self nodes
  | .delete _ => rfl

theorem run_self (es : List Event) : (t.run K es).self = t.self := by
  induction es generalizing t with
  | nil => rfl
  | cons e es ih => exact (ih).trans (apply_self e)

theorem Inv.sound (h : t.Inv K) : t.Sound K where
  logdist_eq i n hn := congrArg Fin.val ((h.buckets i).dist n hn)
  length_le i := (h.buckets i).size
  ids_nodup := by
    refine List.nodup_flatMap.mpr ⟨fun i _ => (h.buckets i).nodup, ?_⟩
    refine (List.nodup_finRange nBuckets).imp fun {i j} hij x hxi hxj => hij ?_
    obtain ⟨n, hn, rfl⟩ := List.mem_map.mp hxi
    obtain ⟨m, hm, hid⟩ := List.mem_map.mp hxj
    rw [← (h.buckets i).dist n hn, ← (h.buckets j).dist m hm, bucketOf_congr K _ hid]
  self_not_mem i := (h.buckets i).not_self

end Table

/-- Every interleaving of the table's critical sections from the empty table keeps every node in
the bucket of its distance from the local node, no bucket over `bucketSize`, each ID once, and
the local node out. -/
theorem table_invariant (self : Node) (es : List Event) :
    ((newTable self).run K es).self = self ∧ ((newTable self).run K es).Sound K :=
  ⟨Table.run_self es, (Table.run_inv (Table.newTable_inv self) es).sound⟩

/-- With every hash equal all nodes share bucket `0`: a second bond of an ID moves the new
endpoint in place of the old, and the local node is refused. -/
example : ((newTable ⟨[0], [], 0, 0⟩).run Hash256.zero
    [.bond ⟨[1], [], 0, 0⟩ false, .bond ⟨[2], [], 0, 0⟩ false, .bond ⟨[1], [7], 0, 0⟩ false,
      .bond ⟨[0], [], 0, 0⟩ false]).buckets ⟨0, by decide⟩ = [⟨[1], [7], 0, 0⟩, ⟨[2], [], 0, 0⟩] := by
  decide

end GoXdn.Discover
