import Mathlib
import GoXdn.Discover.Lookup
import GoXdn.Proofs.RandomNodes

/-!
# What a lookup returns

`distcmp` compares the XOR distances of two hashes from the target as numbers, the first byte
most significant (`distcmp_pos_iff`). Over a list in order of that distance, `push` is the
library's `insertAfter` cut back to `maxElems` (`push_entries`), so the result set of a lookup
always holds, in order, the `bucketSize` closest of the nodes pushed into it (`keepsLeast_push`),
and every list a lookup returns is in order of distance, at most `bucketSize` long, and made of
nodes of the table and of the replies (`lookup_spec`).

What it does not keep is one node per ID. `seen` starts empty, so a reply holding a node the
search started from pushes it a second time: a table of two nodes, the first of which answers
with the second, makes the search return the second twice (`lookup_returns_duplicate`).
-/

namespace GoXdn.Discover

open GoStd SortSearch

/-- The XOR distance of `a` from `target` as a number, the first byte most significant. -/
def xorDist (target a : List UInt8) : ℕ := beNat (List.zipWith (· ^^^ ·) a target)

section Distance

lemma beNat_cons_lt_cons {x y : UInt8} {a b : List UInt8} (hab : a.length = b.length) :
    beNat (x :: a) < beNat (y :: b) ↔ x.toNat < y.toNat ∨ x = y ∧ beNat a < beNat b := by
  have ha := beNat_lt a
  have hb := beNat_lt b
  rw [beNat_cons, beNat_cons, hab]
  rw [hab] at ha
  set P := 256 ^ b.length
  rcases lt_trichotomy x.toNat y.toNat with hxy | hxy | hxy
  · have : x.toNat * P + beNat a < y.toNat * P + beNat b := by nlinarith
    exact iff_of_true this (Or.inl hxy)
  · have hxy' : x = y := UInt8.toNat_inj.mp hxy
    rw [hxy]
    simp [hxy']
  · have : y.toNat * P + beNat b < x.toNat * P + beNat a := by nlinarith
    refine iff_of_false (not_lt.mpr this.le) ?_
    rintro (h | ⟨rfl, -⟩) <;> omega

/-- `distcmp` is positive just where `a` is farther from the target than `b`. -/
theorem distcmp_pos_iff : ∀ (target a b : List UInt8), a.length = target.length →
    b.length = target.length → (0 < distcmp target a b ↔ xorDist target b < xorDist target a)
  | [], [], [], _, _ => by simp [distcmp, xorDist, beNat]
  | t :: target, x :: a, y :: b, ha, hb => by
    have ha' : a.length = target.length := by simpa using ha
    have hb' : b.length = target.length := by simpa using hb
    have hlen : (List.zipWith (· ^^^ ·) b target).length = (List.zipWith (· ^^^ ·) a target).length := by
      simp [ha', hb']
    simp only [xorDist, List.zipWith_cons_cons] at ⊢
    rw [beNat_cons_lt_cons hlen]
    simp only [distcmp]
    split_ifs with hgt hlt
    · simp only [gt_iff_lt, UInt8.lt_iff_toNat_lt] at hgt
      exact iff_of_true (by decide) (Or.inl hgt)
    · simp only [UInt8.lt_iff_toNat_lt] at hlt
      simp only [show ¬ (0 : ℤ) < -1 by decide, false_iff, not_or, not_and]
      exact ⟨by omega, fun h => absurd (congrArg UInt8.toNat h) (by omega)⟩
    · simp only [gt_iff_lt, UInt8.lt_iff_toNat_lt, not_lt] at hgt hlt
      have heq : y ^^^ t = x ^^^ t := UInt8.toNat_inj.mp (le_antisymm hlt hgt)
      rw [distcmp_pos_iff target a b ha' hb']
      simp [heq, xorDist]
  | [], _ :: _, _, ha, _ => by simp at ha
  | [], [], _ :: _, _, hb => by simp at hb
  | _ :: _, [], _, ha, _ => by simp at ha
  | _ :: _, _ :: _, [], _, hb => by simp at hb

end Distance

variable (K : Hash256)

/-- A node's distance from `target`, by the Keccak-256 of its ID. -/
def nodeDist (target : List UInt8) (n : Node) : ℕ := xorDist target (K.sum n.id)

section Push

variable {K}

/-- The index `push` searches for, over entries in order of distance: the end of those not
farther than `n`. -/
lemma push_search_eq {h : NodesByDistance} (n : Node) (htarget : h.target.length = 32)
    (hsorted : h.entries.Pairwise (nodeDist K h.target · ≤ nodeDist K h.target ·)) :
    search (fun i => decide (distcmp h.target (K.sum (h.entries.getD i n).id) (K.sum n.id) > 0))
        h.entries.length =
      (h.entries.takeWhile fun a => nodeDist K h.target a ≤ nodeDist K h.target n).length := by
  have hf : (fun i => decide (distcmp h.target (K.sum (h.entries.getD i n).id) (K.sum n.id) > 0)) =
      fun i => decide (nodeDist K h.target n < nodeDist K h.target (h.entries.getD i n)) := by
    funext i
    exact decide_eq_decide.mpr (distcmp_pos_iff _ _ _ (by simp [htarget]) (by simp [htarget]))
  rw [hf]
  exact search_eq_length_takeWhile hsorted n

/-- The list `push` builds from entries `E = T ++ D` and the insertion index `T.length`: `n`
between them, cut back to `maxElems`. -/
lemma push_shape (T D E : List Node) (hE : E = T ++ D) (n : Node) {maxElems : ℕ}
    (hlen : E.length ≤ maxElems) :
    (if T.length = (if E.length < maxElems then E ++ [n] else E).length
      then (if E.length < maxElems then E ++ [n] else E)
      else (if E.length < maxElems then E ++ [n] else E).take T.length ++
        n :: ((if E.length < maxElems then E ++ [n] else E).drop T.length).dropLast) =
      (T ++ n :: D).take maxElems := by
  subst hE
  rw [List.length_append] at hlen
  by_cases hroom : (T ++ D).length < maxElems
  · rw [if_pos hroom, if_neg (by simp)]
    have htake : (T ++ D ++ [n]).take T.length = T := by simp
    have hdrop : ((T ++ D ++ [n]).drop T.length).dropLast = D := by simp
    rw [htake, hdrop, List.take_of_length_le (by simp at hroom ⊢; omega)]
  · rw [if_neg hroom]
    rw [List.length_append] at hroom
    rcases D.eq_nil_or_concat with rfl | ⟨D', d, rfl⟩
    · rw [if_pos (by simp), List.append_nil, List.take_left' (by simp at hroom; omega)]
    · rw [List.concat_eq_append] at hlen hroom ⊢
      rw [if_neg (by simp)]
      have htake : (T ++ (D' ++ [d])).take T.length = T := by simp
      have hdrop : ((T ++ (D' ++ [d])).drop T.length).dropLast = D' := by simp
      have hmax : maxElems = (T ++ n :: D').length := by simp at hroom hlen ⊢; omega
      rw [htake, hdrop, hmax, show T ++ n :: (D' ++ [d]) = (T ++ n :: D') ++ [d] by simp, List.take_left]

/-- Over entries in order of distance and no longer than `maxElems`, `push` is `insertAfter`
cut back to `maxElems`. -/
theorem push_entries (h : NodesByDistance) (n : Node) {maxElems : ℕ} (htarget : h.target.length = 32)
    (hsorted : h.entries.Pairwise (nodeDist K h.target · ≤ nodeDist K h.target ·))
    (hlen : h.entries.length ≤ maxElems) :
    (h.push K n maxElems).entries = (insertAfter (nodeDist K h.target) n h.entries).take maxElems := by
  have hE := (List.takeWhile_append_dropWhile
    (p := fun a => decide (nodeDist K h.target a ≤ nodeDist K h.target n)) (l := h.entries)).symm
  have hpush : (h.push K n maxElems).entries =
      if search (fun i => decide (distcmp h.target (K.sum (h.entries.getD i n).id) (K.sum n.id) > 0))
          h.entries.length = (if h.entries.length < maxElems then h.entries ++ [n] else h.entries).length
      then (if h.entries.length < maxElems then h.entries ++ [n] else h.entries)
      else (if h.entries.length < maxElems then h.entries ++ [n] else h.entries).take
          (search (fun i => decide (distcmp h.target (K.sum (h.entries.getD i n).id) (K.sum n.id) > 0))
            h.entries.length) ++
        n :: ((if h.entries.length < maxElems then h.entries ++ [n] else h.entries).drop
          (search (fun i => decide (distcmp h.target (K.sum (h.entries.getD i n).id) (K.sum n.id) > 0))
            h.entries.length)).dropLast := by
    unfold NodesByDistance.push
    dsimp only
    split_ifs <;> rfl
  rw [hpush, push_search_eq n htarget hsorted]
  exact push_shape _ _ _ hE n hlen

@[simp] theorem push_target (h : NodesByDistance) (n : Node) (maxElems : ℕ) :
    (h.push K n maxElems).target = h.target := by
  unfold NodesByDistance.push
  dsimp only
  split_ifs <;> rfl

/-- `push` keeps, in order, the `maxElems` closest of the nodes pushed. -/
theorem keepsLeast_push {h : NodesByDistance} {maxElems : ℕ} {pushed : List Node}
    (htarget : h.target.length = 32) (hk : KeepsLeast (nodeDist K h.target) maxElems h.entries pushed)
    (n : Node) : KeepsLeast (nodeDist K h.target) maxElems (h.push K n maxElems).entries (n :: pushed) := by
  rw [push_entries h n htarget hk.sorted (by rw [hk.length_eq]; exact min_le_left _ _)]
  exact hk.insert n

theorem keepsLeast_foldl_push {maxElems : ℕ} : ∀ (l : List Node) (h : NodesByDistance) (pushed : List Node),
    h.target.length = 32 → KeepsLeast (nodeDist K h.target) maxElems h.entries pushed →
    (l.foldl (fun c n => c.push K n maxElems) h).target = h.target ∧
      KeepsLeast (nodeDist K h.target) maxElems (l.foldl (fun c n => c.push K n maxElems) h).entries
        (l.reverse ++ pushed)
  | [], _, _, _, hk => ⟨rfl, by simpa using hk⟩
  | n :: l, h, pushed, ht, hk => by
    have hk' := keepsLeast_push ht hk n
    rw [← push_target (K := K) h n maxElems] at hk' ht
    obtain ⟨htgt, hkl⟩ := keepsLeast_foldl_push l (h.push K n maxElems) (n :: pushed) ht hk'
    rw [push_target] at htgt hkl
    rw [List.foldl_cons, List.reverse_cons, List.append_assoc, List.singleton_append]
    exact ⟨htgt, hkl⟩

/-- `closest` keeps, in order, the `nresults` closest nodes of the table. -/
theorem closest_keepsLeast (t : Table) {target : List UInt8} (ht : target.length = 32) (nresults : ℕ) :
    (t.closest K target nresults).target = target ∧
      KeepsLeast (nodeDist K target) nresults (t.closest K target nresults).entries
        ((List.finRange nBuckets).flatMap t.buckets).reverse := by
  have h := @keepsLeast_foldl_push K nresults ((List.finRange nBuckets).flatMap t.buckets)
    ⟨[], target⟩ [] ht KeepsLeast.nil
  rw [List.append_nil] at h
  exact h

end Push

section Loop

variable {K} (t : Table) (target : List UInt8) (replies : ℕ → List Node)

variable (K) in
/-- What the search keeps between two replies: its result set holds, in order, the `bucketSize`
closest of the nodes pushed so far, each a node of the table or of a reply taken in. -/
structure LookupInv (k : ℕ) (s : LookupState) : Prop where
  target_eq : s.result.target = target
  keeps : ∃ pushed, KeepsLeast (nodeDist K target) bucketSize s.result.entries pushed ∧
    ∀ x ∈ pushed, x ∈ (List.finRange nBuckets).flatMap t.buckets ∨ ∃ j < k, x ∈ replies j

/-- Taking in a reply pushes some of its nodes. -/
theorem takeReply_keeps : ∀ (nodes : List Node) (seen : Finset (List UInt8)) (result : NodesByDistance)
    (pushed : List Node), result.target.length = 32 →
    KeepsLeast (nodeDist K result.target) bucketSize result.entries pushed →
    (takeReply K seen result nodes).2.target = result.target ∧ ∃ more : List Node, (∀ x ∈ more, x ∈ nodes) ∧
      KeepsLeast (nodeDist K result.target) bucketSize (takeReply K seen result nodes).2.entries (more ++ pushed)
  | [], _, _, _, _, hk => ⟨rfl, [], by simp, hk⟩
  | n :: nodes, seen, result, pushed, ht, hk => by
    rw [takeReply]
    split_ifs with hseen
    · obtain ⟨htgt, more, hmore, hkl⟩ := takeReply_keeps nodes seen result pushed ht hk
      exact ⟨htgt, more, fun x hx => List.mem_cons_of_mem n (hmore x hx), hkl⟩
    · have hk' := keepsLeast_push ht hk n
      rw [← push_target (K := K) result n bucketSize] at hk' ht
      obtain ⟨htgt, more, hmore, hkl⟩ := takeReply_keeps nodes (insert n.id seen) _ _ ht hk'
      rw [push_target] at htgt hkl
      refine ⟨htgt, more ++ [n], fun x hx => ?_, by rwa [List.append_assoc, List.singleton_append]⟩
      rcases List.mem_append.mp hx with hx | hx
      · exact List.mem_cons_of_mem n (hmore x hx)
      · exact List.mem_singleton.mp hx ▸ List.mem_cons_self

variable {t target replies}

/-- One reply taken in keeps the invariant, one reply further on. -/
theorem LookupInv.takeReply {k : ℕ} {s : LookupState} (h : LookupInv K t target replies k s)
    (ht : target.length = 32) (asked : Finset (List UInt8)) (pending : ℕ) :
    LookupInv K t target replies (k + 1)
      ⟨asked, (takeReply K s.seen s.result (replies k)).1, pending, (takeReply K s.seen s.result (replies k)).2⟩ := by
  obtain ⟨pushed, hk, hfrom⟩ := h.keeps
  rw [← h.target_eq] at hk ht
  obtain ⟨htgt, more, hmore, hkl⟩ := takeReply_keeps (replies k) s.seen s.result pushed ht hk
  rw [h.target_eq] at htgt hkl
  refine ⟨htgt, more ++ pushed, hkl, fun x hx => ?_⟩
  rcases List.mem_append.mp hx with hx | hx
  · exact Or.inr ⟨k, Nat.lt_succ_self k, hmore x hx⟩
  · rcases hfrom x hx with hx | ⟨j, hj, hx⟩
    · exact Or.inl hx
    · exact Or.inr ⟨j, Nat.lt_succ_of_lt hj, hx⟩

/-- Every list the search returns is what its result set held at the end. -/
theorem lookupLoop_inv (ht : target.length = 32) : ∀ (fuel k : ℕ) (s : LookupState) {l : List Node},
    LookupInv K t target replies k s → lookupLoop K replies fuel k s = some l →
    ∃ k' s', LookupInv K t target replies k' s' ∧ l = s'.result.entries
  | 0, _, _, _, _, hl => by simp [lookupLoop] at hl
  | fuel + 1, k, s, l, hinv, hl => by
    rw [lookupLoop] at hl
    rcases hask : askLoop s.result.entries s.asked s.pending with ⟨asked, pending⟩
    rw [hask] at hl
    dsimp only at hl
    split_ifs at hl with hpending
    · exact ⟨k, s, hinv, (Option.some.inj hl).symm⟩
    · exact lookupLoop_inv ht fuel (k + 1) _ (hinv.takeReply ht asked (pending - 1)) hl

/-- Every list a lookup returns is in order of distance from the target, at most `bucketSize`
long, and made of nodes of the table and of the replies. -/
theorem lookup_spec (t : Table) (targetID : List UInt8) (replies : ℕ → List Node) (fuel : ℕ)
    {l : List Node} (h : t.lookup K targetID replies fuel = some l) :
    l.Pairwise (fun a b => distcmp (K.sum targetID) (K.sum a.id) (K.sum b.id) ≤ 0) ∧
      l.length ≤ bucketSize ∧ ∀ x ∈ l, (∃ i, x ∈ t.buckets i) ∨ ∃ k, x ∈ replies k := by
  have ht : (K.sum targetID).length = 32 := K.length_sum targetID
  obtain ⟨htgt, hk0⟩ := closest_keepsLeast (K := K) t ht bucketSize
  have hinv0 : LookupInv K t (K.sum targetID) replies 0
      ⟨{t.self.id}, ∅, 0, t.closest K (K.sum targetID) bucketSize⟩ :=
    ⟨htgt, _, hk0, fun x hx => Or.inl (List.mem_reverse.mp hx)⟩
  obtain ⟨k, s, ⟨-, pushed, hkeep, hfrom⟩, rfl⟩ := lookupLoop_inv ht fuel 0 _ hinv0 h
  refine ⟨hkeep.sorted.imp fun {a b} hab => ?_, ?_, fun x hx => ?_⟩
  · refine le_of_not_gt fun hpos => ?_
    rw [distcmp_pos_iff _ _ _ (by simp) (by simp)] at hpos
    exact absurd hab (not_le.mpr hpos)
  · rw [hkeep.length_eq]
    exact min_le_left _ _
  · rcases hfrom x (hkeep.subperm.subset hx) with hx | ⟨j, -, hx⟩
    · obtain ⟨i, -, hi⟩ := List.mem_flatMap.mp hx
      exact Or.inl ⟨i, hi⟩
    · exact Or.inr ⟨j, hx⟩

end Loop

section Duplicate

/-- Entries all asked already leave the asking loop nothing to do. -/
lemma askLoop_of_asked : ∀ (entries : List Node) (asked : Finset (List UInt8)) (pending : ℕ),
    (∀ n ∈ entries, n.id ∈ asked) → askLoop entries asked pending = (asked, pending)
  | [], _, _, _ => rfl
  | n :: entries, asked, pending, h => by
    rw [askLoop]
    split_ifs with hroom hmem
    · exact askLoop_of_asked entries asked pending fun m hm => h m (List.mem_cons_of_mem n hm)
    · exact absurd (h n List.mem_cons_self) hmem
    · rfl

/-- Fresh entries, no more than there is room for, are all asked. -/
lemma askLoop_of_fresh : ∀ (entries : List Node) (asked : Finset (List UInt8)) (pending : ℕ),
    pending + entries.length ≤ alpha → (entries.map Node.id).Nodup → (∀ n ∈ entries, n.id ∉ asked) →
    askLoop entries asked pending = (asked ∪ (entries.map Node.id).toFinset, pending + entries.length)
  | [], _, _, _, _, _ => by simp [askLoop]
  | n :: entries, asked, pending, hroom, hnodup, hfresh => by
    obtain ⟨hn, hnodup⟩ := List.nodup_cons.mp hnodup
    have hnot : n.id ∉ asked := hfresh n List.mem_cons_self
    rw [List.length_cons] at hroom
    rw [askLoop, if_pos (by omega), if_neg hnot, askLoop_of_fresh entries (insert n.id asked) (pending + 1)
      (by omega) hnodup fun m hm hin => ?_]
    · simp [Finset.insert_union, Finset.union_insert, Nat.add_assoc, Nat.add_comm 1]
    · rcases Finset.mem_insert.mp hin with heq | hin
      · exact hn (heq ▸ List.mem_map_of_mem hm)
      · exact hfresh m (List.mem_cons_of_mem n hm) hin

lemma flatMap_update_perm {ι β : Type} [DecidableEq ι] (g : ι → List β) (i : ι) (l : List β) :
    ∀ L : List ι, L.Nodup → i ∈ L → (L.flatMap (Function.update g i l) ++ g i).Perm (l ++ L.flatMap g)
  | [], _, hi => absurd hi List.not_mem_nil
  | j :: L, hnd, hi => by
    obtain ⟨hj, hnd⟩ := List.nodup_cons.mp hnd
    rw [List.flatMap_cons, List.flatMap_cons]
    by_cases hji : j = i
    · subst hji
      have hrest : L.flatMap (Function.update g j l) = L.flatMap g :=
        List.flatMap_congr fun x hx => Function.update_of_ne (fun (h : x = j) => hj (h ▸ hx)) _ _
      rw [Function.update_self, hrest, List.append_assoc]
      exact List.Perm.append_left l List.perm_append_comm
    · have hiL : i ∈ L := (List.mem_cons.mp hi).resolve_left (Ne.symm hji)
      rw [Function.update_of_ne hji, List.append_assoc]
      exact ((flatMap_update_perm g i l L hnd hiL).append_left (g j)).trans (List.perm_append_comm_assoc _ _ _)

/-- A table `stuff` fills with two nodes of distinct IDs, neither the local node's, holds just
those two. -/
lemma stuff_pair_nodes (K : Hash256) (self a b : Node) (hab : a.id ≠ b.id) (ha : a.id ≠ self.id)
    (hb : b.id ≠ self.id) :
    ((List.finRange nBuckets).flatMap ((newTable self).stuff K [a, b]).buckets).Perm [a, b] := by
  set g1 : Fin nBuckets → List Node := Function.update (fun _ => []) (bucketOf K self a) [a] with hg1
  have hany : ((g1 (bucketOf K self b)).any fun x => x.id == b.id) = false := by
    rw [hg1, Function.update_apply]
    split_ifs <;> simp [hab]
  have hlen : (g1 (bucketOf K self b)).length < bucketSize := by
    rw [hg1, Function.update_apply]
    split_ifs <;> simp [bucketSize]
  have hbuckets : ((newTable self).stuff K [a, b]).buckets =
      Function.update g1 (bucketOf K self b) (g1 (bucketOf K self b) ++ [b]) := by
    simp only [Table.stuff, newTable, ha, hb, if_false, List.any_nil, Bool.false_eq_true,
      List.length_nil, show 0 < bucketSize by decide, if_true, List.nil_append, Table.setBucket_self,
      Table.setBucket_buckets, ← hg1, hany, hlen]
  have hnd := List.nodup_finRange nBuckets
  have h1 : ((List.finRange nBuckets).flatMap g1).Perm [a] := by
    have h := flatMap_update_perm (fun _ => ([] : List Node)) (bucketOf K self a) [a] _ hnd
      (List.mem_finRange _)
    have h0 : (List.finRange nBuckets).flatMap (fun _ => ([] : List Node)) = [] := by simp
    rwa [h0, List.append_nil, List.append_nil] at h
  have h2 := flatMap_update_perm g1 (bucketOf K self b) (g1 (bucketOf K self b) ++ [b]) _ hnd
    (List.mem_finRange _)
  rw [List.append_assoc] at h2
  have h3 := (List.perm_append_right_iff (g1 (bucketOf K self b))).mp (h2.trans List.perm_append_comm)
  rw [hbuckets]
  exact h3.trans ((h1.append_left [b]).trans (List.Perm.swap a b []))

lemma takeReply_single {seen : Finset (List UInt8)} {n : Node} (hn : n.id ∉ seen) (result : NodesByDistance) :
    takeReply K seen result [n] = (insert n.id seen, result.push K n bucketSize) := by
  simp [takeReply, hn]

lemma lookupLoop_succ (replies : ℕ → List Node) (fuel k : ℕ) (s : LookupState) :
    lookupLoop K replies (fuel + 1) k s =
      if (askLoop s.result.entries s.asked s.pending).2 = 0 then some s.result.entries
      else lookupLoop K replies fuel (k + 1)
        ⟨(askLoop s.result.entries s.asked s.pending).1, (takeReply K s.seen s.result (replies k)).1,
          (askLoop s.result.entries s.asked s.pending).2 - 1, (takeReply K s.seen s.result (replies k)).2⟩ :=
  rfl

/-- Two nodes `a` and `b` in the table, and `b` again in the first reply: the search returns `b`
twice. `seen` marks only the nodes of replies, so the copy of `b` the reply brings is pushed as
a new node, and no later step takes it out. -/
theorem lookup_returns_duplicate (t : Table) (a b : Node) (targetID : List UInt8)
    (hnodes : ((List.finRange nBuckets).flatMap t.buckets).Perm [a, b]) (hab : a.id ≠ b.id)
    (ha : a.id ≠ t.self.id) (hb : b.id ≠ t.self.id) (fuel : ℕ) :
    ∃ l, t.lookup K targetID (fun k => if k = 0 then [b] else []) (fuel + 3) = some l ∧
      l.Perm [a, b, b] := by
  have ht : (K.sum targetID).length = 32 := K.length_sum targetID
  set C := t.closest K (K.sum targetID) bucketSize with hC
  obtain ⟨htgt, hk0⟩ := closest_keepsLeast (K := K) t ht bucketSize
  rw [← hC] at htgt hk0
  have hpushed : ((List.finRange nBuckets).flatMap t.buckets).reverse.Perm [a, b] :=
    (List.reverse_perm _).trans hnodes
  have hstart : C.entries.Perm [a, b] :=
    (hk0.perm (by rw [hpushed.length_eq]; simp [bucketSize])).trans hpushed
  rw [← htgt] at hk0 ht
  have hafter : (C.push K b bucketSize).entries.Perm [a, b, b] :=
    ((keepsLeast_push ht hk0 b).perm (by rw [List.length_cons, hpushed.length_eq]; simp [bucketSize])).trans
      ((hpushed.cons b).trans (List.Perm.swap a b [b]))
  set A := {t.self.id} ∪ (C.entries.map Node.id).toFinset with hA
  have hids : (C.entries.map Node.id).Nodup := (hstart.map Node.id).nodup_iff.mpr (by simp [hab])
  have hask1 : askLoop C.entries {t.self.id} 0 = (A, 2) := by
    rw [askLoop_of_fresh _ _ _ (by rw [hstart.length_eq]; simp [alpha]) hids, hstart.length_eq]
    · rfl
    · intro n hn
      rcases List.mem_pair.mp (hstart.subset hn) with rfl | rfl
      · simpa using ha
      · simpa using hb
  have hasked : ∀ n ∈ (C.push K b bucketSize).entries, n.id ∈ A := by
    intro n hn
    have hin : n ∈ C.entries := by
      have hab' : n = a ∨ n = b := by simpa using hafter.subset hn
      rcases hab' with rfl | rfl
      · exact hstart.mem_iff.mpr (by simp)
      · exact hstart.mem_iff.mpr (by simp)
    exact Finset.mem_union_right _ (List.mem_toFinset.mpr (List.mem_map_of_mem hin))
  refine ⟨(C.push K b bucketSize).entries, ?_, hafter⟩
  rw [Table.lookup, ← hC, show fuel + 3 = fuel + 2 + 1 from rfl, lookupLoop_succ]
  simp only [hask1, if_neg (show (2 : ℕ) ≠ 0 by decide), ↓reduceIte, Nat.zero_add]
  rw [takeReply_single K (Finset.notMem_empty b.id), lookupLoop_succ]
  simp only [askLoop_of_asked _ _ _ hasked, Nat.add_one_sub_one, if_neg one_ne_zero]
  rw [lookupLoop_succ]
  simp only [takeReply, askLoop_of_asked _ _ _ hasked, ↓reduceIte]

/-- A local node and two others, with the IDs `0`, `1` and `2`, and the table `stuff` fills with
the two. -/
def pairSelf : Node := ⟨[0], [], 0, 0⟩
def pairA : Node := ⟨[1], [], 0, 0⟩
def pairB : Node := ⟨[2], [], 0, 0⟩
def pairTable : Table := (newTable pairSelf).stuff Hash256.zero [pairA, pairB]

theorem lookup_returns_duplicate_pairTable :
    ((List.finRange nBuckets).flatMap pairTable.buckets).Perm [pairA, pairB] ∧ pairA.id ≠ pairB.id ∧
      pairA.id ≠ pairTable.self.id ∧ pairB.id ≠ pairTable.self.id ∧
      ∃ l, pairTable.lookup Hash256.zero [] (fun k => if k = 0 then [pairB] else []) (0 + 3) = some l ∧
        l.Perm [pairA, pairB, pairB] :=
  have hnodes := stuff_pair_nodes Hash256.zero pairSelf pairA pairB (by decide) (by decide) (by decide)
  have hself : pairTable.self = pairSelf := Table.stuff_self (K := Hash256.zero) [pairA, pairB]
  have ha : pairA.id ≠ pairTable.self.id := by rw [hself]; decide
  have hb : pairB.id ≠ pairTable.self.id := by rw [hself]; decide
  ⟨hnodes, by decide, ha, hb,
    lookup_returns_duplicate Hash256.zero pairTable pairA pairB [] hnodes (by decide) ha hb 0⟩

end Duplicate

end GoXdn.Discover
