import Mathlib
import GoXdn.Core.TxList

/-!
# What a nonce-sorted map holds

A `txSortedMap` holds a list of transactions in strictly increasing nonce order: `items` holds each
under its nonce, the index is a heap of their nonces, and the cache, where there is one, is the
list itself (`Represents`). Each call moves the list as a sorted list would move: `Put` inserts,
`Forward` drops the nonces below the threshold, `Filter` what the filter takes, `Cap` all but the
first `k`, `Remove` one nonce and `Ready` the run of consecutive nonces from the least.
-/

namespace GoXdn.Core

open GoStd

section

attribute [local instance] nonceOrder

variable {τ : Type} (nonce : τ → UInt64)

/-! ### Sorted lists of transactions -/

/-- Nonces strictly increase along the list. -/
def SortedByNonce (l : List τ) : Prop := l.Pairwise fun a b => nonce a < nonce b

/-- `tx` in its place in a sorted list, in place of any transaction of its nonce. -/
def insertByNonce (tx : τ) (l : List τ) : List τ :=
  l.filter (fun t => nonce t < nonce tx) ++ tx :: l.filter (fun t => nonce tx < nonce t)

/-- The transactions from the front whose nonces count up from `next`, as `uint64`s. -/
def runFrom : UInt64 → List τ → List τ
  | _, [] => []
  | next, tx :: rest => if nonce tx = next then tx :: runFrom (next + 1) rest else []

/-- What `Ready(start)` takes of a sorted list: nothing where the least nonce is above `start`. -/
def readyRun (start : UInt64) : List τ → List τ
  | [] => []
  | tx :: rest => if start < nonce tx then [] else runFrom nonce (nonce tx) (tx :: rest)

/-- `r` is the longest run at the front of `l` whose nonces count up by one. -/
structure IsMaxRun (r l : List τ) : Prop where
  front : r <+: l
  ne_nil : r ≠ []
  chain : r.IsChain fun a b => (nonce b).toNat = (nonce a).toNat + 1
  maximal : ∀ a ∈ r.getLast?, ∀ b ∈ (l.drop r.length).head?, (nonce b).toNat ≠ (nonce a).toNat + 1

variable {nonce}

theorem SortedByNonce.nodup {l : List τ} (hl : SortedByNonce nonce l) : (l.map nonce).Nodup :=
  (hl.map nonce fun _ _ h => h).imp ne_of_lt

theorem SortedByNonce.filter {l : List τ} (hl : SortedByNonce nonce l) (p : τ → Bool) :
    SortedByNonce nonce (l.filter p) :=
  List.Pairwise.filter p hl

theorem mem_insertByNonce {tx t : τ} {l : List τ} :
    t ∈ insertByNonce nonce tx l ↔ t = tx ∨ t ∈ l ∧ nonce t ≠ nonce tx := by
  simp only [insertByNonce, List.mem_append, List.mem_cons, List.mem_filter, decide_eq_true_eq]
  constructor
  · rintro (⟨ht, hlt⟩ | rfl | ⟨ht, hgt⟩)
    · exact .inr ⟨ht, hlt.ne⟩
    · exact .inl rfl
    · exact .inr ⟨ht, hgt.ne'⟩
  · rintro (rfl | ⟨ht, hne⟩)
    · exact .inr (.inl rfl)
    · rcases lt_or_gt_of_ne hne with hlt | hgt
      · exact .inl ⟨ht, hlt⟩
      · exact .inr (.inr ⟨ht, hgt⟩)

theorem SortedByNonce.insertByNonce {l : List τ} (hl : SortedByNonce nonce l) (tx : τ) :
    SortedByNonce nonce (insertByNonce nonce tx l) := by
  unfold SortedByNonce GoXdn.Core.insertByNonce
  rw [List.pairwise_append, List.pairwise_cons]
  refine ⟨hl.filter _, ⟨fun t ht => ?_, hl.filter _⟩, fun a ha b hb => ?_⟩
  · exact of_decide_eq_true (List.mem_filter.mp ht).2
  · have hlt := of_decide_eq_true (List.mem_filter.mp ha).2
    rcases List.mem_cons.mp hb with rfl | hb
    · exact hlt
    · exact hlt.trans (of_decide_eq_true (List.mem_filter.mp hb).2)

/-! ### Runs of nonces -/

theorem toNat_add_one_of_lt {a b : UInt64} (h : a < b) : (a + 1).toNat = a.toNat + 1 := by
  have hb := b.toNat_lt
  rw [UInt64.lt_iff_toNat_lt] at h
  rw [UInt64.toNat_add, UInt64.toNat_one, Nat.mod_eq_of_lt (by omega)]

theorem eq_add_one_of_toNat {a b : UInt64} (h : b.toNat = a.toNat + 1) : b = a + 1 := by
  have hb := b.toNat_lt
  apply UInt64.toNat_inj.mp
  rw [UInt64.toNat_add, UInt64.toNat_one, Nat.mod_eq_of_lt (by omega), h]

theorem runFrom_self (tx : τ) (rest : List τ) :
    runFrom nonce (nonce tx) (tx :: rest) = tx :: runFrom nonce (nonce tx + 1) rest := by
  rw [runFrom, if_pos rfl]

/-- From the least nonce, `runFrom` takes the longest run of consecutive nonces: a nonce one past
the last it took cannot wrap, in a strictly increasing list. -/
theorem isMaxRun_runFrom (tx : τ) (rest : List τ) (hl : SortedByNonce nonce (tx :: rest)) :
    IsMaxRun nonce (runFrom nonce (nonce tx) (tx :: rest)) (tx :: rest) := by
  induction rest generalizing tx with
  | nil =>
    rw [runFrom_self]
    exact ⟨List.prefix_refl _, List.cons_ne_nil _ _, List.isChain_singleton _, by simp [runFrom]⟩
  | cons b rest ih =>
    have hlt : nonce tx < nonce b := List.rel_of_pairwise_cons hl List.mem_cons_self
    rw [runFrom_self]
    by_cases hb : nonce b = nonce tx + 1
    · have hr := ih b hl.of_cons
      rw [runFrom_self] at hr
      rw [runFrom, if_pos hb, ← hb]
      refine ⟨List.cons_prefix_cons.mpr ⟨rfl, hr.front⟩, List.cons_ne_nil _ _, ?_, ?_⟩
      · rw [List.isChain_cons_cons]
        exact ⟨by rw [hb]; exact toNat_add_one_of_lt hlt, hr.chain⟩
      · intro a ha c hc
        rw [List.getLast?_cons_cons] at ha
        exact hr.maximal a ha c (by simpa using hc)
    · rw [runFrom, if_neg hb]
      refine ⟨List.cons_prefix_cons.mpr ⟨rfl, List.nil_prefix⟩, List.cons_ne_nil _ _,
        List.isChain_singleton _, fun a ha c hc => ?_⟩
      simp only [List.getLast?_singleton, Option.mem_def, Option.some.injEq] at ha
      simp only [List.length_singleton, List.drop_one, List.tail_cons, List.head?_cons,
        Option.mem_def, Option.some.injEq] at hc
      subst ha hc
      exact fun h => hb (eq_add_one_of_toNat h)

/-! ### The map and the index hold the list -/

variable (nonce) in
/-- `items` holds the transactions of the sorted list `l`, each under its nonce. -/
structure Holds (items : Items τ) (l : List τ) : Prop where
  sorted : SortedByNonce nonce l
  lookup_iff : ∀ n tx, items.lookup n = some tx ↔ tx ∈ l ∧ nonce tx = n

variable (nonce) in
/-- `items` holds the transactions of `l`, and `index` is a heap of their nonces, each once. -/
structure Keyed (items : Items τ) (index : List UInt64) (l : List τ) : Prop extends Holds nonce items l where
  perm : index.Perm (l.map nonce)
  heap : BinaryHeap.IsHeap index

variable {items : Items τ} {index : List UInt64} {l : List τ}

theorem Holds.lookup_eq_none (hk : Holds nonce items l) (n : UInt64) :
    items.lookup n = none ↔ n ∉ l.map nonce := by
  constructor
  · intro hn hmem
    obtain ⟨tx, htx, rfl⟩ := List.mem_map.mp hmem
    rw [(hk.lookup_iff _ tx).mpr ⟨htx, rfl⟩] at hn
    cases hn
  · intro hn
    rcases hl : items.lookup n with _ | tx
    · rfl
    · obtain ⟨htx, rfl⟩ := (hk.lookup_iff _ tx).mp hl
      exact absurd (List.mem_map_of_mem htx) hn

/-- The entries of `items` are those of `l`, each under its nonce. -/
theorem Holds.entries (hk : Holds nonce items l) :
    items.entries = (l.map fun tx => (⟨nonce tx, tx⟩ : Σ _ : UInt64, τ) : Multiset _) := by
  have hnodup : (l.map fun tx => (⟨nonce tx, tx⟩ : Σ _ : UInt64, τ)).Nodup :=
    List.Nodup.of_map Sigma.fst (by rw [List.map_map]; exact hk.sorted.nodup)
  rw [Multiset.Nodup.ext items.nodup_entries (Multiset.coe_nodup.mpr hnodup)]
  rintro ⟨n, tx⟩
  rw [← Finmap.lookup_eq_some_iff, hk.lookup_iff, Multiset.mem_coe, List.mem_map]
  constructor
  · rintro ⟨htx, rfl⟩
    exact ⟨tx, htx, rfl⟩
  · rintro ⟨t, ht, heq⟩
    obtain ⟨rfl, h⟩ := Sigma.mk.inj_iff.mp heq
    obtain rfl := heq_iff_eq.mp h
    exact ⟨ht, rfl⟩

theorem Holds.keys (hk : Holds nonce items l) : items.keys.val = (l.map nonce : Multiset _) := by
  change items.entries.keys = _
  rw [hk.entries, Multiset.coe_keys, List.keys, List.map_map]
  rfl

/-- `Len()` is the length of the list. -/
theorem Holds.card_keys (hk : Holds nonce items l) : items.keys.card = l.length := by
  rw [Finset.card_def, hk.keys, Multiset.coe_card, List.length_map]

/-- The root of the index is the nonce at the front of the list. -/
theorem Keyed.getD_zero {tx : τ} {rest : List τ} (hk : Keyed nonce items index (tx :: rest)) :
    index.getD 0 default = nonce tx := by
  have hne : index ≠ [] := fun h => by simpa [h] using hk.perm.length_eq
  have hroot : index.getD 0 default ∈ index := by
    rw [List.getD_eq_getElem _ _ (List.length_pos_iff.mpr hne)]
    exact List.getElem_mem _
  obtain ⟨t, ht, hnt⟩ := List.mem_map.mp (hk.perm.subset hroot)
  have hle : index.getD 0 default ≤ nonce tx :=
    hk.heap.getD_zero_le (hk.perm.symm.subset (List.mem_map_of_mem List.mem_cons_self))
  have hge : nonce tx ≤ nonce t := by
    rcases List.mem_cons.mp ht with rfl | ht
    · exact le_rfl
    · exact (List.rel_of_pairwise_cons hk.sorted ht).le
  rw [← hnt] at hle ⊢
  exact le_antisymm hle hge

/-- Popping the index takes off the front of the list. -/
theorem Keyed.pop {tx : τ} {rest : List τ} (hk : Keyed nonce items index (tx :: rest)) :
    ∃ index', BinaryHeap.pop index = some (index', nonce tx) ∧
      Keyed nonce (items.erase (nonce tx)) index' rest := by
  have hne : index ≠ [] := fun h => by simpa [h] using hk.perm.length_eq
  obtain ⟨⟨index', x⟩, hp⟩ := Option.ne_none_iff_exists'.mp (BinaryHeap.pop_ne_none hne)
  obtain ⟨hheap, hperm, hx⟩ := BinaryHeap.pop_spec hk.heap hp
  rw [hk.getD_zero] at hx
  subst hx
  refine ⟨index', hp, ⟨hk.sorted.of_cons, fun n t => ?_⟩, ?_, hheap⟩
  · have hfresh : ∀ t ∈ rest, nonce t ≠ nonce tx := fun t ht =>
      (List.rel_of_pairwise_cons hk.sorted ht).ne'
    by_cases hn : n = nonce tx
    · subst hn
      rw [Finmap.lookup_erase]
      exact ⟨fun h => absurd h.symm (Option.some_ne_none t), fun ⟨ht, hnt⟩ => absurd hnt (hfresh t ht)⟩
    · rw [Finmap.lookup_erase_ne hn, hk.lookup_iff, List.mem_cons]
      constructor
      · rintro ⟨rfl | ht, rfl⟩
        · exact absurd rfl hn
        · exact ⟨ht, rfl⟩
      · rintro ⟨ht, rfl⟩
        exact ⟨.inr ht, rfl⟩
  · have hcons := (List.perm_append_singleton _ _).symm.trans (hperm.trans hk.perm)
    exact List.Perm.cons_inv hcons

variable (nonce) in
/-- The invariant of `txSortedMap`, with `l` the transactions it holds in nonce order: the cache,
where there is one, is `l`. -/
structure Represents (m : TxSortedMap τ) (l : List τ) : Prop extends Keyed nonce m.items m.index l where
  cache_eq : m.cache = none ∨ m.cache = some l

/-! ### `Put` -/

theorem mem_map_insertByNonce {tx : τ} {a : UInt64} :
    a ∈ (insertByNonce nonce tx l).map nonce ↔ a = nonce tx ∨ a ∈ l.map nonce := by
  simp only [List.mem_map, mem_insertByNonce]
  constructor
  · rintro ⟨t, rfl | ⟨ht, -⟩, rfl⟩
    · exact .inl rfl
    · exact .inr ⟨t, ht, rfl⟩
  · rintro (rfl | ⟨t, ht, rfl⟩)
    · exact ⟨tx, .inl rfl, rfl⟩
    · by_cases hn : nonce t = nonce tx
      · exact ⟨tx, .inl rfl, hn.symm⟩
      · exact ⟨t, .inr ⟨ht, hn⟩, rfl⟩

theorem Keyed.put (hk : Keyed nonce items index l) (tx : τ) :
    Keyed nonce (items.insert (nonce tx) tx)
      (if items.lookup (nonce tx) = none then BinaryHeap.push index (nonce tx) else index)
      (insertByNonce nonce tx l) := by
  have hsorted := hk.sorted.insertByNonce tx
  have hlookup : ∀ n t, (items.insert (nonce tx) tx).lookup n = some t ↔
      t ∈ insertByNonce nonce tx l ∧ nonce t = n := by
    intro n t
    rw [mem_insertByNonce]
    by_cases hn : n = nonce tx
    · subst hn
      rw [Finmap.lookup_insert, Option.some.injEq]
      constructor
      · rintro rfl
        exact ⟨.inl rfl, rfl⟩
      · rintro ⟨rfl | ⟨-, hne⟩, heq⟩
        · rfl
        · exact absurd heq hne
    · rw [Finmap.lookup_insert_of_ne _ hn, hk.lookup_iff]
      constructor
      · rintro ⟨ht, rfl⟩
        exact ⟨.inr ⟨ht, hn⟩, rfl⟩
      · rintro ⟨rfl | ⟨ht, -⟩, rfl⟩
        · exact absurd rfl hn
        · exact ⟨ht, rfl⟩
  split_ifs with hnone
  · have hfresh := (hk.toHolds.lookup_eq_none _).mp hnone
    obtain ⟨hheap, hperm⟩ := BinaryHeap.isHeap_push hk.heap (nonce tx)
    have hnodup : (l.map nonce ++ [nonce tx]).Nodup :=
      List.nodup_append.mpr ⟨hk.sorted.nodup, List.nodup_singleton _,
        fun a ha b hb => by rw [List.mem_singleton.mp hb]; exact fun h => hfresh (h ▸ ha)⟩
    refine ⟨⟨hsorted, hlookup⟩, hperm.trans ((hk.perm.append_right _).trans ?_), hheap⟩
    rw [List.perm_ext_iff_of_nodup hnodup hsorted.nodup]
    intro a
    rw [mem_map_insertByNonce, List.mem_append, List.mem_singleton, or_comm]
  · have hmem : nonce tx ∈ l.map nonce := by
      by_contra h
      exact hnone ((hk.toHolds.lookup_eq_none _).mpr h)
    refine ⟨⟨hsorted, hlookup⟩, hk.perm.trans ?_, hk.heap⟩
    rw [List.perm_ext_iff_of_nodup hk.sorted.nodup hsorted.nodup]
    intro a
    rw [mem_map_insertByNonce]
    constructor
    · exact .inr
    · rintro (rfl | h)
      · exact hmem
      · exact h

theorem Represents.put {m : TxSortedMap τ} (hr : Represents nonce m l) (tx : τ) :
    Represents nonce (m.put nonce tx) (insertByNonce nonce tx l) :=
  ⟨hr.toKeyed.put tx, .inl rfl⟩

/-! ### `Forward` -/

theorem SortedByNonce.le_of_mem {tx t : τ} {rest : List τ} (hl : SortedByNonce nonce (tx :: rest))
    (ht : t ∈ tx :: rest) : nonce tx ≤ nonce t := by
  rcases List.mem_cons.mp ht with rfl | ht
  · exact le_rfl
  · exact (List.rel_of_pairwise_cons hl ht).le

/-- Where the least nonce is at or past the threshold, so is every nonce. -/
theorem SortedByNonce.filter_of_not_lt {tx : τ} {rest : List τ} (hl : SortedByNonce nonce (tx :: rest))
    {threshold : UInt64} (hlt : ¬ nonce tx < threshold) :
    (tx :: rest).filter (fun t => nonce t < threshold) = [] ∧
      (tx :: rest).filter (fun t => threshold ≤ nonce t) = tx :: rest := by
  have hge : ∀ t ∈ tx :: rest, threshold ≤ nonce t := fun t ht =>
    (not_lt.mp hlt).trans (hl.le_of_mem ht)
  exact ⟨List.filter_eq_nil_iff.mpr fun t ht => by simpa using hge t ht,
    List.filter_eq_self.mpr fun t ht => by simpa using hge t ht⟩

/-- A sorted list is its nonces below the threshold, then the others. -/
theorem SortedByNonce.filter_append (hl : SortedByNonce nonce l) (threshold : UInt64) :
    l.filter (fun tx => nonce tx < threshold) ++ l.filter (fun tx => threshold ≤ nonce tx) = l := by
  induction l with
  | nil => rfl
  | cons tx rest ih =>
    by_cases hlt : nonce tx < threshold
    · rw [List.filter_cons_of_pos (by simpa using hlt), List.filter_cons_of_neg (by simpa using hlt),
        List.cons_append, ih hl.of_cons]
    · obtain ⟨hnil, hself⟩ := hl.filter_of_not_lt hlt
      rw [hnil, hself, List.nil_append]

/-- The loop of `Forward` pops the nonces below the threshold, in order. -/
theorem forwardLoop_spec (threshold : UInt64) (l : List τ) :
    ∀ (items : Items τ) (index : List UInt64) (removed : List (Option τ)), Keyed nonce items index l →
      ∃ items' index', TxSortedMap.forwardLoop threshold items index removed =
        (items', index', removed ++ (l.filter fun tx => nonce tx < threshold).map some) ∧
        Keyed nonce items' index' (l.filter fun tx => threshold ≤ nonce tx) := by
  induction l with
  | nil =>
    intro items index removed hk
    have hnil : index = [] := hk.perm.eq_nil
    refine ⟨items, index, ?_, by simpa using hk⟩
    rw [TxSortedMap.forwardLoop, if_neg (by rw [hnil]; exact fun h => h.1 rfl)]
    simp
  | cons tx rest ih =>
    intro items index removed hk
    have hne : index ≠ [] := fun h => by simpa [h] using hk.perm.length_eq
    by_cases hlt : nonce tx < threshold
    · obtain ⟨index', hp, hk'⟩ := hk.pop
      obtain ⟨items', index'', hloop, hk''⟩ := ih _ index' (removed ++ [some tx]) hk'
      refine ⟨items', index'', ?_, ?_⟩
      · rw [TxSortedMap.forwardLoop, if_pos ⟨hne, by rw [hk.getD_zero]; exact hlt⟩]
        split
        · next index₁ n hp₁ =>
          rw [hp] at hp₁
          obtain ⟨rfl, rfl⟩ := Prod.mk.inj (Option.some.inj hp₁)
          rw [(hk.lookup_iff _ tx).mpr ⟨List.mem_cons_self, rfl⟩, hloop,
            List.filter_cons_of_pos (by simpa using hlt)]
          simp
        · next hp₁ =>
          rw [hp] at hp₁
          cases hp₁
      · rwa [List.filter_cons_of_neg (by simpa using hlt)]
    · obtain ⟨hnil, hself⟩ := hk.sorted.filter_of_not_lt hlt
      refine ⟨items, index, ?_, by rwa [hself]⟩
      rw [TxSortedMap.forwardLoop, if_neg (by rw [hk.getD_zero]; exact fun h => hlt h.2), hnil,
        List.map_nil, List.append_nil]

theorem Represents.forward {m : TxSortedMap τ} (hr : Represents nonce m l) (threshold : UInt64) :
    ∃ m', m.forward threshold = some (m', (l.filter fun tx => nonce tx < threshold).map some) ∧
      Represents nonce m' (l.filter fun tx => threshold ≤ nonce tx) := by
  obtain ⟨items', index', hloop, hk⟩ := forwardLoop_spec threshold l m.items m.index [] hr.toKeyed
  rw [List.nil_append] at hloop
  unfold TxSortedMap.forward
  rw [hloop]
  rcases hr.cache_eq with hc | hc <;> rw [hc] <;> dsimp only
  · exact ⟨_, rfl, hk, .inl rfl⟩
  · rw [if_pos (by rw [List.length_map]; exact List.length_filter_le _ _)]
    refine ⟨_, rfl, hk, .inr (congrArg some ?_)⟩
    rw [List.length_map]
    calc l.drop (l.filter fun tx => nonce tx < threshold).length
        = ((l.filter fun tx => nonce tx < threshold) ++ l.filter fun tx => threshold ≤ nonce tx).drop
            (l.filter fun tx => nonce tx < threshold).length := by
          rw [hr.sorted.filter_append]
      _ = l.filter fun tx => threshold ≤ nonce tx := List.drop_left

/-! ### `Filter` -/

/-- The loop of `Filter` returns, in order, what the filter takes of the entries, and deletes
their keys. -/
theorem filterLoop_spec (p : τ → Bool) :
    ∀ (es : List (Σ _ : UInt64, τ)) (items : Items τ) (removed : List τ),
      (TxSortedMap.filterLoop p es items removed).2 =
          removed ++ (es.filter fun e => p e.2).map Sigma.snd ∧
        ∀ n, (TxSortedMap.filterLoop p es items removed).1.lookup n =
          if ∃ e ∈ es, e.1 = n ∧ p e.2 = true then none else items.lookup n
  | [], items, removed => by simp [TxSortedMap.filterLoop]
  | ⟨n', tx⟩ :: rest, items, removed => by
    by_cases hp : p tx = true
    · obtain ⟨hrem, hlook⟩ := filterLoop_spec p rest (items.erase n') (removed ++ [tx])
      rw [TxSortedMap.filterLoop, if_pos hp]
      refine ⟨by rw [hrem]; simp [hp], fun n => ?_⟩
      rw [hlook]
      simp only [List.mem_cons, or_and_right, exists_or, exists_eq_left]
      by_cases hn : n = n'
      · subst hn
        simp only [Finmap.lookup_erase, ite_self, hp, and_self, true_or, if_true]
      · simp only [Finmap.lookup_erase_ne hn, Ne.symm hn, false_and, false_or]
    · obtain ⟨hrem, hlook⟩ := filterLoop_spec p rest items removed
      rw [TxSortedMap.filterLoop, if_neg hp]
      refine ⟨by rw [hrem]; simp [hp], fun n => ?_⟩
      rw [hlook]
      simp only [List.mem_cons, or_and_right, exists_or, exists_eq_left, hp, Bool.false_eq_true,
        and_false, false_or]

/-- Over the entries of a map that holds `l`, the loop of `Filter` returns what the filter takes
of `l` and leaves what it does not. -/
theorem Holds.filterLoop (hk : Holds nonce items l) {es : List (Σ _ : UInt64, τ)}
    (hes : (es : Multiset _) = items.entries) (p : τ → Bool) :
    (TxSortedMap.filterLoop p es items []).2.Perm (l.filter p) ∧
      Holds nonce (TxSortedMap.filterLoop p es items []).1 (l.filter fun tx => !p tx) := by
  obtain ⟨hrem, hlook⟩ := filterLoop_spec p es items []
  have hperm : es.Perm (l.map fun tx => ⟨nonce tx, tx⟩) := Multiset.coe_eq_coe.mp (hes.trans hk.entries)
  have hmem : ∀ n tx, (⟨n, tx⟩ : Σ _ : UInt64, τ) ∈ es ↔ items.lookup n = some tx := fun n tx => by
    rw [← Multiset.mem_coe, hes, Finmap.lookup_eq_some_iff]
  refine ⟨?_, hk.sorted.filter _, fun n t => ?_⟩
  · have hsnd := (hperm.filter fun e => p e.2).map Sigma.snd
    rw [List.filter_map, List.map_map] at hsnd
    rw [hrem, List.nil_append]
    simpa [Function.comp_def] using hsnd
  · rw [hlook]
    split_ifs with hex
    · obtain ⟨⟨n', tx⟩, he, rfl, hp⟩ := hex
      refine ⟨False.elim, fun ⟨ht, hnt⟩ => ?_⟩
      rw [List.mem_filter] at ht
      have hlt := (hk.lookup_iff _ t).mpr ⟨ht.1, hnt⟩
      rw [(hmem _ _).mp he, Option.some.injEq] at hlt
      subst hlt
      simp [hp] at ht
    · rw [hk.lookup_iff, List.mem_filter]
      constructor
      · rintro ⟨ht, rfl⟩
        refine ⟨⟨ht, ?_⟩, rfl⟩
        by_contra hpt
        exact hex ⟨⟨nonce t, t⟩, (hmem _ _).mpr ((hk.lookup_iff _ _).mpr ⟨ht, rfl⟩), rfl,
          by simpa using hpt⟩
      · rintro ⟨⟨ht, -⟩, rfl⟩
        exact ⟨ht, rfl⟩

theorem Represents.filter {m : TxSortedMap τ} (hr : Represents nonce m l) (p : τ → Bool)
    (o : MapOrder τ) (hvalid : (TxSortedMap.Op.filter p o).Valid m) :
    (m.filter p o).2.Perm (l.filter p) ∧ Represents nonce (m.filter p o).1 (l.filter fun tx => !p tx) := by
  obtain ⟨he, hkeys⟩ := hvalid
  obtain ⟨hrem, hholds⟩ := hr.toHolds.filterLoop he p
  unfold TxSortedMap.filter
  rcases hloop : TxSortedMap.filterLoop p o.entries m.items [] with ⟨items', removed⟩
  rw [hloop] at hrem hholds hkeys
  dsimp only
  split_ifs with hpos
  · obtain ⟨hheap, hperm⟩ := BinaryHeap.isHeap_init o.keys
    have hk : o.keys.Perm ((l.filter fun tx => !p tx).map nonce) :=
      Multiset.coe_eq_coe.mp (hkeys.trans hholds.keys)
    exact ⟨hrem, ⟨hholds, hperm.trans hk, hheap⟩, .inl rfl⟩
  · have hnil : l.filter p = [] := (List.length_eq_zero_iff.mp (by omega : removed.length = 0) ▸ hrem).nil_eq.symm
    have hself : l.filter (fun tx => !p tx) = l := List.filter_eq_self.mpr fun t ht => by
      have hpt : ¬ p t = true := fun hpt => by
        simpa [hnil] using List.mem_filter.mpr ⟨ht, hpt⟩
      simpa using hpt
    rw [hself] at hholds ⊢
    exact ⟨hrem, ⟨hholds, hr.perm, hr.heap⟩, hr.cache_eq⟩

/-! ### `Cap` and `Remove` -/

/-- Deleting a nonce from the map deletes its transaction from the list. -/
theorem Holds.erase (hk : Holds nonce items l) (n : UInt64) :
    Holds nonce (items.erase n) (l.filter fun tx => nonce tx ≠ n) := by
  refine ⟨hk.sorted.filter _, fun n' t => ?_⟩
  rw [List.mem_filter, decide_eq_true_iff]
  by_cases hn : n' = n
  · subst hn
    rw [Finmap.lookup_erase]
    exact ⟨fun h => absurd h.symm (Option.some_ne_none t), fun ⟨⟨_, hne⟩, heq⟩ => absurd heq hne⟩
  · rw [Finmap.lookup_erase_ne hn, hk.lookup_iff]
    constructor
    · rintro ⟨ht, rfl⟩
      exact ⟨⟨ht, hn⟩, rfl⟩
    · rintro ⟨⟨ht, -⟩, rfl⟩
      exact ⟨ht, rfl⟩

/-- The last of a sorted list is the only one with its nonce. -/
theorem SortedByNonce.filter_ne_last {x : τ} (hl : SortedByNonce nonce (l ++ [x])) :
    (l ++ [x]).filter (fun tx => nonce tx ≠ nonce x) = l := by
  have hlt : ∀ t ∈ l, nonce t < nonce x := fun t ht =>
    (List.pairwise_append.mp hl).2.2 t ht x List.mem_cons_self
  rw [List.filter_append, List.filter_eq_self.mpr fun t ht => by simpa using (hlt t ht).ne]
  simp

/-- Past a negative threshold the loop of `Cap` reads `(*m.index)[-1]`. -/
theorem capLoop_of_neg {threshold : ℤ} (h : threshold < 0) (sorted : List UInt64) :
    ∀ (size : ℕ) (items : Items τ) (drops : List (Option τ)),
      TxSortedMap.capLoop threshold sorted size items drops = none
  | 0, _, _ => by rw [TxSortedMap.capLoop, if_pos h]
  | size + 1, items, drops => by
    rw [TxSortedMap.capLoop, if_pos (by omega)]
    split
    · rfl
    · exact capLoop_of_neg h sorted size _ _

/-- `Cap` with a negative threshold panics, whatever the map. -/
theorem cap_of_neg (m : TxSortedMap τ) {threshold : ℤ} (h : threshold < 0) : m.cap threshold = none := by
  rw [TxSortedMap.cap, if_neg (by omega)]
  dsimp only
  rw [capLoop_of_neg h, Option.bind_none]

/-- The loop of `Cap` over the sorted nonces deletes those from `k` to `size`, last first. -/
theorem capLoop_spec {k : ℕ} (hl : SortedByNonce nonce l) :
    ∀ (size : ℕ) (items : Items τ) (drops : List (Option τ)), k ≤ size → size ≤ l.length →
      Holds nonce items (l.take size) →
      ∃ items', TxSortedMap.capLoop (k : ℤ) (l.map nonce) size items drops =
        some (items', drops ++ ((l.take size).drop k).reverse.map some) ∧ Holds nonce items' (l.take k)
  | 0, items, drops, hk, _, hh => by
    obtain rfl : k = 0 := by omega
    exact ⟨items, by rw [TxSortedMap.capLoop, if_neg (by omega)]; simp, hh⟩
  | size + 1, items, drops, hk, hsize, hh => by
    rcases Nat.eq_or_lt_of_le hk with rfl | hlt
    · refine ⟨items, ?_, hh⟩
      rw [TxSortedMap.capLoop, if_neg (by omega)]
      simp
    · have hs : size < l.length := by omega
      have htake : l.take (size + 1) = l.take size ++ [l[size]] := by
        rw [List.take_add_one, List.getElem?_eq_getElem hs, Option.toList_some]
      have hsorted : SortedByNonce nonce (l.take size ++ [l[size]]) := htake ▸ hl.sublist (List.take_sublist _ _)
      have hh' : Holds nonce (items.erase (nonce l[size])) (l.take size) := by
        have := (htake ▸ hh).erase (nonce l[size])
        rwa [hsorted.filter_ne_last] at this
      obtain ⟨items', hloop, hk'⟩ := capLoop_spec (k := k) hl size _ (drops ++ [some l[size]]) (by omega) (by omega) hh'
      refine ⟨items', ?_, hk'⟩
      have hlookup : items.lookup (nonce l[size]) = some l[size] :=
        (hh.lookup_iff _ _).mpr ⟨htake ▸ List.mem_append_right _ List.mem_cons_self, rfl⟩
      rw [TxSortedMap.capLoop, if_pos (by omega), List.getElem?_map, List.getElem?_eq_getElem hs,
        Option.map_some]
      dsimp only
      rw [hlookup, hloop, htake, List.drop_append_of_le_length (by simp; omega)]
      simp

theorem Holds.mergeSort_eq {index : List UInt64} (hk : Holds nonce items l)
    (hperm : index.Perm (l.map nonce)) : index.mergeSort = l.map nonce := by
  refine List.Perm.eq_of_pairwise (fun a b _ _ hab hba => ?_)
    (List.pairwise_mergeSort (fun a b c hab hbc => ?_) (fun a b => ?_) index)
    ((hk.sorted.map nonce fun _ _ h => h).imp fun h => by simpa using h.le)
    ((List.mergeSort_perm _ _).trans hperm)
  · simp only [decide_eq_true_eq] at hab hba
    exact le_antisymm hab hba
  · simp only [decide_eq_true_eq] at hab hbc ⊢
    exact hab.trans hbc
  · simpa using le_total a b

/-- `Cap(k)` keeps the first `k` and returns the others, the highest nonce first. -/
theorem Represents.cap {m : TxSortedMap τ} (hr : Represents nonce m l) (k : ℕ) :
    ∃ m', m.cap k = some (m', (l.drop k).reverse.map some) ∧ Represents nonce m' (l.take k) := by
  have hlen : m.len = l.length := hr.card_keys
  unfold TxSortedMap.cap
  by_cases hk : l.length ≤ k
  · rw [if_pos (by rw [hlen]; exact_mod_cast hk), List.drop_eq_nil_of_le hk, List.take_of_length_le hk]
    exact ⟨m, rfl, hr⟩
  rw [if_neg (by rw [hlen]; exact_mod_cast hk)]
  dsimp only
  rw [hr.mergeSort_eq hr.perm, hlen]
  obtain ⟨items', hloop, hh⟩ := capLoop_spec (k := k) hr.sorted l.length m.items [] (by omega) le_rfl
    (by rw [List.take_length]; exact hr.toHolds)
  rw [hloop, List.take_length, List.nil_append, Option.bind_some]
  dsimp only
  obtain ⟨hheap, hperm⟩ := BinaryHeap.isHeap_init ((l.map nonce).take k)
  have hkeyed : Keyed nonce items' (BinaryHeap.init ((l.map nonce).take (k : ℤ).toNat)) (l.take k) := by
    rw [Int.toNat_natCast]
    exact ⟨hh, hperm.trans (by rw [List.map_take]), hheap⟩
  rcases hr.cache_eq with hc | hc <;> rw [hc] <;> dsimp only
  · exact ⟨_, rfl, hkeyed, .inl rfl⟩
  · rw [if_pos (by simp)]
    refine ⟨_, rfl, hkeyed, .inr (congrArg some ?_)⟩
    simp only [List.length_map, List.length_reverse, List.length_drop]
    congr 1
    omega

theorem Represents.remove {m : TxSortedMap τ} (hr : Represents nonce m l) (n : UInt64) :
    (m.remove n).2 = decide (n ∈ l.map nonce) ∧
      Represents nonce (m.remove n).1 (l.filter fun tx => nonce tx ≠ n) := by
  have hmem : n ∈ m.items ↔ n ∈ l.map nonce := by
    rw [← Finmap.lookup_isSome, Option.isSome_iff_ne_none, ne_eq, hr.lookup_eq_none, not_not]
  unfold TxSortedMap.remove
  by_cases hn : n ∈ m.items
  · rw [if_neg (not_not.mpr hn)]
    have hin : n ∈ m.index := hr.perm.symm.subset (hmem.mp hn)
    have hi : m.index.idxOf n < m.index.length := List.idxOf_lt_length_iff.mpr hin
    obtain ⟨⟨index', x⟩, hrm⟩ := Option.ne_none_iff_exists'.mp (BinaryHeap.remove_ne_none hi)
    obtain ⟨hheap, hperm, hx⟩ := BinaryHeap.remove_spec hr.heap hrm
    rw [List.getD_eq_getElem _ _ hi, List.getElem_idxOf hi] at hx
    subst hx
    rw [hrm]
    refine ⟨by simpa using hmem.mp hn, ⟨hr.toHolds.erase _, ?_, hheap⟩, .inl rfl⟩
    have hsplit : (l.map nonce).Perm ((l.filter fun tx => nonce tx ≠ x).map nonce ++ [x]) := by
      have hnodup := hr.sorted.nodup
      have hfresh : x ∉ (l.filter fun tx => nonce tx ≠ x).map nonce := by simp
      rw [List.perm_ext_iff_of_nodup hnodup (List.nodup_append.mpr ⟨(hr.sorted.filter _).nodup,
        List.nodup_singleton _, fun a ha b hb => by rw [List.mem_singleton.mp hb]; exact fun h => hfresh (h ▸ ha)⟩)]
      intro a
      simp only [List.mem_append, List.mem_singleton, List.mem_map, List.mem_filter, decide_eq_true_eq]
      constructor
      · rintro ⟨t, ht, rfl⟩
        by_cases hx : nonce t = x
        · exact .inr hx
        · exact .inl ⟨t, ⟨ht, hx⟩, rfl⟩
      · rintro (⟨t, ⟨ht, -⟩, rfl⟩ | rfl)
        · exact ⟨t, ht, rfl⟩
        · exact List.mem_map.mp (hmem.mp hn)
    exact List.perm_append_right_iff _ |>.mp (hperm.trans (hr.perm.trans hsplit))
  · rw [if_pos hn]
    have hself : l.filter (fun tx => nonce tx ≠ n) = l := List.filter_eq_self.mpr fun t ht => by
      simpa using fun (h : nonce t = n) => hn (hmem.mpr (h ▸ List.mem_map_of_mem ht))
    rw [hself]
    exact ⟨by simpa using fun h => hn (hmem.mpr h), hr⟩

/-! ### `Ready` and `Flatten` -/

/-- The loop of `Ready` pops the run of nonces counting up from `nx`. -/
theorem readyLoop_spec (l : List τ) :
    ∀ (items : Items τ) (index : List UInt64) (nx : UInt64) (ready : List (Option τ)),
      Keyed nonce items index l →
      ∃ items' index', TxSortedMap.readyLoop items index nx ready =
        (items', index', ready ++ (runFrom nonce nx l).map some) ∧
        Keyed nonce items' index' (l.drop (runFrom nonce nx l).length) := by
  induction l with
  | nil =>
    intro items index nx ready hk
    have hnil : index = [] := hk.perm.eq_nil
    refine ⟨items, index, ?_, by simpa [runFrom] using hk⟩
    rw [TxSortedMap.readyLoop, if_neg (by rw [hnil]; exact fun h => h.1 rfl)]
    simp [runFrom]
  | cons tx rest ih =>
    intro items index nx ready hk
    have hne : index ≠ [] := fun h => by simpa [h] using hk.perm.length_eq
    by_cases hnx : nonce tx = nx
    · subst hnx
      obtain ⟨index', hp, hk'⟩ := hk.pop
      obtain ⟨items', index'', hloop, hk''⟩ := ih _ index' (nonce tx + 1) (ready ++ [some tx]) hk'
      refine ⟨items', index'', ?_, ?_⟩
      · rw [TxSortedMap.readyLoop, if_pos ⟨hne, hk.getD_zero⟩]
        split
        · next index₁ n hp₁ =>
          rw [hp] at hp₁
          obtain ⟨rfl, rfl⟩ := Prod.mk.inj (Option.some.inj hp₁)
          rw [(hk.lookup_iff _ tx).mpr ⟨List.mem_cons_self, rfl⟩, hloop, runFrom_self]
          simp
        · next hp₁ =>
          rw [hp] at hp₁
          cases hp₁
      · rwa [runFrom_self, List.length_cons, List.drop_succ_cons]
    · refine ⟨items, index, ?_, ?_⟩
      · rw [TxSortedMap.readyLoop, if_neg (by rw [hk.getD_zero]; exact fun h => hnx h.2), runFrom,
          if_neg hnx]
        simp
      · rwa [runFrom, if_neg hnx, List.length_nil, List.drop_zero]

theorem Represents.ready {m : TxSortedMap τ} (hr : Represents nonce m l) (start : UInt64) :
    (m.ready start).2 = (readyRun nonce start l).map some ∧
      Represents nonce (m.ready start).1 (l.drop (readyRun nonce start l).length) := by
  unfold TxSortedMap.ready
  cases l with
  | nil =>
    rw [if_pos (.inl hr.perm.eq_nil)]
    exact ⟨rfl, hr⟩
  | cons tx rest =>
    have hne : m.index ≠ [] := fun h => by simpa [h] using hr.perm.length_eq
    by_cases hs : start < nonce tx
    · rw [if_pos (.inr (by rw [hr.getD_zero]; exact hs))]
      simp only [readyRun, if_pos hs, List.map_nil, List.length_nil, List.drop_zero, true_and]
      exact hr
    · rw [if_neg (by rw [hr.getD_zero]; exact not_or.mpr ⟨hne, hs⟩), hr.getD_zero]
      obtain ⟨items', index', hloop, hk⟩ :=
        readyLoop_spec (tx :: rest) m.items m.index (nonce tx) [] hr.toKeyed
      rw [hloop]
      simp only [readyRun, if_neg hs, List.nil_append, true_and]
      exact ⟨hk, .inl rfl⟩

/-- Sorting the entries of a map that holds `l` by nonce gives `l`. -/
theorem Holds.mergeSort_entries (hk : Holds nonce items l) {entries : List (Σ _ : UInt64, τ)}
    (he : (entries : Multiset _) = items.entries) :
    (entries.map Sigma.snd).mergeSort (fun a b => nonce a ≤ nonce b) = l := by
  have hperm : (entries.map Sigma.snd).Perm l := by
    have := (Multiset.coe_eq_coe.mp (he.trans hk.entries)).map Sigma.snd
    simpa [Function.comp_def] using this
  refine List.Perm.eq_of_pairwise (fun a b ha hb hab hba => ?_)
    (List.pairwise_mergeSort (fun a b c hab hbc => ?_) (fun a b => ?_) _)
    (hk.sorted.imp fun h => by simpa using h.le)
    ((List.mergeSort_perm _ _).trans hperm)
  · have ha' : a ∈ l := ((List.mergeSort_perm _ _).trans hperm).subset ha
    simp only [decide_eq_true_eq] at hab hba
    have hsome := (hk.lookup_iff (nonce a) b).mpr ⟨hb, le_antisymm hba hab⟩
    rw [(hk.lookup_iff _ a).mpr ⟨ha', rfl⟩, Option.some.injEq] at hsome
    exact hsome
  · simp only [decide_eq_true_eq] at hab hbc ⊢
    exact hab.trans hbc
  · simpa using le_total (nonce a) (nonce b)

theorem Represents.flatten {m : TxSortedMap τ} (hr : Represents nonce m l)
    {entries : List (Σ _ : UInt64, τ)} (he : (entries : Multiset _) = m.items.entries) :
    (m.flatten nonce entries).2 = l ∧ Represents nonce (m.flatten nonce entries).1 l := by
  unfold TxSortedMap.flatten
  rcases hr.cache_eq with hc | hc <;> rw [hc] <;> dsimp only
  · rw [hr.mergeSort_entries he]
    exact ⟨rfl, hr.toKeyed, .inr rfl⟩
  · exact ⟨rfl, hr⟩

/-- `Ready(start)` takes nothing where the least nonce is above `start`, and otherwise the longest
run of consecutive nonces from the least. -/
theorem SortedByNonce.readyRun {start : UInt64} (hl : SortedByNonce nonce l) :
    (readyRun nonce start l = [] ∧ ∀ tx ∈ l.head?, start < nonce tx) ∨
      (∃ tx ∈ l.head?, nonce tx ≤ start) ∧ IsMaxRun nonce (readyRun nonce start l) l := by
  cases l with
  | nil => exact .inl ⟨rfl, by simp⟩
  | cons tx rest =>
    by_cases hs : start < nonce tx
    · exact .inl ⟨by rw [GoXdn.Core.readyRun, if_pos hs], by simpa using hs⟩
    · refine .inr ⟨⟨tx, rfl, not_lt.mp hs⟩, ?_⟩
      rw [GoXdn.Core.readyRun, if_neg hs]
      exact isMaxRun_runFrom tx rest hl

/-! ### Every sequence of calls -/

theorem represents_new : Represents nonce (newTxSortedMap : TxSortedMap τ) [] :=
  ⟨⟨⟨List.Pairwise.nil, fun n tx => by simp [newTxSortedMap]⟩, List.Perm.nil,
    fun c _ hcn => absurd hcn (by simp [newTxSortedMap])⟩, .inl rfl⟩

/-- A call that does not panic keeps the invariant. -/
theorem Represents.apply {m m' : TxSortedMap τ} (hr : Represents nonce m l) {op : TxSortedMap.Op τ}
    (hvalid : op.Valid m) (happ : m.apply nonce op = some m') : ∃ l', Represents nonce m' l' := by
  cases op with
  | put tx =>
    cases happ
    exact ⟨_, hr.put tx⟩
  | forward threshold =>
    obtain ⟨m'', hfw, hr'⟩ := hr.forward threshold
    rw [TxSortedMap.apply, hfw, Option.map_some] at happ
    cases happ
    exact ⟨_, hr'⟩
  | filter p o =>
    cases happ
    exact ⟨_, (hr.filter p o hvalid).2⟩
  | cap threshold =>
    rcases lt_or_ge threshold 0 with hneg | hnonneg
    · rw [TxSortedMap.apply, cap_of_neg _ hneg, Option.map_none] at happ
      cases happ
    · obtain ⟨k, rfl⟩ := Int.eq_ofNat_of_zero_le hnonneg
      obtain ⟨m'', hcap, hr'⟩ := hr.cap k
      rw [TxSortedMap.apply, hcap, Option.map_some] at happ
      cases happ
      exact ⟨_, hr'⟩
  | remove n =>
    cases happ
    exact ⟨_, (hr.remove n).2⟩
  | ready start =>
    cases happ
    exact ⟨_, (hr.ready start).2⟩
  | flatten entries =>
    cases happ
    exact ⟨_, (hr.flatten hvalid).2⟩

theorem TxSortedMap.Reachable.represents {m : TxSortedMap τ} (h : TxSortedMap.Reachable nonce m) :
    ∃ l, Represents nonce m l := by
  induction h with
  | new => exact ⟨[], represents_new⟩
  | step _ hvalid happ ih =>
    obtain ⟨l, hr⟩ := ih
    exact hr.apply hvalid happ

variable (nonce) in
/-- How the calls on a map that holds `l` answer: `Flatten` returns `l`, `Forward(t)` the nonces
below `t` in order, `Cap(k)` all past the first `k`, highest first, and `Ready(start)` the longest
run of consecutive nonces from the least where that is at most `start`, and nothing otherwise;
each leaves a map that holds the rest. -/
structure Answers (m : TxSortedMap τ) (l : List τ) : Prop where
  flatten : ∀ entries : List (Σ _ : UInt64, τ), (entries : Multiset _) = m.items.entries →
    (m.flatten nonce entries).2 = l
  forward : ∀ threshold, ∃ m', m.forward threshold = some (m', (l.filter fun tx => nonce tx < threshold).map some) ∧
    Represents nonce m' (l.filter fun tx => threshold ≤ nonce tx)
  cap : ∀ k : ℕ, ∃ m', m.cap k = some (m', (l.drop k).reverse.map some) ∧ Represents nonce m' (l.take k)
  ready : ∀ start, ∃ r, (m.ready start).2 = r.map some ∧ Represents nonce (m.ready start).1 (l.drop r.length) ∧
    ((r = [] ∧ ∀ tx ∈ l.head?, start < nonce tx) ∨ (∃ tx ∈ l.head?, nonce tx ≤ start) ∧ IsMaxRun nonce r l)

theorem Represents.answers {m : TxSortedMap τ} (hr : Represents nonce m l) : Answers nonce m l :=
  ⟨fun _ he => (hr.flatten he).1, hr.forward, hr.cap,
    fun start => ⟨_, (hr.ready start).1, (hr.ready start).2, hr.sorted.readyRun⟩⟩

variable (nonce) in
/-- Whatever calls a map has taken, its index holds the nonces of its transactions, each once and
in heap order, its cache is `nil` or them in nonce order, and its calls answer as on that list. -/
theorem txSortedMap_consistent (m : TxSortedMap τ) (hm : TxSortedMap.Reachable nonce m) :
    ∃ l, Represents nonce m l ∧ Answers nonce m l := by
  obtain ⟨l, hr⟩ := hm.represents
  exact ⟨l, hr, hr.answers⟩

/-- Two transactions put into a new map, nonces for transactions. -/
def twoNonces : TxSortedMap UInt64 := (newTxSortedMap.put id 3).put id 1

theorem txSortedMap_consistent_twoNonces :
    TxSortedMap.Reachable id twoNonces ∧ ∃ l, Represents id twoNonces l ∧ Answers id twoNonces l :=
  have hreach : TxSortedMap.Reachable id twoNonces :=
    @TxSortedMap.Reachable.step UInt64 id _ _ (.put 1)
      (@TxSortedMap.Reachable.step UInt64 id _ _ (.put 3) .new trivial rfl) trivial rfl
  ⟨hreach, txSortedMap_consistent id twoNonces hreach⟩

/-- `Cap` with a negative threshold panics: `(*m.index)[-1]`. -/
theorem txSortedMap_cap_negative_panics : twoNonces.cap (-1) = none :=
  cap_of_neg _ (by decide)

end

end GoXdn.Core
