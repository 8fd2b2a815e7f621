import Mathlib
import GoXdn.Les.RandSelect
import GoXdn.Lib.Cumulative

/-!
# The tree of a weighted random selection

What the tree holds is read off as `setWeight` walks down to an index: `held s` is the item and
the weight at index `s`, `none` where there is none. A node of level `L` is well formed
(`WrsNode.Wf L`) when it has `wrsBranches ^ (L + 1)` places, its sum and its count are those of its
slots, and each slot is empty with weight 0, an item of positive weight at level 0, or above it a
well-formed node one level down whose sum is the slot's weight. The sum is then the sum of the
held weights and the count the number of held items (`Wf.sumWeight_eq`, `Wf.itemCnt_eq`).

`insert` into a node that is not full and `setWeight` at a held index, with a weight that is not
negative, succeed, keep the node well formed and change what it holds at that one index
(`Wf.insert`, `Wf.setWeight`). `insert` returns an index below `maxItems` that held nothing, and a
new root over a full one holds what the old root held (`held_addLevel`): the indices in the `idx`
map stay valid as the tree grows.
-/

namespace GoXdn.Les

variable {α : Type}

theorem sum_update_add {ι M : Type*} [Fintype ι] [DecidableEq ι] [AddCommMonoid M] (f : ι → M)
    (i : ι) (b : M) : ∑ j, Function.update f i b j + f i = ∑ j, f j + b := by
  rw [Finset.sum_update_of_mem (Finset.mem_univ i), ← Finset.add_sum_erase Finset.univ f
    (Finset.mem_univ i), Finset.sdiff_singleton_eq_erase]
  abel

/-- The items below a slot: one for an item, a node's `itemCnt`. -/
def Entry.count : Entry α → ℕ
  | .nil => 0
  | .item _ => 1
  | .node c => c.itemCnt

@[simp] theorem Entry.count_nil : (Entry.nil : Entry α).count = 0 := rfl

@[simp] theorem Entry.count_item (a : α) : (Entry.item a).count = 1 := rfl

@[simp] theorem Entry.count_node (c : WrsNode α) : (Entry.node c).count = c.itemCnt := rfl

/-- What a leaf slot holds: its item, with the slot's weight. -/
def Entry.itemWith : Entry α → Int64 → Option (α × Int64)
  | .item a, w => some (a, w)
  | _, _ => none

mutual
/-- The item and weight at index `s`, found as `setWeight` walks down to it. -/
def WrsNode.held : WrsNode α → ℕ → Option (α × Int64)
  | ⟨items, weights, _, level, _, maxItems⟩, s =>
    if level = 0 then
      if h : s < wrsBranches then (items ⟨s, h⟩).itemWith (weights ⟨s, h⟩) else none
    else
      let branchItems := maxItems / wrsBranches
      if branchItems = 0 then none
      else if h : s / branchItems < wrsBranches then
        (items ⟨s / branchItems, h⟩).held (s - s / branchItems * branchItems)
      else none
/-- What a node in a slot holds; nothing for the other values. -/
def Entry.held : Entry α → ℕ → Option (α × Int64)
  | .node c, s => c.held s
  | _, _ => none
end

mutual
/-- A node of level `L` as the tree keeps it. -/
inductive WrsNode.Wf : ℕ → WrsNode α → Prop
  | intro {L : ℕ} {n : WrsNode α} (level : n.level = L) (maxItems : n.maxItems = wrsBranches ^ (L + 1))
      (sumWeight : n.sumWeight = ∑ i, n.weights i) (itemCnt : n.itemCnt = ∑ i, (n.items i).count)
      (slots : ∀ i, Entry.Wf L (n.items i) (n.weights i)) : WrsNode.Wf L n
/-- A slot of a node of level `L` with its weight. -/
inductive Entry.Wf : ℕ → Entry α → Int64 → Prop
  | nil {L : ℕ} : Entry.Wf L .nil 0
  | item {a : α} {w : Int64} : 0 < w → Entry.Wf 0 (.item a) w
  | node {L : ℕ} {c : WrsNode α} : c.Wf L → Entry.Wf (L + 1) (.node c) c.sumWeight
end

namespace WrsNode

variable {L : ℕ} {n : WrsNode α}

theorem Wf.level : n.Wf L → n.level = L
  | ⟨h, _, _, _, _⟩ => h

theorem Wf.maxItems : n.Wf L → n.maxItems = wrsBranches ^ (L + 1)
  | ⟨_, h, _, _, _⟩ => h

theorem Wf.sumWeight : n.Wf L → n.sumWeight = ∑ i, n.weights i
  | ⟨_, _, h, _, _⟩ => h

theorem Wf.itemCnt : n.Wf L → n.itemCnt = ∑ i, (n.items i).count
  | ⟨_, _, _, h, _⟩ => h

theorem Wf.slots : n.Wf L → ∀ i, Entry.Wf L (n.items i) (n.weights i)
  | ⟨_, _, _, _, h⟩ => h

end WrsNode

/-! ## The slots of a well-formed node -/

namespace Entry.Wf

variable {L : ℕ} {e : Entry α} {w : Int64}

theorem zero_cases (h : Entry.Wf 0 e w) : (e = .nil ∧ w = 0) ∨ ∃ a, e = .item a ∧ 0 < w := by
  cases h with
  | nil => exact .inl ⟨rfl, rfl⟩
  | item hw => exact .inr ⟨_, rfl, hw⟩

theorem succ_cases (h : Entry.Wf (L + 1) e w) :
    (e = .nil ∧ w = 0) ∨ ∃ c, e = .node c ∧ w = c.sumWeight ∧ c.Wf L := by
  cases h with
  | nil => exact .inl ⟨rfl, rfl⟩
  | node hc => exact .inr ⟨_, rfl, rfl, hc⟩

end Entry.Wf

namespace WrsNode

variable {L : ℕ} {n : WrsNode α}

theorem pow_wrsBranches_pos (k : ℕ) : 0 < wrsBranches ^ k := pow_pos (by decide) k

theorem Wf.branchItems (h : n.Wf (L + 1)) : n.maxItems / wrsBranches = wrsBranches ^ (L + 1) := by
  rw [h.maxItems, pow_succ, Nat.mul_div_cancel _ (by decide)]

/-! ## Reading the tree by index -/

theorem held_leaf (hl : n.level = 0) (i : Fin wrsBranches) :
    n.held i = (n.items i).itemWith (n.weights i) := by
  obtain ⟨items, weights, _, level, _, _⟩ := n
  simp only at hl
  simp [held, hl]

theorem held_leaf_of_le (hl : n.level = 0) {s : ℕ} (hs : wrsBranches ≤ s) : n.held s = none := by
  obtain ⟨items, weights, _, level, _, _⟩ := n
  simp only at hl
  simp [held, hl, Nat.not_lt.mpr hs]

/-- Above level 0, index `s` is offset `s % m` in branch `s / m`, for `m` the places of a branch. -/
theorem held_inner (hl : n.level ≠ 0) {m : ℕ} (hm : n.maxItems / wrsBranches = m) (hm0 : 0 < m)
    (s : ℕ) : n.held s =
      if h : s / m < wrsBranches then (n.items ⟨s / m, h⟩).held (s % m) else none := by
  obtain ⟨items, weights, _, level, _, maxItems⟩ := n
  simp only at hl hm
  subst hm
  simp only [held, hl, if_false, Nat.pos_iff_ne_zero.mp hm0]
  rw [Nat.mod_eq_sub_div_mul]

theorem held_inner_add (hl : n.level ≠ 0) {m : ℕ} (hm : n.maxItems / wrsBranches = m) (hm0 : 0 < m)
    (b : Fin wrsBranches) {s : ℕ} (hs : s < m) : n.held (b * m + s) = (n.items b).held s := by
  have hdiv : (b * m + s) / m = b := by
    rw [Nat.add_comm, Nat.add_mul_div_right _ _ hm0, Nat.div_eq_of_lt hs, Nat.zero_add]
  have hmod : (b * m + s) % m = s := by
    rw [Nat.add_comm, Nat.add_mul_mod_self_right, Nat.mod_eq_of_lt hs]
  rw [held_inner hl hm hm0]
  simp only [hdiv, hmod, b.isLt, dite_true, Fin.eta]

theorem held_inner_of_le (hl : n.level ≠ 0) {m : ℕ} (hm : n.maxItems / wrsBranches = m) (hm0 : 0 < m)
    {s : ℕ} (hs : wrsBranches * m ≤ s) : n.held s = none := by
  rw [held_inner hl hm hm0, dif_neg]
  rw [Nat.not_lt, Nat.le_div_iff_mul_le hm0]
  exact hs

theorem Wf.held_of_le (h : n.Wf L) {s : ℕ} (hs : n.maxItems ≤ s) : n.held s = none := by
  cases L with
  | zero =>
    rw [h.maxItems, zero_add, pow_one] at hs
    exact held_leaf_of_le h.level hs
  | succ L =>
    refine held_inner_of_le (by rw [h.level]; omega) h.branchItems (pow_wrsBranches_pos _) ?_
    rwa [← pow_succ', ← h.maxItems]

/-- A sum over the indices of a node of level `L + 1` is a sum over its branches. -/
theorem Wf.sum_held {M : Type*} [AddCommMonoid M] (h : n.Wf (L + 1)) (f : Option (α × Int64) → M) :
    ∑ s ∈ Finset.range n.maxItems, f (n.held s) =
      ∑ b, ∑ s ∈ Finset.range (wrsBranches ^ (L + 1)), f ((n.items b).held s) := by
  rw [h.maxItems, pow_succ', Cumulative.sum_range_mul, ← Fin.sum_univ_eq_sum_range]
  refine Finset.sum_congr rfl fun b _ => Finset.sum_congr rfl fun s hs => ?_
  rw [held_inner_add (by rw [h.level]; omega) h.branchItems (pow_wrsBranches_pos _) b (Finset.mem_range.mp hs)]

/-- A sum over the indices of a node of level 0 is a sum over its slots. -/
theorem Wf.sum_held_leaf {M : Type*} [AddCommMonoid M] (h : n.Wf 0) (f : Option (α × Int64) → M) :
    ∑ s ∈ Finset.range n.maxItems, f (n.held s) = ∑ i, f ((n.items i).itemWith (n.weights i)) := by
  rw [h.maxItems, zero_add, pow_one, ← Fin.sum_univ_eq_sum_range]
  exact Finset.sum_congr rfl fun i _ => by rw [held_leaf h.level]

/-! ## Sums and counts -/

theorem Wf.sumWeight_eq : ∀ {L : ℕ} {n : WrsNode α}, n.Wf L →
    n.sumWeight = ∑ s ∈ Finset.range n.maxItems, ((n.held s).map Prod.snd).getD 0
  | 0, n, h => by
    rw [h.sumWeight, h.sum_held_leaf fun o => (o.map Prod.snd).getD 0]
    refine Finset.sum_congr rfl fun i _ => ?_
    rcases (h.slots i).zero_cases with ⟨he, hw⟩ | ⟨a, he, -⟩
    · rw [he, hw]
      rfl
    · rw [he]
      rfl
  | L + 1, n, h => by
    rw [h.sumWeight, h.sum_held fun o => (o.map Prod.snd).getD 0]
    refine Finset.sum_congr rfl fun b _ => ?_
    rcases (h.slots b).succ_cases with ⟨he, hw⟩ | ⟨c, he, hw, hc⟩
    · rw [he, hw]
      simp [Entry.held]
    · rw [he, hw, hc.sumWeight_eq, hc.maxItems]
      rfl

theorem Wf.itemCnt_eq_sum : ∀ {L : ℕ} {n : WrsNode α}, n.Wf L →
    n.itemCnt = ∑ s ∈ Finset.range n.maxItems, if (n.held s).isSome then 1 else 0
  | 0, n, h => by
    rw [h.itemCnt, h.sum_held_leaf fun o => if o.isSome then 1 else 0]
    refine Finset.sum_congr rfl fun i _ => ?_
    rcases (h.slots i).zero_cases with ⟨he, -⟩ | ⟨a, he, -⟩ <;> rw [he] <;> rfl
  | L + 1, n, h => by
    rw [h.itemCnt, h.sum_held fun o => if o.isSome then 1 else 0]
    refine Finset.sum_congr rfl fun b _ => ?_
    rcases (h.slots b).succ_cases with ⟨he, -⟩ | ⟨c, he, -, hc⟩
    · rw [he]
      simp [Entry.held, Entry.count]
    · rw [he, Entry.count, hc.itemCnt_eq_sum, hc.maxItems]
      rfl

/-- `itemCnt` is the number of items the node holds. -/
theorem Wf.itemCnt_eq (h : n.Wf L) :
    n.itemCnt = ((Finset.range n.maxItems).filter fun s => (n.held s).isSome).card := by
  rw [h.itemCnt_eq_sum, Finset.card_filter]

theorem Wf.itemCnt_le (h : n.Wf L) : n.itemCnt ≤ n.maxItems := by
  rw [h.itemCnt_eq]
  exact (Finset.card_filter_le _ _).trans (Finset.card_range _).le

theorem Wf.held_pos : ∀ {L : ℕ} {n : WrsNode α}, n.Wf L → ∀ {s a x}, n.held s = some (a, x) → 0 < x
  | 0, n, h, s, a, x, hs => by
    by_cases hlt : s < wrsBranches
    · rw [show s = (⟨s, hlt⟩ : Fin wrsBranches) from rfl, held_leaf h.level] at hs
      rcases (h.slots ⟨s, hlt⟩).zero_cases with ⟨he, -⟩ | ⟨a', he, hw⟩ <;> rw [he] at hs
      · cases hs
      · cases hs
        exact hw
    · rw [held_leaf_of_le h.level (Nat.not_lt.mp hlt)] at hs
      cases hs
  | L + 1, n, h, s, a, x, hs => by
    rw [held_inner (by rw [h.level]; omega) h.branchItems (pow_wrsBranches_pos _)] at hs
    split at hs
    · rename_i hb
      rcases (h.slots ⟨_, hb⟩).succ_cases with ⟨he, -⟩ | ⟨c, he, -, hc⟩ <;> rw [he] at hs
      · cases hs
      · exact hc.held_pos hs
    · cases hs


/-! ## The nodes the code builds -/

theorem sum_count_update (items : Fin wrsBranches → Entry α) (b : Fin wrsBranches) (e : Entry α) :
    ∑ i, (Function.update items b e i).count + (items b).count = ∑ i, (items i).count + e.count := by
  have := sum_update_add (fun i => (items i).count) b e.count
  simpa only [Function.apply_update (fun _ (e : Entry α) => e.count)] using this


theorem Wf.empty (L : ℕ) : (WrsNode.empty L (wrsBranches ^ (L + 1)) : WrsNode α).Wf L :=
  ⟨rfl, rfl, by simp [WrsNode.empty], by simp [WrsNode.empty, Entry.count], fun _ => .nil⟩

theorem held_empty (L m : ℕ) : (WrsNode.empty L m : WrsNode α).held = fun _ => none := by
  funext s
  simp only [WrsNode.empty, held]
  split_ifs <;> rfl

theorem Wf.addLevel (h : n.Wf L) : n.addLevel.Wf (L + 1) := by
  refine ⟨by simp [WrsNode.addLevel, h.level], by rw [WrsNode.addLevel, h.maxItems, pow_succ _ (L + 1)],
    ?_, ?_, fun i => ?_⟩
  · have := sum_update_add (fun _ => (0 : Int64)) (0 : Fin wrsBranches) n.sumWeight
    simpa [WrsNode.addLevel] using this.symm
  · have := sum_count_update (fun _ => (Entry.nil : Entry α)) 0 (.node n)
    simp only [Entry.count_nil, Entry.count_node, Finset.sum_const_zero, add_zero, zero_add] at this
    exact this.symm
  · by_cases hi : i = 0
    · subst hi
      simpa [WrsNode.addLevel] using Entry.Wf.node h
    · simpa [WrsNode.addLevel, hi] using (Entry.Wf.nil : Entry.Wf (L + 1) (.nil : Entry α) 0)

/-- The new root holds at each index what the old root held there. -/
theorem held_addLevel (h : n.Wf L) : n.addLevel.held = n.held := by
  have hm0 : 0 < n.maxItems := h.maxItems ▸ pow_wrsBranches_pos _
  have hm : n.addLevel.maxItems / wrsBranches = n.maxItems := by
    simp [WrsNode.addLevel, Nat.mul_div_cancel _ (show 0 < wrsBranches by decide)]
  funext s
  rw [held_inner (by simp [WrsNode.addLevel]) hm hm0]
  split_ifs with hb
  · by_cases h0 : s / n.maxItems = 0
    · have hs : s < n.maxItems := by rwa [Nat.div_eq_zero_iff_lt hm0] at h0
      have hfin : (⟨s / n.maxItems, hb⟩ : Fin wrsBranches) = 0 := Fin.ext h0
      rw [hfin, Nat.mod_eq_of_lt hs]
      simp [WrsNode.addLevel, Entry.held]
    · have hfin : (⟨s / n.maxItems, hb⟩ : Fin wrsBranches) ≠ 0 := fun he => h0 (congrArg Fin.val he)
      have hs : n.maxItems ≤ s := by
        by_contra hlt
        exact h0 (Nat.div_eq_of_lt (Nat.not_le.mp hlt))
      simp only [WrsNode.addLevel, Function.update_of_ne hfin]
      exact (h.held_of_le hs).symm
  · have hs : n.maxItems ≤ s := by
      by_contra hlt
      exact hb (by rw [Nat.div_eq_of_lt (Nat.not_le.mp hlt)]; decide)
    exact (h.held_of_le hs).symm

/-! ## Changing one slot -/

theorem branch_add_div (b : ℕ) {m t : ℕ} (ht : t < m) : (b * m + t) / m = b := by
  rw [Nat.add_comm, Nat.add_mul_div_right _ _ (by omega), Nat.div_eq_of_lt ht, Nat.zero_add]

theorem branch_add_lt (b : Fin wrsBranches) {m t : ℕ} (ht : t < m) : b * m + t < wrsBranches * m :=
  calc b * m + t < b * m + m := by omega
    _ = (b + 1) * m := by ring
    _ ≤ wrsBranches * m := Nat.mul_le_mul_right m b.isLt

theorem exists_branch {m s : ℕ} (hs : s < wrsBranches * m) :
    ∃ (b : Fin wrsBranches) (t : ℕ), t < m ∧ s = b * m + t := by
  have hm : 0 < m := Nat.pos_of_ne_zero fun h0 => by simp [h0] at hs
  refine ⟨⟨s / m, (Nat.div_lt_iff_lt_mul hm).mpr hs⟩, s % m,
    Nat.mod_lt _ hm, ?_⟩
  exact (Nat.div_add_mod' s m).symm

/-- A node with one slot and its weight replaced by a slot of its level is well formed, with the
sum and the count moved by the slot's change. -/
theorem Wf.update (h : n.Wf L) (b : Fin wrsBranches) {e : Entry α} {w : Int64} (he : Entry.Wf L e w)
    {n' : WrsNode α} (hlevel : n'.level = n.level) (hmax : n'.maxItems = n.maxItems)
    (hitems : n'.items = Function.update n.items b e)
    (hweights : n'.weights = Function.update n.weights b w)
    (hsum : n'.sumWeight = n.sumWeight + (w - n.weights b))
    (hcnt : n'.itemCnt + (n.items b).count = n.itemCnt + e.count) : n'.Wf L := by
  refine ⟨hlevel.trans h.level, hmax.trans h.maxItems, ?_, ?_, fun i => ?_⟩
  · have := sum_update_add n.weights b w
    rw [hsum, hweights, h.sumWeight, ← sub_eq_iff_eq_add.mpr this.symm]
    abel
  · have := sum_count_update n.items b e
    rw [hitems]
    rw [← h.itemCnt] at this
    omega
  · rw [hitems, hweights]
    by_cases hi : i = b
    · subst hi
      simpa using he
    · simpa [hi] using h.slots i

theorem held_update_leaf (hl : n.level = 0) {n' : WrsNode α} (hl' : n'.level = 0) (b : Fin wrsBranches)
    {e : Entry α} {w : Int64} (hitems : n'.items = Function.update n.items b e)
    (hweights : n'.weights = Function.update n.weights b w) :
    n'.held = Function.update n.held b (e.itemWith w) := by
  funext s
  by_cases hs : s < wrsBranches
  · obtain ⟨i, rfl⟩ : ∃ i : Fin wrsBranches, s = i := ⟨⟨s, hs⟩, rfl⟩
    rw [held_leaf hl', hitems, hweights]
    by_cases hi : i = b
    · subst hi
      simp
    · rw [Function.update_of_ne hi, Function.update_of_ne hi,
        Function.update_of_ne (fun h => hi (Fin.ext h)), held_leaf hl]
  · have hne : s ≠ b := fun h => hs (h ▸ b.isLt)
    rw [held_leaf_of_le hl' (Nat.not_lt.mp hs), Function.update_of_ne hne,
      held_leaf_of_le hl (Nat.not_lt.mp hs)]

/-- Above level 0, a node whose slot `b` changes what it holds at offset `t` changes what it holds
at index `b * m + t`. -/
theorem held_update_inner (hl : n.level ≠ 0) {m : ℕ} (hm : n.maxItems / wrsBranches = m) (hm0 : 0 < m)
    {n' : WrsNode α} (hl' : n'.level = n.level) (hmax : n'.maxItems = n.maxItems) (b : Fin wrsBranches)
    {e : Entry α} (hitems : n'.items = Function.update n.items b e) {t : ℕ} (ht : t < m)
    {v : Option (α × Int64)} (he : e.held = Function.update (n.items b).held t v) :
    n'.held = Function.update n.held (b * m + t) v := by
  have hl'0 : n'.level ≠ 0 := hl' ▸ hl
  have hm' : n'.maxItems / wrsBranches = m := hmax ▸ hm
  funext s
  by_cases hs : s < wrsBranches * m
  · obtain ⟨b', t', ht', rfl⟩ := exists_branch hs
    rw [held_inner_add hl'0 hm' hm0 b' ht', hitems]
    by_cases hb : b' = b
    · subst hb
      rw [Function.update_self, he]
      by_cases htt : t' = t
      · subst htt
        simp
      · rw [Function.update_of_ne htt, Function.update_of_ne (by omega), held_inner_add hl hm hm0 b' ht']
    · have hne : (b' : ℕ) * m + t' ≠ b * m + t := fun heq =>
        hb (Fin.ext (by rw [← branch_add_div b' ht', heq, branch_add_div b ht]))
      rw [Function.update_of_ne hb, Function.update_of_ne hne, held_inner_add hl hm hm0 b' ht']
  · have hne : s ≠ b * m + t := fun heq => hs (heq ▸ branch_add_lt b ht)
    rw [held_inner_of_le hl'0 hm' hm0 (Nat.not_lt.mp hs), Function.update_of_ne hne,
      held_inner_of_le hl hm hm0 (Nat.not_lt.mp hs)]

end WrsNode


/-! ## `insert` -/

/-- A slot `insert` may descend into: empty, or above level 0 a node that is not full. -/
def Entry.Open (level : ℕ) : Entry α → Prop
  | .nil => True
  | .item _ => False
  | .node c => level ≠ 0 ∧ c.itemCnt ≠ c.maxItems

/-- The branch loop stops at the first open slot, if there is one and no item stands in its way
above level 0. -/
theorem insertBranch_eq_ok {items : Fin wrsBranches → Entry α} {level : ℕ}
    (hitem : level ≠ 0 → ∀ b a, items b ≠ .item a) :
    ∀ {bs : List (Fin wrsBranches)}, (∃ b ∈ bs, (items b).Open level) →
      ∃ b, insertBranch items level bs = .ok b ∧ (items b).Open level
  | [], ⟨_, hb, _⟩ => absurd hb List.not_mem_nil
  | b :: bs, ⟨b', hb', ho⟩ => by
    have hrest : ¬ (items b).Open level → ∃ b'' ∈ bs, (items b'').Open level := fun hb => by
      rcases List.mem_cons.mp hb' with rfl | hmem
      · exact absurd ho hb
      · exact ⟨b', hmem, ho⟩
    rw [insertBranch]
    cases hib : items b with
    | nil => exact ⟨b, rfl, by rw [hib]; trivial⟩
    | item a =>
      dsimp only
      have hl : level = 0 := by
        by_contra hl
        exact hitem hl b a hib
      rw [if_pos hl]
      exact insertBranch_eq_ok hitem (hrest (by rw [hib]; exact id))
    | node c =>
      dsimp only
      by_cases hfull : level = 0 ∨ c.itemCnt = c.maxItems
      · rw [if_pos hfull]
        refine insertBranch_eq_ok hitem (hrest ?_)
        rw [hib]
        rintro ⟨hl, hc⟩
        rcases hfull with h | h <;> contradiction
      · rw [if_neg hfull]
        exact ⟨b, rfl, by rw [hib]; exact not_or.mp hfull⟩

namespace WrsNode

variable {L : ℕ} {n : WrsNode α}

/-- A node that is not full has an open slot. -/
theorem Wf.exists_open (h : n.Wf L) (hlt : n.itemCnt < n.maxItems) : ∃ b, (n.items b).Open n.level := by
  have hsum : ∑ i, (n.items i).count < ∑ _i : Fin wrsBranches, wrsBranches ^ L := by
    rw [← h.itemCnt, Finset.sum_const, Finset.card_univ, Fintype.card_fin, smul_eq_mul, ← pow_succ',
      ← h.maxItems]
    exact hlt
  obtain ⟨b, -, hb⟩ := Finset.exists_lt_of_sum_lt hsum
  refine ⟨b, ?_⟩
  rw [h.level]
  cases L with
  | zero =>
    rcases (h.slots b).zero_cases with ⟨he, -⟩ | ⟨a, he, -⟩ <;> rw [he] at hb ⊢
    · trivial
    · simp at hb
  | succ L =>
    rcases (h.slots b).succ_cases with ⟨he, -⟩ | ⟨c, he, -, hc⟩ <;> rw [he] at hb ⊢
    · trivial
    · rw [Entry.count_node, ← hc.maxItems] at hb
      exact ⟨by omega, by omega⟩

theorem Wf.no_item (h : n.Wf L) : n.level ≠ 0 → ∀ b a, n.items b ≠ .item a := by
  intro hl b a he
  cases L with
  | zero => exact hl h.level
  | succ L =>
    rcases (h.slots b).succ_cases with ⟨he', -⟩ | ⟨c, he', -, -⟩ <;> rw [he'] at he <;> cases he

end WrsNode

/-- The node `insert` descends into holds what the slot held, with its weight and count. -/
theorem Entry.Wf.subNode {L : ℕ} {e : Entry α} {w : Int64} (he : Entry.Wf (L + 1) e w) :
    ∃ c, e.subNode L (wrsBranches ^ (L + 1)) = .ok c ∧ c.Wf L ∧ c.held = e.held ∧ c.sumWeight = w ∧
      c.itemCnt = e.count := by
  rcases he.succ_cases with ⟨rfl, rfl⟩ | ⟨c, rfl, rfl, hc⟩
  · exact ⟨_, rfl, WrsNode.Wf.empty L, WrsNode.held_empty _ _, rfl, rfl⟩
  · exact ⟨c, rfl, hc, rfl, rfl, rfl⟩

namespace WrsNode

variable {L : ℕ} {n : WrsNode α}

theorem insert_leaf {item : α} {weight : Int64} {b : Fin wrsBranches}
    (hb : insertBranch n.items n.level (List.finRange wrsBranches) = .ok b) (hl : n.level = 0) :
    n.insert item weight = .ok (b,
      { n with
        itemCnt := n.itemCnt + 1
        sumWeight := n.sumWeight + weight
        weights := Function.update n.weights b (n.weights b + weight)
        items := Function.update n.items b (.item item) }) := by
  rw [WrsNode.insert, hb]
  simp [hl, bind, Except.bind, pure, Except.pure]

theorem insert_inner {item : α} {weight : Int64} {b : Fin wrsBranches} {c c' : WrsNode α} {t : ℕ}
    (hb : insertBranch n.items n.level (List.finRange wrsBranches) = .ok b) (hl : n.level ≠ 0)
    (hsub : (n.items b).subNode (n.level - 1) (n.maxItems / wrsBranches) = .ok c)
    (hc : c.insert item weight = .ok (t, c')) :
    n.insert item weight = .ok (c'.maxItems * b + t,
      { n with
        itemCnt := n.itemCnt + 1
        sumWeight := n.sumWeight + weight
        weights := Function.update n.weights b (n.weights b + weight)
        items := Function.update n.items b (.node c') }) := by
  rw [WrsNode.insert, hb]
  simp only [bind, Except.bind, dif_neg hl]
  split
  · rename_i e he
    rw [hsub] at he
    cases he
  · rename_i c₀ hc₀
    rw [hsub] at hc₀
    cases hc₀
    rw [hc]
    rfl

/-- What `insert` of `item` with `weight` into `n` does: it returns an index below `maxItems` that
held nothing, and a well-formed node of level `L` that holds the item there and is otherwise as
before. -/
def InsertSpec (L : ℕ) (n : WrsNode α) (item : α) (weight : Int64)
    (r : Except WrsPanic (ℕ × WrsNode α)) : Prop :=
  ∃ t n', r = .ok (t, n') ∧ t < n.maxItems ∧ n.held t = none ∧ n'.Wf L ∧
    n'.held = Function.update n.held t (some (item, weight)) ∧ n'.level = n.level ∧
    n'.maxItems = n.maxItems ∧ n'.sumWeight = n.sumWeight + weight ∧ n'.itemCnt = n.itemCnt + 1

theorem Wf.insert : ∀ {L : ℕ} {n : WrsNode α}, n.Wf L → n.itemCnt < n.maxItems →
    ∀ (item : α) {weight : Int64}, 0 < weight → InsertSpec L n item weight (n.insert item weight)
  | 0, n, h, hlt, item, weight, hw => by
    obtain ⟨b0, hb0⟩ := h.exists_open hlt
    obtain ⟨b, hb, ho⟩ := insertBranch_eq_ok h.no_item ⟨b0, List.mem_finRange b0, hb0⟩
    have hnil : n.items b = .nil := by
      rw [h.level] at ho
      cases hib : n.items b with
      | nil => rfl
      | item a => rw [hib] at ho; exact ho.elim
      | node c => rw [hib] at ho; exact absurd rfl ho.1
    have hw0 : n.weights b = 0 := by
      rcases (h.slots b).zero_cases with ⟨-, h0⟩ | ⟨a, he, -⟩
      · exact h0
      · rw [hnil] at he
        cases he
    refine ⟨b, _, insert_leaf hb h.level, ?_, by rw [held_leaf h.level, hnil]; rfl, ?_, ?_, rfl, rfl,
      rfl, rfl⟩
    · rw [h.maxItems]
      exact b.isLt
    · refine h.update b (e := .item item) (by rw [hw0, zero_add]; exact .item hw) rfl rfl rfl rfl
        (by simp) (by simp [hnil])
    · rw [show some (item, weight) = (Entry.item item).itemWith (n.weights b + weight) by
        rw [hw0, zero_add]; rfl]
      exact held_update_leaf h.level (by exact h.level) b (by rfl) (by rfl)
  | L + 1, n, h, hlt, item, weight, hw => by
    obtain ⟨b0, hb0⟩ := h.exists_open hlt
    obtain ⟨b, hb, ho⟩ := insertBranch_eq_ok h.no_item ⟨b0, List.mem_finRange b0, hb0⟩
    obtain ⟨c, hsub, hc, hheld, hsum, hcnt⟩ := (h.slots b).subNode
    have hclt : c.itemCnt < c.maxItems := by
      rw [hc.maxItems, hcnt]
      rcases (h.slots b).succ_cases with ⟨he, -⟩ | ⟨c', he, -, hc'⟩ <;> rw [he] at ho ⊢
      · exact pow_wrsBranches_pos _
      · rw [Entry.count_node, ← hc'.maxItems]
        exact lt_of_le_of_ne hc'.itemCnt_le ho.2
    obtain ⟨t, c', hins, ht, hct, hc'wf, hc'held, -, hc'max, hc'sum, hc'cnt⟩ := Wf.insert hc hclt item hw
    have hm := h.branchItems
    have hl : n.level ≠ 0 := by
      rw [h.level]
      omega
    have hsub' : (n.items b).subNode (n.level - 1) (n.maxItems / wrsBranches) = .ok c := by
      rw [h.level, hm]
      exact hsub
    rw [hc.maxItems] at ht hc'max
    refine ⟨_, _, insert_inner hb hl hsub' hins, ?_, ?_, ?_, ?_, rfl, rfl, rfl, rfl⟩
    · rw [hc'max, Nat.mul_comm, h.maxItems, pow_succ' wrsBranches (L + 1)]
      exact branch_add_lt b ht
    · rw [hc'max, Nat.mul_comm, held_inner_add hl hm (pow_wrsBranches_pos _) b ht, ← hheld]
      exact hct
    · have hslot : n.weights b + weight = c'.sumWeight := by rw [hc'sum, hsum]
      refine h.update b (e := .node c') (by rw [hslot]; exact .node hc'wf) rfl rfl rfl rfl (by simp) ?_
      simp only [Entry.count_node, hc'cnt, hcnt]
      omega
    · rw [hc'max, Nat.mul_comm]
      exact held_update_inner hl hm (pow_wrsBranches_pos _) (by rfl) (by rfl) b (by rfl) ht
        (by show c'.held = _; rw [hc'held, hheld])

end WrsNode


/-! ## `setWeight` -/

namespace WrsNode

variable {L : ℕ} {n : WrsNode α}

theorem Wf.count_le_itemCnt (h : n.Wf L) (b : Fin wrsBranches) : (n.items b).count ≤ n.itemCnt := by
  rw [h.itemCnt]
  exact Finset.single_le_sum (f := fun i => (n.items i).count) (fun i _ => Nat.zero_le _)
    (Finset.mem_univ b)

theorem setWeight_leaf (hl : n.level = 0) (i : Fin wrsBranches) (weight : Int64) :
    n.setWeight i weight = .ok (weight - n.weights i,
      if weight = 0 then
        { n with
          weights := Function.update n.weights i weight
          sumWeight := n.sumWeight + (weight - n.weights i)
          items := Function.update n.items i .nil
          itemCnt := n.itemCnt - 1 }
      else
        { n with
          weights := Function.update n.weights i weight
          sumWeight := n.sumWeight + (weight - n.weights i) }) := by
  rw [WrsNode.setWeight, if_pos hl, dif_pos i.isLt]
  split_ifs <;> rfl

theorem setWeight_inner (hl : n.level ≠ 0) {m : ℕ} (hm : n.maxItems / wrsBranches = m) (hm0 : 0 < m)
    (b : Fin wrsBranches) {t : ℕ} (ht : t < m) {c c' : WrsNode α} (hc : n.items b = .node c)
    {weight d : Int64} (hset : c.setWeight t weight = .ok (d, c')) :
    n.setWeight (b * m + t) weight = .ok (d,
      { n with
        items := Function.update n.items b (.node c')
        weights := Function.update n.weights b (n.weights b + d)
        sumWeight := n.sumWeight + d
        itemCnt := if weight = 0 then n.itemCnt - 1 else n.itemCnt }) := by
  have hsub : b * m + t - b * m = t := by omega
  rw [WrsNode.setWeight, if_neg hl]
  simp only [hm, Nat.pos_iff_ne_zero.mp hm0, if_false, branch_add_div b ht, b.isLt, dite_true,
    Fin.eta, hsub]
  have hfin : ∀ p, (⟨(b * m + t) / (n.maxItems / wrsBranches), p⟩ : Fin wrsBranches) = b :=
    fun _ => Fin.ext (by show (b * m + t) / (n.maxItems / wrsBranches) = b; rw [hm, branch_add_div b ht])
  split
  · rename_i c₀ hc₀
    rw [hfin, hc] at hc₀
    cases hc₀
    rw [hset]
    rfl
  · rename_i hnot
    exact absurd hc fun h' => hnot c (by rw [hfin]; exact h')

/-- What `setWeight` at an index that holds `a` with weight `x0` does: it returns the change of the
weight and a well-formed node of level `L` that holds `a` with the new weight there, or nothing
for weight 0, and is otherwise as before. -/
def SetWeightSpec (L : ℕ) (n : WrsNode α) (s : ℕ) (a : α) (x0 weight : Int64)
    (r : Except WrsPanic (Int64 × WrsNode α)) : Prop :=
  ∃ n', r = .ok (weight - x0, n') ∧ n'.Wf L ∧
    n'.held = Function.update n.held s (if weight = 0 then none else some (a, weight)) ∧
    n'.level = n.level ∧ n'.maxItems = n.maxItems ∧ n'.sumWeight = n.sumWeight + (weight - x0) ∧
    n'.itemCnt + (if weight = 0 then 1 else 0) = n.itemCnt

theorem Wf.setWeight : ∀ {L : ℕ} {n : WrsNode α}, n.Wf L → ∀ {s : ℕ} {a : α} {x0 : Int64},
    n.held s = some (a, x0) → ∀ {weight : Int64}, 0 ≤ weight →
      SetWeightSpec L n s a x0 weight (n.setWeight s weight)
  | 0, n, h, s, a, x0, hs, weight, hw => by
    have hlt : s < wrsBranches := by
      by_contra hge
      rw [held_leaf_of_le h.level (Nat.not_lt.mp hge)] at hs
      cases hs
    obtain ⟨i, rfl⟩ : ∃ i : Fin wrsBranches, s = i := ⟨⟨s, hlt⟩, rfl⟩
    rw [held_leaf h.level] at hs
    have hitem : n.items i = .item a ∧ n.weights i = x0 := by
      cases hi : n.items i with
      | item a' =>
        rw [hi] at hs
        cases hs
        exact ⟨rfl, rfl⟩
      | _ => rw [hi] at hs; cases hs
    obtain ⟨hia, rfl⟩ := hitem
    rw [setWeight_leaf h.level]
    have hcnt := h.count_le_itemCnt i
    rw [hia, Entry.count_item] at hcnt
    by_cases h0 : weight = 0
    · subst h0
      rw [if_pos rfl]
      refine ⟨_, rfl, h.update i (e := .nil) .nil (by rfl) (by rfl) (by rfl) (by rfl) (by rfl) ?_, ?_,
        rfl, rfl, rfl, ?_⟩
      · show n.itemCnt - 1 + (n.items i).count = n.itemCnt + 0
        rw [hia, Entry.count_item]
        omega
      · rw [if_pos rfl, show (none : Option (α × Int64)) = (Entry.nil : Entry α).itemWith 0 from rfl]
        exact held_update_leaf h.level (by exact h.level) i (by rfl) (by rfl)
      · show n.itemCnt - 1 + (if (0 : Int64) = 0 then 1 else 0) = n.itemCnt
        rw [if_pos rfl]
        omega
    · have hpos : 0 < weight := Int64.lt_of_le_of_ne hw (Ne.symm h0)
      rw [if_neg h0]
      have hitems : n.items = Function.update n.items i (.item a) := by
        rw [← hia, Function.update_eq_self]
      refine ⟨_, rfl, h.update i (e := .item a) (.item hpos) (by rfl) (by rfl) hitems (by rfl) (by rfl)
        (by rw [hia]), ?_, rfl, rfl, rfl, by simp [h0]⟩
      rw [if_neg h0, show some (a, weight) = (Entry.item a).itemWith weight from rfl]
      exact held_update_leaf h.level (by exact h.level) i hitems (by rfl)
  | L + 1, n, h, s, a, x0, hs, weight, hw => by
    have hl : n.level ≠ 0 := by
      rw [h.level]
      omega
    have hm := h.branchItems
    have hm0 := pow_wrsBranches_pos (L + 1)
    have hlt : s < wrsBranches * wrsBranches ^ (L + 1) := by
      by_contra hge
      rw [held_inner_of_le hl hm hm0 (Nat.not_lt.mp hge)] at hs
      cases hs
    obtain ⟨b, t, ht, rfl⟩ := exists_branch hlt
    rw [held_inner_add hl hm hm0 b ht] at hs
    obtain ⟨c, hc, hcwf, hcs⟩ : ∃ c, n.items b = .node c ∧ c.Wf L ∧ n.weights b = c.sumWeight := by
      rcases (h.slots b).succ_cases with ⟨he, -⟩ | ⟨c, he, hw', hc⟩
      · rw [he] at hs
        cases hs
      · exact ⟨c, he, hc, hw'⟩
    rw [hc] at hs
    obtain ⟨c', hset, hc'wf, hc'held, -, -, hc'sum, hc'cnt⟩ := Wf.setWeight hcwf hs hw
    have hcnt := h.count_le_itemCnt b
    rw [hc, Entry.count_node] at hcnt
    refine ⟨_, setWeight_inner hl hm hm0 b ht hc hset, ?_, ?_, rfl, rfl, rfl, ?_⟩
    · refine h.update b (e := .node c') ?_ rfl rfl rfl rfl (by simp) ?_
      · rw [hcs, ← hc'sum]
        exact .node hc'wf
      · show (if weight = 0 then n.itemCnt - 1 else n.itemCnt) + (n.items b).count = _
        rw [hc, Entry.count_node, Entry.count_node]
        split_ifs at hc'cnt ⊢ <;> omega
    · exact held_update_inner hl hm hm0 (by rfl) (by rfl) b (by rfl) ht
        (by show c'.held = _; rw [hc'held, hc]; rfl)
    · show (if weight = 0 then n.itemCnt - 1 else n.itemCnt) + _ = _
      split_ifs at hc'cnt ⊢ <;> omega

end WrsNode


/-! ## The index map -/

section IndexOf

variable {β : Type}

/-- `idx` indexes the slot map `held`: it sends exactly the keys `held` holds to the slot holding
them. -/
def IndexOf (idx : α → Option ℕ) (held : ℕ → Option (α × β)) : Prop :=
  ∀ a s, idx a = some s ↔ ∃ x, held s = some (a, x)

/-- The value `held` keeps for a key at the slot `idx` gives it. -/
def lookup (idx : α → Option ℕ) (held : ℕ → Option (α × β)) (a : α) : Option β :=
  (idx a).bind fun s => (held s).map Prod.snd

namespace IndexOf

variable {idx : α → Option ℕ} {held : ℕ → Option (α × β)}

theorem unique (h : IndexOf idx held) {s₁ s₂ : ℕ} {a : α} {x₁ x₂ : β}
    (h₁ : held s₁ = some (a, x₁)) (h₂ : held s₂ = some (a, x₂)) : s₁ = s₂ :=
  Option.some.inj (((h a s₁).mpr ⟨_, h₁⟩).symm.trans ((h a s₂).mpr ⟨_, h₂⟩))

theorem lookup_eq (h : IndexOf idx held) {s : ℕ} {a : α} {x : β} (hs : held s = some (a, x)) :
    lookup idx held a = some x := by
  rw [lookup, (h a s).mpr ⟨x, hs⟩, Option.bind_some, hs, Option.map_some]

/-- A key keeps its slot when the value there changes. -/
theorem set (h : IndexOf idx held) {s : ℕ} {a : α} {x₀ : β} (hs : held s = some (a, x₀)) (v : β) :
    IndexOf idx (Function.update held s (some (a, v))) := by
  intro b t
  rw [h b t]
  by_cases hts : t = s
  · subst hts
    rw [Function.update_self, hs]
    simp
  · rw [Function.update_of_ne hts]

variable [DecidableEq α]

/-- A key leaves the index when its slot is cleared. -/
theorem clear (h : IndexOf idx held) {s : ℕ} {a : α} {x₀ : β} (hs : held s = some (a, x₀)) :
    IndexOf (Function.update idx a none) (Function.update held s none) := by
  intro b t
  by_cases hba : b = a
  · subst hba
    rw [Function.update_self]
    simp only [reduceCtorEq, false_iff, not_exists]
    intro x hx
    by_cases hts : t = s
    · rw [hts, Function.update_self] at hx
      cases hx
    · rw [Function.update_of_ne hts] at hx
      exact hts (h.unique hx hs)
  · rw [Function.update_of_ne hba, h b t]
    by_cases hts : t = s
    · subst hts
      rw [Function.update_self, hs]
      simp [Ne.symm hba]
    · rw [Function.update_of_ne hts]

/-- A key that had no slot enters the index at an empty slot. -/
theorem add (h : IndexOf idx held) {a : α} (ha : idx a = none) {t : ℕ} (ht : held t = none) (v : β) :
    IndexOf (Function.update idx a (some t)) (Function.update held t (some (a, v))) := by
  intro b u
  by_cases hba : b = a
  · subst hba
    rw [Function.update_self, Option.some.injEq]
    constructor
    · rintro rfl
      exact ⟨v, Function.update_self ..⟩
    · rintro ⟨x, hx⟩
      by_contra hut
      rw [Function.update_of_ne (Ne.symm hut)] at hx
      rw [(h b u).mpr ⟨x, hx⟩] at ha
      cases ha
  · rw [Function.update_of_ne hba, h b u]
    by_cases hut : u = t
    · subst hut
      rw [Function.update_self, ht]
      simp [Ne.symm hba]
    · rw [Function.update_of_ne hut]

theorem lookup_set (h : IndexOf idx held) {s : ℕ} {a : α} {x₀ : β} (hs : held s = some (a, x₀))
    (v : β) : lookup idx (Function.update held s (some (a, v))) = Function.update (lookup idx held) a (some v) := by
  funext b
  by_cases hba : b = a
  · subst hba
    rw [Function.update_self, (h.set hs v).lookup_eq (Function.update_self ..)]
  · rw [Function.update_of_ne hba, lookup, lookup]
    rcases hb : idx b with _ | t
    · rfl
    · have hts : t ≠ s := fun hts => by
        rw [(h b t), hts, hs] at hb
        obtain ⟨x, hx⟩ := hb
        cases hx
        exact hba rfl
      simp only [Option.bind_some, Function.update_of_ne hts]

theorem lookup_clear (h : IndexOf idx held) {s : ℕ} {a : α} {x₀ : β} (hs : held s = some (a, x₀)) :
    lookup (Function.update idx a none) (Function.update held s none) =
      Function.update (lookup idx held) a none := by
  funext b
  by_cases hba : b = a
  · subst hba
    rw [Function.update_self, lookup, Function.update_self, Option.bind_none]
  · rw [Function.update_of_ne hba, lookup, lookup, Function.update_of_ne hba]
    rcases hb : idx b with _ | t
    · rfl
    · have hts : t ≠ s := fun hts => by
        rw [(h b t), hts, hs] at hb
        obtain ⟨x, hx⟩ := hb
        cases hx
        exact hba rfl
      simp only [Option.bind_some, Function.update_of_ne hts]

theorem lookup_add (h : IndexOf idx held) {a : α} (ha : idx a = none) {t : ℕ} (ht : held t = none)
    (v : β) : lookup (Function.update idx a (some t)) (Function.update held t (some (a, v))) =
      Function.update (lookup idx held) a (some v) := by
  funext b
  by_cases hba : b = a
  · subst hba
    rw [Function.update_self, (h.add ha ht v).lookup_eq (Function.update_self ..)]
  · rw [Function.update_of_ne hba, lookup, lookup, Function.update_of_ne hba]
    rcases hb : idx b with _ | u
    · rfl
    · have hut : u ≠ t := fun hut => by
        rw [(h b u), hut, ht] at hb
        obtain ⟨x, hx⟩ := hb
        cases hx
      simp only [Option.bind_some, Function.update_of_ne hut]

end IndexOf

end IndexOf


/-! ## The selection -/

namespace WrsNode

variable {L : ℕ} {n : WrsNode α}

/-- The root `setWeight` inserts into, with a new root over a full one, is well formed, holds what
the root held and is not full. -/
theorem Wf.grow (h : n.Wf L) : ∃ L' r, (if n.itemCnt = n.maxItems then n.addLevel else n) = r ∧
    r.Wf L' ∧ r.held = n.held ∧ r.itemCnt < r.maxItems := by
  by_cases hfull : n.itemCnt = n.maxItems
  · refine ⟨L + 1, _, if_pos hfull, h.addLevel, held_addLevel h, ?_⟩
    have hm0 : 0 < n.maxItems := h.maxItems ▸ pow_wrsBranches_pos _
    show n.itemCnt < n.maxItems * wrsBranches
    rw [hfull]
    exact lt_mul_of_one_lt_right hm0 (by decide)
  · exact ⟨L, n, if_neg hfull, h, rfl, lt_of_le_of_ne h.itemCnt_le hfull⟩

end WrsNode

namespace WeightedRandomSelect

/-- The weight the selection stores for an item, 0 for an item it does not hold. -/
def stored (w : WeightedRandomSelect α) (a : α) : Int64 := (lookup w.idx w.root.held a).getD 0

/-- The selection as the code keeps it: the root is well formed, and `idx` sends exactly the items
the tree holds to the index holding them. -/
structure Wf (w : WeightedRandomSelect α) : Prop where
  root : w.root.Wf w.root.level
  idx : IndexOf w.idx w.root.held

theorem wf_new : (newWeightedRandomSelect : WeightedRandomSelect α).Wf := by
  have hroot := WrsNode.Wf.empty (α := α) 0
  rw [zero_add, pow_one] at hroot
  refine ⟨hroot, fun a s => ?_⟩
  simp [newWeightedRandomSelect, WrsNode.held_empty]

variable [DecidableEq α]

theorem stored_of_lookup (w w' : WeightedRandomSelect α) (a : α) (v : Option Int64)
    (h : lookup w'.idx w'.root.held = Function.update (lookup w.idx w.root.held) a v) :
    w'.stored = Function.update w.stored a (v.getD 0) := by
  funext b
  simp only [stored, h, Function.apply_update (fun _ (o : Option Int64) => o.getD 0)]
  rfl

/-- `setWeight` with a weight that is not negative succeeds, keeps the selection well formed and
stores the weight for the item. -/
theorem Wf.setWeight {w : WeightedRandomSelect α} (hw : w.Wf) (a : α) {x : Int64} (hx : 0 ≤ x) :
    ∃ w', w.setWeight a x = .ok w' ∧ w'.Wf ∧ w'.stored = Function.update w.stored a x := by
  rcases hidx : w.idx a with _ | s
  · by_cases hx0 : x = 0
    · refine ⟨w, by simp [WeightedRandomSelect.setWeight, hidx, hx0, pure, Except.pure], hw, ?_⟩
      rw [hx0, eq_comm, Function.update_eq_self_iff]
      simp [stored, lookup, hidx]
    · obtain ⟨L', r, hr, hrwf, hrheld, hrlt⟩ := hw.root.grow
      obtain ⟨t, root', hins, -, ht, hwf', hheld', hlevel', -⟩ :=
        hrwf.insert hrlt a (Int64.lt_of_le_of_ne hx (Ne.symm hx0))
      rw [hrheld] at ht hheld'
      have hidx' : IndexOf (Function.update w.idx a (some t)) root'.held := by
        rw [hheld']
        exact hw.idx.add hidx ht x
      refine ⟨⟨root', Function.update w.idx a (some t)⟩, ?_, ⟨?_, hidx'⟩, ?_⟩
      · simp [WeightedRandomSelect.setWeight, hidx, hx0, hr, hins, bind, Except.bind, pure, Except.pure]
      · show root'.Wf root'.level
        rw [hlevel', hrwf.level]
        exact hwf'
      · refine stored_of_lookup w _ a (some x) ?_
        show lookup _ root'.held = _
        rw [hheld']
        exact hw.idx.lookup_add hidx ht x
  · obtain ⟨x0, hs⟩ := (hw.idx a s).mp hidx
    obtain ⟨root', hset, hwf', hheld', hlevel', -⟩ := hw.root.setWeight hs hx
    by_cases hx0 : x = 0
    · subst hx0
      rw [if_pos rfl] at hheld'
      refine ⟨⟨root', Function.update w.idx a none⟩, ?_, ⟨?_, ?_⟩, ?_⟩
      · simp [WeightedRandomSelect.setWeight, hidx, hset, bind, Except.bind, pure, Except.pure]
      · show root'.Wf root'.level
        rw [hlevel']
        exact hwf'
      · show IndexOf _ root'.held
        rw [hheld']
        exact hw.idx.clear hs
      · refine stored_of_lookup w _ a none ?_
        show lookup _ root'.held = _
        rw [hheld']
        exact hw.idx.lookup_clear hs
    · rw [if_neg hx0] at hheld'
      refine ⟨⟨root', w.idx⟩, ?_, ⟨?_, ?_⟩, ?_⟩
      · simp [WeightedRandomSelect.setWeight, hidx, hset, hx0, bind, Except.bind, pure, Except.pure]
      · show root'.Wf root'.level
        rw [hlevel']
        exact hwf'
      · show IndexOf _ root'.held
        rw [hheld']
        exact hw.idx.set hs x
      · refine stored_of_lookup w _ a (some x) ?_
        show lookup _ root'.held = _
        rw [hheld']
        exact hw.idx.lookup_set hs x


/-- A pass of `choose` changes the selection only by `setWeight` of the chosen item to its current
weight; so with weights that are not negative the loop keeps the selection well formed. -/
theorem Wf.choose {weight : α → Int64} (hweight : ∀ a, 0 ≤ weight a) :
    ∀ (draws : List (Int64 × Int64)) {w w' : WeightedRandomSelect α} {r : Option (Option α)},
      w.Wf → w.choose weight draws = .ok (r, w') → w'.Wf
  | [], w, w', r, hw, h => by
    simp only [WeightedRandomSelect.choose, pure, Except.pure, Except.ok.injEq, Prod.mk.injEq] at h
    rw [← h.2]
    exact hw
  | (val, coin) :: draws, w, w', r, hw, h => by
    rw [WeightedRandomSelect.choose] at h
    split_ifs at h with h0 hneg
    · simp only [pure, Except.pure, Except.ok.injEq, Prod.mk.injEq] at h
      rw [← h.2]
      exact hw
    · rcases hch : w.root.choose val with e | ⟨choice, last⟩ <;> rw [hch] at h
      · cases h
      simp only [bind, Except.bind] at h
      have tail : ∀ w₁ : WeightedRandomSelect α, w₁.Wf →
          (if weight choice ≥ last then pure (some (some choice), w₁)
            else if last ≤ 0 then throw WrsPanic.invalidArgument
            else if coin < weight choice then pure (some (some choice), w₁)
            else WeightedRandomSelect.choose weight w₁ draws) = .ok (r, w') → w'.Wf := by
        intro w₁ hwf₁ h
        split_ifs at h
        · simp only [pure, Except.pure, Except.ok.injEq, Prod.mk.injEq] at h
          rw [← h.2]
          exact hwf₁
        · simp only [pure, Except.pure, Except.ok.injEq, Prod.mk.injEq] at h
          rw [← h.2]
          exact hwf₁
        · exact Wf.choose hweight draws hwf₁ h
      by_cases hne : weight choice ≠ last
      · rw [if_pos hne] at h
        obtain ⟨w₁, h₁, hwf₁, -⟩ := hw.setWeight choice (hweight choice)
        rw [h₁] at h
        exact tail w₁ hwf₁ h
      · rw [if_neg hne] at h
        exact tail w hw h

/-- The selections a sequence of `update`, `remove` and `choose` calls reaches from a new one, with
item weights that are not negative. -/
inductive Reachable : WeightedRandomSelect α → Prop
  | new : Reachable newWeightedRandomSelect
  | update {w w' : WeightedRandomSelect α} (item : α) (weight : Int64) :
      0 ≤ weight → Reachable w → w.update item weight = .ok w' → Reachable w'
  | remove {w w' : WeightedRandomSelect α} (item : α) :
      Reachable w → w.remove item = .ok w' → Reachable w'
  | choose {w w' : WeightedRandomSelect α} (weight : α → Int64) (draws : List (Int64 × Int64))
      (r : Option (Option α)) :
      (∀ a, 0 ≤ weight a) → Reachable w → w.choose weight draws = .ok (r, w') → Reachable w'

theorem Reachable.wf {w : WeightedRandomSelect α} (h : Reachable w) : w.Wf := by
  induction h with
  | new => exact wf_new
  | update item weight hx _ hstep ih =>
    obtain ⟨w'', h'', hwf, -⟩ := ih.setWeight item hx
    rw [WeightedRandomSelect.update, h''] at hstep
    cases hstep
    exact hwf
  | remove item _ hstep ih =>
    obtain ⟨w'', h'', hwf, -⟩ := ih.setWeight item (by decide : (0 : Int64) ≤ 0)
    rw [WeightedRandomSelect.remove, h''] at hstep
    cases hstep
    exact hwf
  | choose weight draws r hweight _ hstep ih => exact ih.choose hweight draws hstep

end WeightedRandomSelect

end GoXdn.Les
