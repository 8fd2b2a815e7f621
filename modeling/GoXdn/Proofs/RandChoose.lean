import Mathlib
import GoXdn.Proofs.RandSelect

/-!
# Choosing by weight

`choose(val)` walks down the tree by its weights: at each node it takes the first branch whose
weight exceeds what is left of `val`. While no sum overflows, that is picking by cumulative weight
(`chooseBranch_ofNat`), and the weights of the tree are the true sums of what it holds
(`Wf.toInt_sumWeight`). Then every value below the root's sum chooses an item the tree holds
(`Wf.choose_ok`), and a sum over these values of a function of the choice is the sum over the held
items of their weight's worth of it (`Wf.sum_choose`): each item is chosen by exactly its weight's
worth of values.

Go sums the weights in `int64`. When the stored weights add up past `2^63` the sums wrap, and the
values below the root's sum are no longer shared out by weight.
-/

namespace GoXdn.Les

variable {α : Type}

/-- The weight a slot map holds at one index, as an integer. -/
def heldWeight (o : Option (α × Int64)) : ℤ := (o.map fun p => p.2.toInt).getD 0

namespace WrsNode

/-- The true sum of the weights the node holds. -/
def total (n : WrsNode α) : ℤ := ∑ s ∈ Finset.range n.maxItems, heldWeight (n.held s)

end WrsNode

/-- The true sum of the weights below a slot. -/
def Entry.total : Entry α → ℤ
  | .node c => c.total
  | _ => 0

namespace WrsNode

variable {L : ℕ} {n : WrsNode α}

theorem Wf.heldWeight_nonneg (h : n.Wf L) (s : ℕ) : 0 ≤ heldWeight (n.held s) := by
  rcases hs : n.held s with _ | ⟨a, x⟩
  · exact le_refl 0
  · exact (Int64.lt_iff_toInt_lt.mp (h.held_pos hs)).le

theorem Wf.total_nonneg (h : n.Wf L) : 0 ≤ n.total :=
  Finset.sum_nonneg fun s _ => h.heldWeight_nonneg s

theorem Wf.total_succ (h : n.Wf (L + 1)) : n.total = ∑ b, (n.items b).total := by
  rw [total, h.sum_held heldWeight]
  refine Finset.sum_congr rfl fun b _ => ?_
  rcases (h.slots b).succ_cases with ⟨he, -⟩ | ⟨c, he, -, hc⟩ <;> rw [he]
  · simp [Entry.held, heldWeight, Entry.total]
  · rw [Entry.total, total, hc.maxItems]
    rfl

theorem Wf.total_leaf (h : n.Wf 0) : n.total = ∑ b, heldWeight ((n.items b).itemWith (n.weights b)) := by
  rw [total, h.sum_held_leaf heldWeight]

/-- The sum below a child is part of the node's. -/
theorem Wf.total_child_le (h : n.Wf (L + 1)) {b : Fin wrsBranches} {c : WrsNode α}
    (he : n.items b = .node c) : c.total ≤ n.total := by
  rw [h.total_succ]
  have := Finset.single_le_sum (f := fun b => (n.items b).total)
    (fun b _ => by
      rcases (h.slots b).succ_cases with ⟨he', -⟩ | ⟨c', he', -, hc'⟩ <;> rw [he']
      · exact le_refl 0
      · exact hc'.total_nonneg) (Finset.mem_univ b)
  rwa [he] at this

/-- Without overflow the root's `int64` sum is the true sum of the weights it holds. -/
theorem Wf.toInt_sumWeight (h : n.Wf L) (ht : n.total < 2 ^ 63) : n.sumWeight.toInt = n.total := by
  have hterm : ∀ s, (((n.held s).map Prod.snd).getD 0).toInt = heldWeight (n.held s) := fun s => by
    rcases n.held s with _ | ⟨a, x⟩ <;> rfl
  rw [h.sumWeight_eq, Int64.toInt_sum_of_nonneg _ _ (fun s _ => by rw [hterm]; exact h.heldWeight_nonneg s)
    (by simp only [hterm]; exact ht)]
  exact Finset.sum_congr rfl fun s _ => hterm s

/-- At level 0 a slot's weight is the weight of the item it holds. -/
theorem Wf.toInt_weights_leaf (h : n.Wf 0) (b : Fin wrsBranches) :
    (n.weights b).toInt = heldWeight ((n.items b).itemWith (n.weights b)) := by
  rcases (h.slots b).zero_cases with ⟨he, hw⟩ | ⟨a, he, -⟩ <;> rw [he]
  · rw [hw]
    rfl
  · rfl

/-- Above level 0, and without overflow, a slot's weight is the true sum of the weights below it. -/
theorem Wf.toInt_weights_succ (h : n.Wf (L + 1)) (ht : n.total < 2 ^ 63) (b : Fin wrsBranches) :
    (n.weights b).toInt = (n.items b).total := by
  rcases (h.slots b).succ_cases with ⟨he, hw⟩ | ⟨c, he, hw, hc⟩ <;> rw [he]
  · rw [hw]
    rfl
  · rw [hw, hc.toInt_sumWeight (by have := h.total_child_le he; omega)]
    rfl

theorem Wf.toInt_weights_nonneg (h : n.Wf L) (ht : n.total < 2 ^ 63) (b : Fin wrsBranches) :
    0 ≤ (n.weights b).toInt := by
  cases L with
  | zero =>
    rcases (h.slots b).zero_cases with ⟨-, hw⟩ | ⟨a, -, hw⟩
    · rw [hw]
      exact le_refl 0
    · exact (Int64.lt_iff_toInt_lt.mp hw).le
  | succ L =>
    rw [h.toInt_weights_succ ht b]
    rcases (h.slots b).succ_cases with ⟨he, -⟩ | ⟨c, he, -, hc⟩ <;> rw [he]
    · exact le_refl 0
    · exact hc.total_nonneg

/-- Without overflow the true sum is the sum of the slots' weights. -/
theorem Wf.total_eq_sum_weights (h : n.Wf L) (ht : n.total < 2 ^ 63) :
    n.total = ∑ b, (n.weights b).toInt := by
  cases L with
  | zero =>
    rw [h.total_leaf]
    exact Finset.sum_congr rfl fun b _ => (h.toInt_weights_leaf b).symm
  | succ L =>
    rw [h.total_succ]
    exact Finset.sum_congr rfl fun b _ => (h.toInt_weights_succ ht b).symm

end WrsNode

/-! ## The branch loop as a pick by cumulative weight -/

/-- With weights that are not negative and a value below `2^63`, the branch loop of `choose` picks
by cumulative weight. -/
theorem chooseBranch_ofNat {weights : Fin wrsBranches → Int64} (hw : ∀ i, 0 ≤ (weights i).toInt) :
    ∀ (is : List (Fin wrsBranches)) {v : ℕ}, v < 2 ^ 63 →
      chooseBranch weights is (Int64.ofNat v) =
        (Cumulative.select (fun i => (weights i).toInt.toNat) is v).map fun p => (p.1, Int64.ofNat p.2)
  | [], v, _ => rfl
  | i :: is, v, hv => by
    have hval : (Int64.ofNat v).toInt = v := Int64.toInt_ofNat_of_lt hv
    have hwi := hw i
    rw [chooseBranch, Cumulative.select]
    by_cases hlt : v < (weights i).toInt.toNat
    · rw [if_pos (Int64.lt_iff_toInt_lt.mpr (by omega)), if_pos hlt]
      rfl
    · rw [if_neg (fun h' => hlt (by have := Int64.lt_iff_toInt_lt.mp h'; omega)), if_neg hlt]
      have hsub : Int64.ofNat v - weights i = Int64.ofNat (v - (weights i).toInt.toNat) := by
        apply Int64.toInt_inj.mp
        rw [Int64.toInt_sub_of_le _ _ (Int64.le_iff_toInt_le.mpr (by simpa using hwi))
          (Int64.le_iff_toInt_le.mpr (by omega)), hval, Int64.toInt_ofNat_of_lt (by omega)]
        omega
      rw [hsub]
      exact chooseBranch_ofNat hw is (by omega)

namespace WrsNode

variable {L : ℕ} {n : WrsNode α}

theorem choose_leaf (hl : n.level = 0) {val v : Int64} {i : Fin wrsBranches} {a : α}
    (hb : chooseBranch n.weights (List.finRange wrsBranches) val = some (i, v))
    (hi : n.items i = .item a) : n.choose val = .ok (a, n.weights i) := by
  rw [WrsNode.choose, hb]
  simp [hl, hi, pure, Except.pure]

theorem choose_inner (hl : n.level ≠ 0) {val v : Int64} {i : Fin wrsBranches} {c : WrsNode α}
    (hb : chooseBranch n.weights (List.finRange wrsBranches) val = some (i, v))
    (hi : n.items i = .node c) : n.choose val = c.choose v := by
  rw [WrsNode.choose, hb]
  simp only [if_neg hl]
  split
  · rename_i c₀ hc₀
    rw [hi] at hc₀
    cases hc₀
    rfl
  · rename_i hnot
    exact absurd hi (hnot c)

theorem Wf.total_toNat_eq (h : n.Wf L) (ht : n.total < 2 ^ 63) :
    n.total.toNat = ((List.finRange wrsBranches).map fun i => (n.weights i).toInt.toNat).sum := by
  rw [← Fin.sum_univ_def]
  have hcast : ((∑ b, (n.weights b).toInt.toNat : ℕ) : ℤ) = ∑ b, (n.weights b).toInt := by
    push_cast
    exact Finset.sum_congr rfl fun b _ => Int.toNat_of_nonneg (h.toInt_weights_nonneg ht b)
  have := h.total_eq_sum_weights ht
  omega

/-- Below the true sum, the branch loop picks a branch by cumulative weight. -/
theorem Wf.chooseBranch_eq (h : n.Wf L) (ht : n.total < 2 ^ 63) {v : ℕ} (hv : v < n.total.toNat) :
    ∃ b v', Cumulative.select (fun i => (n.weights i).toInt.toNat) (List.finRange wrsBranches) v =
        some (b, v') ∧ v' < (n.weights b).toInt.toNat ∧
      chooseBranch n.weights (List.finRange wrsBranches) (Int64.ofNat v) = some (b, Int64.ofNat v') := by
  obtain ⟨b, v', hsel, -, hv'⟩ := Cumulative.select_eq_some _ (h.total_toNat_eq ht ▸ hv)
  refine ⟨b, v', hsel, hv', ?_⟩
  rw [chooseBranch_ofNat (h.toInt_weights_nonneg ht) _ (by omega), hsel]
  rfl

theorem Wf.lt_maxItems_of_held (h : n.Wf L) {s : ℕ} {p : α × Int64} (hs : n.held s = some p) :
    s < n.maxItems := by
  by_contra hge
  rw [h.held_of_le (Nat.not_lt.mp hge)] at hs
  cases hs

/-- Below the true sum and without overflow, `choose` returns an item the node holds, with the
weight it holds it with. -/
theorem Wf.choose_ok : ∀ {L : ℕ} {n : WrsNode α}, n.Wf L → n.total < 2 ^ 63 → ∀ {v : ℕ},
    v < n.total.toNat → ∃ s a x, n.held s = some (a, x) ∧ n.choose (Int64.ofNat v) = .ok (a, x)
  | 0, n, h, ht, v, hv => by
    obtain ⟨b, v', -, hv', hb⟩ := h.chooseBranch_eq ht hv
    rcases (h.slots b).zero_cases with ⟨-, hw⟩ | ⟨a, he, -⟩
    · rw [hw] at hv'
      exact absurd hv' (Nat.not_lt_zero _)
    · exact ⟨b, a, n.weights b, by rw [held_leaf h.level, he]; rfl, choose_leaf h.level hb he⟩
  | L + 1, n, h, ht, v, hv => by
    obtain ⟨b, v', -, hv', hb⟩ := h.chooseBranch_eq ht hv
    rcases (h.slots b).succ_cases with ⟨-, hw⟩ | ⟨c, he, hw, hc⟩
    · rw [hw] at hv'
      exact absurd hv' (Nat.not_lt_zero _)
    · have hct : c.total < 2 ^ 63 := lt_of_le_of_lt (h.total_child_le he) ht
      rw [h.toInt_weights_succ ht b, he] at hv'
      obtain ⟨s, a, x, hs, hch⟩ := Wf.choose_ok hc hct hv'
      have hl : n.level ≠ 0 := by
        rw [h.level]
        omega
      have hsm : s < wrsBranches ^ (L + 1) := hc.maxItems ▸ hc.lt_maxItems_of_held hs
      refine ⟨b * wrsBranches ^ (L + 1) + s, a, x, ?_, by rw [choose_inner hl hb he]; exact hch⟩
      rw [held_inner_add hl h.branchItems (pow_wrsBranches_pos _) b hsm, he]
      exact hs

/-- Below the true sum and without overflow, a sum over the values of a function of what `choose`
returns is the sum over the held items of their weight's worth of it. -/
theorem Wf.sum_choose {M : Type*} [AddCommMonoid M] (g : α → Int64 → M) :
    ∀ {L : ℕ} {n : WrsNode α}, n.Wf L → n.total < 2 ^ 63 →
      ∑ v ∈ Finset.range n.total.toNat,
          ((n.choose (Int64.ofNat v)).toOption.map fun p => g p.1 p.2).getD 0 =
        ∑ s ∈ Finset.range n.maxItems, ((n.held s).map fun p => p.2.toInt.toNat • g p.1 p.2).getD 0
  | 0, n, h, ht => by
    have hstep : ∀ v ∈ Finset.range n.total.toNat,
        ((n.choose (Int64.ofNat v)).toOption.map fun p => g p.1 p.2).getD 0 =
          (Cumulative.select (fun i => (n.weights i).toInt.toNat) (List.finRange wrsBranches) v).elim 0
            fun p => (((n.items p.1).itemWith (n.weights p.1)).map fun q => g q.1 q.2).getD 0 := by
      intro v hv
      obtain ⟨b, v', hsel, hv', hb⟩ := h.chooseBranch_eq ht (Finset.mem_range.mp hv)
      rw [hsel]
      rcases (h.slots b).zero_cases with ⟨-, hw⟩ | ⟨a, he, -⟩
      · rw [hw] at hv'
        exact absurd hv' (Nat.not_lt_zero _)
      · rw [choose_leaf h.level hb he]
        simp [he, Entry.itemWith, Except.toOption]
    rw [Finset.sum_congr rfl hstep, h.total_toNat_eq ht,
      Cumulative.sum_range_select _ (fun b _ => (((n.items b).itemWith (n.weights b)).map
        fun q => g q.1 q.2).getD 0), ← Fin.sum_univ_def,
      h.sum_held_leaf fun o => (o.map fun p => p.2.toInt.toNat • g p.1 p.2).getD 0]
    refine Finset.sum_congr rfl fun b _ => ?_
    rw [Finset.sum_const, Finset.card_range]
    rcases (h.slots b).zero_cases with ⟨he, -⟩ | ⟨a, he, -⟩ <;> rw [he]
    · simp [Entry.itemWith]
    · rfl
  | L + 1, n, h, ht => by
    have hl : n.level ≠ 0 := by
      rw [h.level]
      omega
    let G : Fin wrsBranches → ℕ → M := fun b v' => match n.items b with
      | .node c => ((c.choose (Int64.ofNat v')).toOption.map fun q => g q.1 q.2).getD 0
      | _ => 0
    have hstep : ∀ v ∈ Finset.range n.total.toNat,
        ((n.choose (Int64.ofNat v)).toOption.map fun p => g p.1 p.2).getD 0 =
          (Cumulative.select (fun i => (n.weights i).toInt.toNat) (List.finRange wrsBranches) v).elim 0
            fun p => G p.1 p.2 := by
      intro v hv
      obtain ⟨b, v', hsel, hv', hb⟩ := h.chooseBranch_eq ht (Finset.mem_range.mp hv)
      rw [hsel]
      rcases (h.slots b).succ_cases with ⟨-, hw⟩ | ⟨c, he, -, -⟩
      · rw [hw] at hv'
        exact absurd hv' (Nat.not_lt_zero _)
      · show _ = G b v'
        simp only [G, he, choose_inner hl hb he]
    rw [Finset.sum_congr rfl hstep, h.total_toNat_eq ht, Cumulative.sum_range_select _ G,
      ← Fin.sum_univ_def, h.sum_held fun o => (o.map fun p => p.2.toInt.toNat • g p.1 p.2).getD 0]
    refine Finset.sum_congr rfl fun b _ => ?_
    rcases (h.slots b).succ_cases with ⟨he, hw⟩ | ⟨c, he, -, hc⟩
    · rw [hw]
      simp [he, Entry.held]
    · have hW : (n.weights b).toInt.toNat = c.total.toNat := by
        rw [h.toInt_weights_succ ht b, he]
        rfl
      rw [hW]
      simp only [G, he]
      rw [Wf.sum_choose g hc (lt_of_le_of_lt (h.total_child_le he) ht), hc.maxItems]
      rfl

/-! ## Every node of the tree -/

/-- A slot's weight is the sum of the weights held in the slot's range of indices. -/
theorem Wf.weights_eq_sum_held (h : n.Wf L) (b : Fin wrsBranches) :
    n.weights b = ∑ s ∈ Finset.range (n.maxItems / wrsBranches),
      ((n.held (b * (n.maxItems / wrsBranches) + s)).map Prod.snd).getD 0 := by
  cases L with
  | zero =>
    rw [h.maxItems, zero_add, pow_one, Nat.div_self (by decide), Finset.sum_range_one, mul_one,
      add_zero, held_leaf h.level]
    rcases (h.slots b).zero_cases with ⟨he, hw⟩ | ⟨a, he, -⟩ <;> rw [he]
    · rw [hw]
      rfl
    · rfl
  | succ L =>
    rw [h.branchItems]
    rw [Finset.sum_congr rfl fun s hs =>
      by rw [held_inner_add (by rw [h.level]; omega) h.branchItems (pow_wrsBranches_pos _) b
        (Finset.mem_range.mp hs)]]
    rcases (h.slots b).succ_cases with ⟨he, hw⟩ | ⟨c, he, hw, hc⟩ <;> rw [he, hw]
    · simp [Entry.held]
    · rw [hc.sumWeight_eq, hc.maxItems]
      rfl

/-- `m` is `n` or a node below it. -/
inductive Below : WrsNode α → WrsNode α → Prop
  | refl (n : WrsNode α) : Below n n
  | child {n c m : WrsNode α} (b : Fin wrsBranches) : n.items b = .node c → Below m c → Below m n

theorem Wf.of_below {m : WrsNode α} (hb : Below m n) (h : n.Wf L) : ∃ L', m.Wf L' := by
  induction hb generalizing L with
  | refl => exact ⟨L, h⟩
  | child b he _ ih =>
    cases L with
    | zero =>
      rcases (h.slots b).zero_cases with ⟨he', -⟩ | ⟨a, he', -⟩ <;> rw [he'] at he <;> cases he
    | succ L =>
      rcases (h.slots b).succ_cases with ⟨he', -⟩ | ⟨c', he', -, hc'⟩ <;> rw [he'] at he <;> cases he
      exact ih hc'

end WrsNode

namespace WeightedRandomSelect

variable [DecidableEq α]

open Classical in
/-- The weight of each item below the root's sum: without overflow, exactly the stored weight's
worth of values choose it. -/
theorem Wf.card_choose {w : WeightedRandomSelect α} (hw : w.Wf) (ht : w.root.total < 2 ^ 63) (a : α) :
    ((Finset.range w.root.total.toNat).filter
        fun v => ∃ x, w.root.choose (Int64.ofNat v) = .ok (a, x)).card = (w.stored a).toInt.toNat := by
  have hsum := hw.root.sum_choose (fun a' _ => if a' = a then 1 else 0) ht
  have hleft : ∀ v, (if ∃ x, w.root.choose (Int64.ofNat v) = .ok (a, x) then 1 else 0) =
      ((w.root.choose (Int64.ofNat v)).toOption.map fun p => if p.1 = a then 1 else 0).getD 0 := by
    intro v
    rcases w.root.choose (Int64.ofNat v) with e | ⟨a', x⟩
    · simp [Except.toOption]
    · by_cases ha : a' = a
      · simp [Except.toOption, ha]
      · simp [Except.toOption, ha]
  rw [Finset.card_filter, Finset.sum_congr rfl fun v _ => hleft v, hsum]
  rcases hidx : w.idx a with _ | s
  · have hnone : ∀ s x, w.root.held s ≠ some (a, x) := fun s x hs => by
      rw [(hw.idx a s).mpr ⟨x, hs⟩] at hidx
      cases hidx
    rw [show w.stored a = 0 by simp [stored, lookup, hidx]]
    refine Finset.sum_eq_zero fun s _ => ?_
    rcases hs : w.root.held s with _ | ⟨b, x⟩
    · rfl
    · have hb : b ≠ a := fun hb => hnone s x (hb ▸ hs)
      simp [hb]
  · obtain ⟨x, hs⟩ := (hw.idx a s).mp hidx
    rw [Finset.sum_eq_single s, hs, show w.stored a = x by simp [stored, lookup, hidx, hs]]
    · simp
    · intro s' _ hs'
      rcases h' : w.root.held s' with _ | ⟨b, y⟩
      · rfl
      · have hb : b ≠ a := fun hb => hs' (hw.idx.unique (hb ▸ h') hs)
        simp [hb]
    · intro hnot
      exact absurd (Finset.mem_range.mpr (hw.root.lt_maxItems_of_held hs)) hnot

theorem chooseBranch_first {weights : Fin wrsBranches → Int64} {val : Int64} (h : val < weights 0) :
    chooseBranch weights (List.finRange wrsBranches) val = some (0, val) := by
  rw [show List.finRange wrsBranches = [0, 1, 2, 3, 4, 5, 6, 7] by decide, chooseBranch, if_pos h]

/-- `setWeight` of an item it does not know into a root leaf with room: the first free slot takes
it. -/
theorem setWeight_fresh_leaf {w : WeightedRandomSelect α} {item : α} {weight : Int64}
    {b : Fin wrsBranches} (hidx : w.idx item = none) (hw : weight ≠ 0)
    (hfull : w.root.itemCnt ≠ w.root.maxItems) (hl : w.root.level = 0)
    (hb : insertBranch w.root.items 0 (List.finRange wrsBranches) = .ok b) :
    w.setWeight item weight = .ok
      ⟨{ w.root with
          itemCnt := w.root.itemCnt + 1
          sumWeight := w.root.sumWeight + weight
          weights := Function.update w.root.weights b (w.root.weights b + weight)
          items := Function.update w.root.items b (.item item) },
        Function.update w.idx item (some b)⟩ := by
  rw [setWeight, hidx]
  simp [hw, hfull, WrsNode.insert_leaf (hl ▸ hb) hl, bind, Except.bind, pure, Except.pure]

/-- `setWeight` of an item it does not know when the root leaf is full: a new root above it,
and the item in the first slot of a new leaf in its second branch, at index `wrsBranches`. -/
theorem setWeight_addLevel {w : WeightedRandomSelect α} {item : α} {weight : Int64}
    (hidx : w.idx item = none) (hw : weight ≠ 0) (hl : w.root.level = 0)
    (hfull : w.root.itemCnt = wrsBranches) (hmax : w.root.maxItems = wrsBranches) :
    w.setWeight item weight = .ok
      ⟨{ w.root.addLevel with
          itemCnt := w.root.itemCnt + 1
          sumWeight := w.root.sumWeight + weight
          weights := Function.update w.root.addLevel.weights 1 (0 + weight)
          items := Function.update w.root.addLevel.items 1 (.node
            { (WrsNode.empty 0 wrsBranches : WrsNode α) with
              itemCnt := 1
              sumWeight := 0 + weight
              weights := Function.update (fun _ => 0) 0 (0 + weight)
              items := Function.update (fun _ => .nil) 0 (.item item) }) },
        Function.update w.idx item (some wrsBranches)⟩ := by
  have hfin : List.finRange wrsBranches = [0, 1, 2, 3, 4, 5, 6, 7] := by decide
  have h10 : (1 : Fin wrsBranches) ≠ 0 := by decide
  have hb : insertBranch w.root.addLevel.items w.root.addLevel.level (List.finRange wrsBranches) =
      .ok 1 := by
    rw [hfin]
    simp [insertBranch, WrsNode.addLevel, Function.update_of_ne h10, hfull, hmax, pure, Except.pure]
  have hleaf := @WrsNode.insert_leaf α (WrsNode.empty 0 wrsBranches) item weight 0
    (by rw [hfin]; rfl) rfl
  have hsub : (w.root.addLevel.items 1).subNode (w.root.addLevel.level - 1)
      (w.root.addLevel.maxItems / wrsBranches) = .ok (WrsNode.empty 0 wrsBranches) := by
    simp [WrsNode.addLevel, Function.update_of_ne h10, hl, hmax, Entry.subNode, pure, Except.pure,
      Nat.mul_div_cancel _ (show 0 < wrsBranches by decide)]
  have hins := WrsNode.insert_inner hb (by simp [WrsNode.addLevel]) hsub hleaf
  rw [setWeight, hidx]
  dsimp only
  rw [if_pos hw, if_pos (hfull.trans hmax.symm), hins]
  rfl

open Classical in
theorem wrs_tree_consistent_and_fair {w : WeightedRandomSelect α} (hw : Reachable w) :
    (∀ m, WrsNode.Below m w.root →
      m.sumWeight = ∑ b, m.weights b ∧
      (∀ b, m.weights b = ∑ s ∈ Finset.range (m.maxItems / wrsBranches),
        ((m.held (b * (m.maxItems / wrsBranches) + s)).map Prod.snd).getD 0) ∧
      m.itemCnt = ((Finset.range m.maxItems).filter fun s => (m.held s).isSome).card) ∧
    (∀ a s, w.idx a = some s ↔ ∃ x, 0 < x ∧ w.root.held s = some (a, x)) ∧
    (∀ a x, 0 ≤ x → ∃ w', w.setWeight a x = .ok w') ∧
    (w.root.total < 2 ^ 63 →
      (∀ val : Int64, 0 ≤ val → val < w.root.sumWeight → ∃ a x, w.root.choose val = .ok (a, x)) ∧
      ∀ a, ((Finset.range w.root.sumWeight.toInt.toNat).filter
        fun v => ∃ x, w.root.choose (Int64.ofNat v) = .ok (a, x)).card = (w.stored a).toInt.toNat) := by
  have hwf := hw.wf
  refine ⟨fun m hm => ?_, fun a s => ?_, fun a x hx => ?_, fun ht => ⟨fun val h0 hlt => ?_, fun a => ?_⟩⟩
  · obtain ⟨L, hmwf⟩ := hwf.root.of_below hm
    exact ⟨hmwf.sumWeight, hmwf.weights_eq_sum_held, hmwf.itemCnt_eq⟩
  · rw [hwf.idx a s]
    exact ⟨fun ⟨x, hx⟩ => ⟨x, hwf.root.held_pos hx, hx⟩, fun ⟨x, _, hx⟩ => ⟨x, hx⟩⟩
  · obtain ⟨w', hw', -⟩ := hwf.setWeight a hx
    exact ⟨w', hw'⟩
  · have hsum := hwf.root.toInt_sumWeight ht
    have h0' := Int64.le_iff_toInt_le.mp h0
    have hlt' := Int64.lt_iff_toInt_lt.mp hlt
    simp only [Int64.toInt_zero] at h0'
    have hval : val = Int64.ofNat val.toInt.toNat := by
      apply Int64.toInt_inj.mp
      rw [Int64.toInt_ofNat_of_lt (by have := val.toInt_lt; omega)]
      omega
    obtain ⟨s, a, x, -, hch⟩ := hwf.root.choose_ok ht (v := val.toInt.toNat) (by omega)
    exact ⟨a, x, hval ▸ hch⟩
  · rw [hwf.root.toInt_sumWeight ht]
    exact hwf.card_choose ht a

open Classical in
/-- Nine items of weight 1 into a new selection: the ninth finds the root leaf full and puts a
new root above it. -/
theorem wrs_tree_consistent_and_fair_grown :
    ∃ w : WeightedRandomSelect ℕ, Reachable w ∧ w.root.level = 1 ∧ w.root.itemCnt = 9 ∧
      (∀ m, WrsNode.Below m w.root →
        m.sumWeight = ∑ b, m.weights b ∧
        (∀ b, m.weights b = ∑ s ∈ Finset.range (m.maxItems / wrsBranches),
          ((m.held (b * (m.maxItems / wrsBranches) + s)).map Prod.snd).getD 0) ∧
        m.itemCnt = ((Finset.range m.maxItems).filter fun s => (m.held s).isSome).card) ∧
      (∀ a s, w.idx a = some s ↔ ∃ x, 0 < x ∧ w.root.held s = some (a, x)) ∧
      (∀ a x, 0 ≤ x → ∃ w', w.setWeight a x = .ok w') ∧
      (w.root.total < 2 ^ 63 →
        (∀ val : Int64, 0 ≤ val → val < w.root.sumWeight → ∃ a x, w.root.choose val = .ok (a, x)) ∧
        ∀ a, ((Finset.range w.root.sumWeight.toInt.toNat).filter
          fun v => ∃ x, w.root.choose (Int64.ofNat v) = .ok (a, x)).card = (w.stored a).toInt.toNat) := by
  have hreach := (Reachable.update 8 1 (by decide)
    (.update 7 1 (by decide) (.update 6 1 (by decide) (.update 5 1 (by decide)
      (.update 4 1 (by decide) (.update 3 1 (by decide) (.update 2 1 (by decide)
        (.update 1 1 (by decide) (.update 0 1 (by decide) .new
          (setWeight_fresh_leaf (b := 0) rfl (by decide) (by decide) rfl rfl))
          (setWeight_fresh_leaf (b := 1) rfl (by decide) (by decide) rfl rfl))
          (setWeight_fresh_leaf (b := 2) rfl (by decide) (by decide) rfl rfl))
          (setWeight_fresh_leaf (b := 3) rfl (by decide) (by decide) rfl rfl))
          (setWeight_fresh_leaf (b := 4) rfl (by decide) (by decide) rfl rfl))
          (setWeight_fresh_leaf (b := 5) rfl (by decide) (by decide) rfl rfl))
          (setWeight_fresh_leaf (b := 6) rfl (by decide) (by decide) rfl rfl))
          (setWeight_fresh_leaf (b := 7) rfl (by decide) (by decide) rfl rfl))
      (setWeight_addLevel (by decide) (by decide) rfl rfl rfl) : Reachable _)
  exact ⟨_, hreach, rfl, rfl, wrs_tree_consistent_and_fair hreach⟩

open Classical in
/-- Four items of weight `2 ^ 62` and one of weight 5 fill the first five slots of the root leaf,
whose sum wraps around to 5: every value below it falls in the first slot. -/
theorem wrs_overflow_breaks_fairness :
    ∃ w : WeightedRandomSelect ℕ, Reachable w ∧ w.stored 4 = 5 ∧ w.root.sumWeight = 5 ∧
      (∀ val : Int64, 0 ≤ val → val < w.root.sumWeight → w.root.choose val = .ok (0, 4611686018427387904)) ∧
      ((Finset.range w.root.sumWeight.toInt.toNat).filter
        fun v => ∃ x, w.root.choose (Int64.ofNat v) = .ok (4, x)).card = 0 := by
  obtain ⟨w, hreach, hl, hi, hw0, hsum, hstored⟩ : ∃ w : WeightedRandomSelect ℕ, Reachable w ∧
      w.root.level = 0 ∧ w.root.items 0 = .item 0 ∧ w.root.weights 0 = 4611686018427387904 ∧
      w.root.sumWeight = 5 ∧ w.stored 4 = 5 :=
    ⟨_, .update 4 5 (by decide) (.update 3 4611686018427387904 (by decide)
      (.update 2 4611686018427387904 (by decide) (.update 1 4611686018427387904 (by decide)
        (.update 0 4611686018427387904 (by decide) .new
          (setWeight_fresh_leaf (b := 0) rfl (by decide) (by decide) rfl rfl))
        (setWeight_fresh_leaf (b := 1) rfl (by decide) (by decide) rfl rfl))
        (setWeight_fresh_leaf (b := 2) rfl (by decide) (by decide) rfl rfl))
        (setWeight_fresh_leaf (b := 3) rfl (by decide) (by decide) rfl rfl))
        (setWeight_fresh_leaf (b := 4) rfl (by decide) (by decide) rfl rfl),
      rfl, rfl, by decide, by decide, by decide⟩
  have hall : ∀ val : Int64, 0 ≤ val → val < w.root.sumWeight →
      w.root.choose val = .ok (0, 4611686018427387904) := by
    intro val _ hlt
    rw [hsum] at hlt
    rw [← hw0]
    exact WrsNode.choose_leaf hl (chooseBranch_first (by rw [hw0]; exact Int64.lt_trans hlt (by decide))) hi
  refine ⟨w, hreach, hstored, hsum, hall, Finset.card_eq_zero.mpr
    (Finset.filter_eq_empty_iff.mpr fun v hv ⟨x, hx⟩ => ?_)⟩
  rw [hsum, Finset.mem_range, show (5 : Int64).toInt.toNat = 5 by decide] at hv
  have hv' : (Int64.ofNat v).toInt = v := Int64.toInt_ofNat_of_lt (by omega)
  have h0 : 0 ≤ Int64.ofNat v := Int64.le_iff_toInt_le.mpr (by simp [hv'])
  have hlt : Int64.ofNat v < w.root.sumWeight := by
    rw [hsum]
    exact Int64.lt_iff_toInt_lt.mpr (by rw [hv']; simp; omega)
  have := (hall _ h0 hlt).symm.trans hx
  simp at this

end WeightedRandomSelect

end GoXdn.Les
