import Mathlib
import GoXdn.Proofs.SortedMap

/-!
# The caps of a transaction list

`txList.Filter` does no work where `costcap` and `gascap` are within the limits. That is sound
because the caps are at or above the cost and gas of every transaction in the list (`Capped`):
`Add` raises them to the transaction it adds, `Filter` lowers them only to the limits it has just
filtered by, and every other call only takes transactions out. So on every list the calls reach,
`Filter` returns as removed exactly what exceeds a limit, and in strict mode as invalid exactly the
rest past the lowest nonce it removed (`txList_filter_exact`).
-/

namespace GoXdn.Core

open GoStd

section

attribute [local instance] nonceOrder

variable {τ : Type} (nonce : τ → UInt64) (cost gas gasPrice : τ → ℤ)

/-- A `txList` whose map holds `l`, with caps at or above every cost and gas in `l`. -/
structure Capped (t : TxList τ) (l : List τ) : Prop extends Represents nonce t.txs l where
  cost_le : ∀ tx ∈ l, cost tx ≤ t.costcap
  gas_le : ∀ tx ∈ l, gas tx ≤ t.gascap

variable {nonce cost gas gasPrice}

variable {t : TxList τ} {l : List τ}

/-- A call that only takes transactions out, and does not lower the caps, keeps them caps. -/
theorem Capped.mono {t' : TxList τ} {l' : List τ} (hc : Capped nonce cost gas t l)
    (hr : Represents nonce t'.txs l') (hsub : ∀ tx ∈ l', tx ∈ l) (hcost : t.costcap ≤ t'.costcap)
    (hgas : t.gascap ≤ t'.gascap) : Capped nonce cost gas t' l' :=
  ⟨hr, fun tx htx => (hc.cost_le tx (hsub tx htx)).trans hcost,
    fun tx htx => (hc.gas_le tx (hsub tx htx)).trans hgas⟩

/-- The least nonce the removed have is below `n` just where one of them is. -/
theorem foldl_lowest_lt (n : UInt64) :
    ∀ (removed : List τ) (init : UInt64),
      removed.foldl (fun lowest tx => if lowest > nonce tx then nonce tx else lowest) init < n ↔
        init < n ∨ ∃ tx ∈ removed, nonce tx < n
  | [], init => by simp
  | tx :: rest, init => by
    rw [List.foldl_cons, foldl_lowest_lt n rest]
    simp only [List.mem_cons, or_and_right, exists_or, exists_eq_left]
    split_ifs with hlt
    · constructor
      · rintro (h | h)
        · exact .inr (.inl h)
        · exact .inr (.inr h)
      · rintro (h | h | h)
        · exact .inl (hlt.trans h)
        · exact .inl h
        · exact .inr h
    · constructor
      · rintro (h | h)
        · exact .inl h
        · exact .inr (.inr h)
      · rintro (h | h | h)
        · exact .inl h
        · exact .inl ((not_lt.mp hlt).trans_lt h)
        · exact .inr h

theorem lowestNonce_lt {removed : List τ} {n : UInt64} :
    TxList.lowestNonce nonce removed < n ↔ ∃ tx ∈ removed, nonce tx < n := by
  rw [TxList.lowestNonce, foldl_lowest_lt]
  have hmax : ¬ (18446744073709551615 : UInt64) < n := by
    have hval : (18446744073709551615 : UInt64).toNat = 2 ^ 64 - 1 := rfl
    rw [UInt64.lt_iff_toNat_lt, hval]
    have := n.toNat_lt
    omega
  simp [hmax]

/-! ### Each call keeps the caps -/

/-- Raising a cap to `c` leaves it at or above both. -/
theorem le_raise (cap c : ℤ) : cap ≤ (if cap < c then c else cap) ∧ c ≤ (if cap < c then c else cap) := by
  split_ifs <;> omega

theorem Capped.add (hc : Capped nonce cost gas t l) (tx : τ) (priceBump : UInt64) :
    ∃ l', Capped nonce cost gas (t.add nonce cost gas gasPrice tx priceBump).1 l' := by
  unfold TxList.add
  dsimp only
  by_cases hrej : TxList.rejects gasPrice (t.txs.get (nonce tx)) tx priceBump = true
  · rw [if_pos hrej]
    exact ⟨l, hc⟩
  · rw [if_neg hrej]
    refine ⟨insertByNonce nonce tx l, hc.toRepresents.put tx, fun x hx => ?_, fun x hx => ?_⟩
    · rcases mem_insertByNonce.mp hx with rfl | ⟨hx, -⟩
      · exact (le_raise _ _).2
      · exact (hc.cost_le x hx).trans (le_raise _ _).1
    · rcases mem_insertByNonce.mp hx with rfl | ⟨hx, -⟩
      · exact (le_raise _ _).2
      · exact (hc.gas_le x hx).trans (le_raise _ _).1

/-- `Filter` removes what exceeds a limit, in strict mode also what is past the lowest nonce it
removed, and never more: where the caps are within the limits, nothing exceeds them. -/
theorem Capped.filter (hc : Capped nonce cost gas t l) (costLimit gasLimit : ℤ) (o₁ o₂ : MapOrder τ)
    (hvalid : (TxList.Op.filter costLimit gasLimit o₁ o₂).Valid nonce cost gas t) :
    (t.filter nonce cost gas costLimit gasLimit o₁ o₂).2.1.Perm
        (l.filter (TxList.exceeds cost gas costLimit gasLimit)) ∧
      (t.filter nonce cost gas costLimit gasLimit o₁ o₂).2.2.Perm
        ((l.filter fun tx => !TxList.exceeds cost gas costLimit gasLimit tx).filter fun tx =>
          t.strict ∧ ∃ x ∈ l.filter (TxList.exceeds cost gas costLimit gasLimit), nonce x < nonce tx) ∧
      ∃ l', Capped nonce cost gas (t.filter nonce cost gas costLimit gasLimit o₁ o₂).1 l' := by
  unfold TxList.filter
  split_ifs with hfast
  · have hnone : l.filter (TxList.exceeds cost gas costLimit gasLimit) = [] :=
      List.filter_eq_nil_iff.mpr fun tx htx => by
        have hcost := hc.cost_le tx htx
        have hgas := hc.gas_le tx htx
        simp only [TxList.exceeds, decide_eq_true_eq, not_or, not_lt]
        omega
    refine ⟨by rw [hnone], ?_, l, hc⟩
    rw [hnone]
    simp
  · obtain ⟨hv₁, hv₂⟩ := hvalid
    obtain ⟨hrem, hr₁⟩ := hc.toRepresents.filter _ o₁ hv₁
    rcases hf : t.txs.filter (TxList.exceeds cost gas costLimit gasLimit) o₁ with ⟨txs₁, removed⟩
    rw [hf] at hrem hr₁ hv₂
    dsimp only
    have hwithin : ∀ tx ∈ l.filter (fun tx => !TxList.exceeds cost gas costLimit gasLimit tx),
        cost tx ≤ costLimit ∧ gas tx ≤ gasLimit := fun tx htx => by
      have := (List.mem_filter.mp htx).2
      simp only [TxList.exceeds, Bool.not_eq_true', decide_eq_false_iff_not, not_or, not_lt] at this
      exact this
    split_ifs with hstrict
    · obtain ⟨hinv, hr₂⟩ := hr₁.filter _ o₂ hv₂
      refine ⟨hrem, hinv.trans (List.Perm.of_eq (List.filter_congr fun tx _ => ?_)), _,
        hr₂, fun tx htx => (hwithin tx (List.mem_of_mem_filter htx)).1,
        fun tx htx => (hwithin tx (List.mem_of_mem_filter htx)).2⟩
      simp only [decide_eq_decide, hstrict.1, true_and, lowestNonce_lt]
      exact ⟨fun ⟨x, hx, hlt⟩ => ⟨x, hrem.subset hx, hlt⟩,
        fun ⟨x, hx, hlt⟩ => ⟨x, hrem.symm.subset hx, hlt⟩⟩
    · refine ⟨hrem, ?_, _, hr₁, fun tx htx => (hwithin tx htx).1, fun tx htx => (hwithin tx htx).2⟩
      rw [List.filter_eq_nil_iff.mpr fun tx _ => ?_]
      simp only [decide_eq_true_eq, not_and, not_exists]
      intro hs x hx
      have hnil : removed = [] := List.length_eq_zero_iff.mp (by
        by_contra h
        exact hstrict ⟨hs, by omega⟩)
      rw [hnil] at hrem
      exact absurd (hrem.symm.subset hx) List.not_mem_nil

theorem Capped.remove (hc : Capped nonce cost gas t l) (tx : τ) (o : MapOrder τ)
    (hvalid : (TxList.Op.remove tx o).Valid nonce cost gas t) :
    ∃ l', Capped nonce cost gas (t.remove nonce tx o).1 l' := by
  obtain ⟨-, hr₁⟩ := hc.toRepresents.remove (nonce tx)
  unfold TxList.remove
  rcases hrm : t.txs.remove (nonce tx) with ⟨txs₁, found⟩
  rw [hrm] at hr₁
  simp only [TxList.Op.Valid] at hvalid
  rw [hrm] at hvalid
  have hsub : ∀ x ∈ l.filter (fun x => nonce x ≠ nonce tx), x ∈ l := fun x hx => List.mem_of_mem_filter hx
  dsimp only
  split_ifs with hf hs
  · obtain ⟨-, hr₂⟩ := hr₁.filter _ o hvalid
    exact ⟨_, hc.mono hr₂ (fun x hx => hsub x (List.mem_of_mem_filter hx)) le_rfl le_rfl⟩
  · exact ⟨_, hc.mono hr₁ hsub le_rfl le_rfl⟩
  · exact ⟨_, hc.mono hr₁ hsub le_rfl le_rfl⟩

/-- A call that does not panic keeps the caps. -/
theorem Capped.apply (hc : Capped nonce cost gas t l) {op : TxList.Op τ}
    (hvalid : op.Valid nonce cost gas t) {t' : TxList τ} (happ : t.apply nonce cost gas gasPrice op = some t') :
    ∃ l', Capped nonce cost gas t' l' := by
  cases op with
  | add tx priceBump =>
    cases happ
    exact hc.add tx priceBump
  | forward threshold =>
    obtain ⟨m', hfw, hr'⟩ := hc.toRepresents.forward threshold
    rw [TxList.apply, TxList.forward, hfw, Option.map_some, Option.map_some] at happ
    cases happ
    exact ⟨_, hc.mono hr' (fun tx htx => List.mem_of_mem_filter htx) le_rfl le_rfl⟩
  | filter costLimit gasLimit o₁ o₂ =>
    cases happ
    exact (hc.filter costLimit gasLimit o₁ o₂ hvalid).2.2
  | cap threshold =>
    rcases lt_or_ge threshold 0 with hneg | hnonneg
    · rw [TxList.apply, TxList.cap, cap_of_neg _ hneg] at happ
      cases happ
    · obtain ⟨k, rfl⟩ := Int.eq_ofNat_of_zero_le hnonneg
      obtain ⟨m', hcap, hr'⟩ := hc.toRepresents.cap k
      rw [TxList.apply, TxList.cap, hcap, Option.map_some, Option.map_some] at happ
      cases happ
      exact ⟨_, hc.mono hr' (fun tx htx => List.mem_of_mem_take htx) le_rfl le_rfl⟩
  | remove tx o =>
    cases happ
    exact hc.remove tx o hvalid
  | ready start =>
    cases happ
    exact ⟨_, hc.mono (hc.toRepresents.ready start).2 (fun tx htx => List.mem_of_mem_drop htx)
      le_rfl le_rfl⟩

theorem TxList.Reachable.capped {strict : Bool} (h : TxList.Reachable nonce cost gas gasPrice strict t) :
    ∃ l, Capped nonce cost gas t l := by
  induction h with
  | new => exact ⟨[], represents_new, by simp, by simp⟩
  | step _ hvalid happ ih =>
    obtain ⟨l, hc⟩ := ih
    exact hc.apply hvalid happ

variable (nonce cost gas) in
/-- `Filter(costLimit, gasLimit)` on a list that holds `l` returns as removed just what in `l`
exceeds a limit, and as invalid, in strict mode, just the rest past the lowest nonce it removed. -/
def FilterExact (t : TxList τ) (l : List τ) : Prop :=
  ∀ (costLimit gasLimit : ℤ) (o₁ o₂ : MapOrder τ), (TxList.Op.filter costLimit gasLimit o₁ o₂).Valid nonce cost gas t →
    (t.filter nonce cost gas costLimit gasLimit o₁ o₂).2.1.Perm
        (l.filter (TxList.exceeds cost gas costLimit gasLimit)) ∧
      (t.filter nonce cost gas costLimit gasLimit o₁ o₂).2.2.Perm
        ((l.filter fun tx => !TxList.exceeds cost gas costLimit gasLimit tx).filter fun tx =>
          t.strict ∧ ∃ x ∈ l.filter (TxList.exceeds cost gas costLimit gasLimit), nonce x < nonce tx)

variable (nonce cost gas gasPrice) in
/-- On every list the calls reach, the caps bound every cost and gas, and `Filter`'s short circuit
returns what the full filter would. -/
theorem txList_filter_exact (strict : Bool) (t : TxList τ)
    (ht : TxList.Reachable nonce cost gas gasPrice strict t) :
    ∃ l, Capped nonce cost gas t l ∧ FilterExact nonce cost gas t l := by
  obtain ⟨l, hc⟩ := ht.capped
  exact ⟨l, hc, fun costLimit gasLimit o₁ o₂ hvalid =>
    ⟨(hc.filter costLimit gasLimit o₁ o₂ hvalid).1, (hc.filter costLimit gasLimit o₁ o₂ hvalid).2.1⟩⟩

/-- A strict list that took two transactions, naturals that are their own nonce, cost, gas and
price. -/
def twoTxs : TxList ℕ :=
  (((newTxList true).add UInt64.ofNat Int.ofNat Int.ofNat Int.ofNat 3 10).1.add UInt64.ofNat Int.ofNat
    Int.ofNat Int.ofNat 1 10).1

theorem txList_filter_exact_twoTxs :
    TxList.Reachable UInt64.ofNat Int.ofNat Int.ofNat Int.ofNat true twoTxs ∧
      ∃ l, Capped UInt64.ofNat Int.ofNat Int.ofNat twoTxs l ∧
        FilterExact UInt64.ofNat Int.ofNat Int.ofNat twoTxs l :=
  have hreach : TxList.Reachable UInt64.ofNat Int.ofNat Int.ofNat Int.ofNat true twoTxs :=
    @TxList.Reachable.step ℕ UInt64.ofNat Int.ofNat Int.ofNat Int.ofNat true _ _ (.add 1 10)
      (@TxList.Reachable.step ℕ UInt64.ofNat Int.ofNat Int.ofNat Int.ofNat true _ _ (.add 3 10) .new trivial rfl)
      trivial rfl
  ⟨hreach, txList_filter_exact UInt64.ofNat Int.ofNat Int.ofNat Int.ofNat true twoTxs hreach⟩

end

end GoXdn.Core
