import Mathlib
import GoXdn.Consensus.VerifyHeaders

/-!
# Batch verification reports in header order

Over every run without `abort` the goroutines of `VerifyHeaders` keep `BatchState.Inv`: each index
handed out is, exactly once, with a worker, in `done` or checked; a finished index has its
worker's result in `errors`; and what the collector has sent is the results of the indices below
`out`, all checked, while `out` itself is not. So the values sent are always the first results in
header order, each once; the collector returns exactly when it has sent all `n`; and until then
some step is enabled, and every step takes one off `remaining` (`verifyHeaders_in_order`).
-/

namespace GoXdn.Consensus

namespace BatchState

variable {α : Type} (w : ℕ → α) (d : α)

theorem getD_set_of_lt {β : Type} {l : List β} {i : ℕ} (v : β) (hi : i < l.length) (j : ℕ) (b : β) :
    (l.set i v).getD j b = if i = j then v else l.getD j b := by
  rw [List.getD_eq_getElem?_getD, List.getD_eq_getElem?_getD, List.getElem?_set]
  split_ifs <;> simp [*]

/-- What the goroutines keep over every run without `abort`. -/
structure Inv (s : BatchState α) : Prop where
  next_le : s.next ≤ s.n
  length_checked : s.checked.length = s.n
  length_errors : s.errors.length = s.n
  /-- every index handed out is in exactly one place, and no other index is anywhere -/
  count : ∀ i, s.working.count i + s.done.count i + (s.checked.getD i false).toNat =
    if i < s.next then 1 else 0
  result : ∀ i, (i ∈ s.done ∨ s.checked.getD i false = true) → s.errors.getD i d = w i
  sent : s.sent = (List.range s.sent.length).map w
  cursor : s.returned = false → s.sent.length = s.out ∧ s.out < s.n ∧
    (∀ i < s.out, s.checked.getD i false = true) ∧ s.checked.getD s.out false = false
  finished : s.returned = true → s.sent.length = s.n ∧ ∀ i < s.n, s.checked.getD i false = true

variable {w d}

theorem getD_replicate_false (n i : ℕ) : (List.replicate n false).getD i false = false := by
  rw [List.getD_eq_getElem?_getD, List.getElem?_replicate]
  split <;> rfl

theorem inv_VerifyHeaders (n : ℕ) : (VerifyHeaders d n).Inv w d := by
  refine ⟨Nat.zero_le _, List.length_replicate, List.length_replicate, fun i => ?_, fun i hi => ?_,
    rfl, fun h => ?_, fun h => ?_⟩
  · simp only [VerifyHeaders, getD_replicate_false, List.count_nil, Bool.toNat_false,
      Nat.not_lt_zero, if_false]
  · simp only [VerifyHeaders, getD_replicate_false, List.not_mem_nil, false_or] at hi
    cases hi
  · have hn : n ≠ 0 := by simpa [VerifyHeaders] using h
    exact ⟨rfl, by simp only [VerifyHeaders]; omega, fun i hi => absurd hi (Nat.not_lt_zero _),
      getD_replicate_false n 0⟩
  · have hn : n = 0 := by simpa [VerifyHeaders] using h
    exact ⟨by simp [VerifyHeaders, hn], fun i hi => absurd hi (by simp [VerifyHeaders, hn])⟩

/-- An index that is in `done`, or checked, or with a worker, has been handed out. -/
theorem Inv.lt_next {s : BatchState α} (h : s.Inv w d) {i : ℕ}
    (hi : i ∈ s.working ∨ i ∈ s.done ∨ s.checked.getD i false = true) : i < s.next := by
  have := h.count i
  split_ifs at this with hlt
  · exact hlt
  · rcases hi with hi | hi | hi
    · have := List.count_pos_iff.mpr hi
      omega
    · have := List.count_pos_iff.mpr hi
      omega
    · rw [hi] at this
      simp at this

/-- A checked index is neither with a worker nor in `done`. -/
theorem Inv.not_mem_of_checked {s : BatchState α} (h : s.Inv w d) {i : ℕ}
    (hi : s.checked.getD i false = true) : i ∉ s.working ∧ i ∉ s.done := by
  have hc := h.count i
  rw [hi, Bool.toNat_true] at hc
  have hnone : s.working.count i + s.done.count i = 0 := by
    split_ifs at hc
    omega
  exact ⟨fun hw => by have := List.count_pos_iff.mpr hw; omega,
    fun hd => by have := List.count_pos_iff.mpr hd; omega⟩

/-! ### The collector's loop -/

/-- The loop sends the results from `out` on while their indices are checked, and stops at an
unchecked index or after the last one. -/
theorem drain_spec (s : BatchState α) (hres : ∀ i, s.checked.getD i false = true → s.errors.getD i d = w i)
    (hsent : s.sent = (List.range s.out).map w) (hout : s.out < s.n)
    (hbelow : ∀ i < s.out, s.checked.getD i false = true) :
    ∀ fuel, s.n ≤ s.out + fuel → ∃ t, s.drain d fuel = t ∧
      t.n = s.n ∧ t.next = s.next ∧ t.checked = s.checked ∧ t.errors = s.errors ∧
      t.working = s.working ∧ t.done = s.done ∧ t.sent = (List.range t.sent.length).map w ∧
      ((t.returned = s.returned ∧ t.sent.length = t.out ∧ t.out < t.n ∧
          (∀ i < t.out, t.checked.getD i false = true) ∧ t.checked.getD t.out false = false) ∨
        (t.returned = true ∧ t.sent.length = t.n ∧ ∀ i < t.n, t.checked.getD i false = true))
  | 0, hfuel => absurd hfuel (by omega)
  | fuel + 1, hfuel => by
    rw [drain]
    dsimp only
    by_cases hc : s.checked.getD s.out false = true
    · rw [if_pos hc]
      have hsent' : s.sent ++ [s.errors.getD s.out d] = (List.range (s.out + 1)).map w := by
        rw [hsent, hres _ hc, List.range_succ, List.map_append, List.map_singleton]
      by_cases hlast : s.out = s.n - 1
      · rw [if_pos hlast]
        refine ⟨_, rfl, rfl, rfl, rfl, rfl, rfl, rfl, ?_, .inr ⟨rfl, ?_, fun i hi => ?_⟩⟩
        · rw [hsent', List.length_map, List.length_range]
        · rw [hsent', List.length_map, List.length_range]
          dsimp only
          omega
        · dsimp only at hi ⊢
          by_cases hi' : i < s.out
          · exact hbelow i hi'
          · rwa [show i = s.out by omega]
      · rw [if_neg hlast]
        obtain ⟨t, ht, hn, hnext, hch, herr, hwork, hdone, hts, hcase⟩ :=
          drain_spec { s with sent := s.sent ++ [s.errors.getD s.out d], out := s.out + 1 } hres
            hsent' (by dsimp only; omega) (fun i hi => by
              dsimp only at hi ⊢
              by_cases hi' : i < s.out
              · exact hbelow i hi'
              · rwa [show i = s.out by omega]) fuel (by dsimp only; omega)
        exact ⟨t, ht, hn, hnext, hch, herr, hwork, hdone, hts, hcase⟩
    · rw [if_neg hc]
      refine ⟨s, rfl, rfl, rfl, rfl, rfl, rfl, rfl, ?_, .inl ⟨rfl, ?_, hout, hbelow, by simpa using hc⟩⟩
      · rw [hsent, List.length_map, List.length_range]
      · rw [hsent, List.length_map, List.length_range]

/-! ### The steps -/

theorem Inv.dispatch {s : BatchState α} (h : s.Inv w d) : (s.step w d .dispatch).Inv w d := by
  rw [step]
  split_ifs with hen
  · obtain ⟨-, hlt⟩ := hen
    refine ⟨hlt, h.length_checked, h.length_errors, fun i => ?_, h.result, h.sent, h.cursor,
      h.finished⟩
    have hc := h.count i
    dsimp only
    rw [List.count_append, List.count_singleton]
    by_cases hi : i = s.next
    · subst hi
      simp only [lt_irrefl, if_false] at hc
      simp only [beq_self_eq_true, if_true, lt_add_one, if_true]
      omega
    · have hne : (s.next == i) = false := beq_false_of_ne (Ne.symm hi)
      simp only [hne, Bool.false_eq_true, if_false, Nat.add_zero]
      rw [hc]
      congr 1
      exact propext ⟨fun h' => by omega, fun h' => by omega⟩
  · exact h

theorem Inv.finish {s : BatchState α} (h : s.Inv w d) (i : ℕ) : (s.step w d (.finish i)).Inv w d := by
  rw [step]
  split_ifs with hi
  · have hin : i < s.n := lt_of_lt_of_le (h.lt_next (.inl hi)) h.next_le
    refine ⟨h.next_le, h.length_checked, by rw [List.length_set, h.length_errors], fun j => ?_,
      fun j hj => ?_, h.sent, h.cursor, h.finished⟩
    · have hc := h.count j
      have hpos := List.count_pos_iff.mpr hi
      dsimp only
      rw [List.count_append, List.count_singleton]
      by_cases hj : j = i
      · subst hj
        rw [List.count_erase_self]
        simp only [beq_self_eq_true, if_true]
        omega
      · rw [List.count_erase_of_ne hj]
        simp only [beq_false_of_ne (Ne.symm hj), Bool.false_eq_true, if_false, Nat.add_zero]
        exact hc
    · dsimp only at hj ⊢
      rw [getD_set_of_lt _ (by rw [h.length_errors]; exact hin)]
      split_ifs with hij
      · rw [hij]
      · refine h.result j ?_
        rcases hj with hj | hj
        · rcases List.mem_append.mp hj with hj | hj
          · exact .inl hj
          · exact absurd (List.mem_singleton.mp hj).symm hij
        · exact .inr hj
  · exact h

theorem Inv.receive {s : BatchState α} (h : s.Inv w d) : (s.step w d .receive).Inv w d := by
  rw [step]
  split
  · rename_i i rest hret hdone
    have hi : i ∈ s.done := hdone ▸ List.mem_cons_self ..
    have hin : i < s.n := lt_of_lt_of_le (h.lt_next (.inr (.inl hi))) h.next_le
    have hchk : s.checked.getD i false = false := by
      cases hci : s.checked.getD i false
      · rfl
      · exact absurd hi (h.not_mem_of_checked hci).2
    set s₁ : BatchState α := { s with checked := s.checked.set i true, done := rest }
    have hlen₁ : s₁.checked.length = s.n := by simp only [s₁, List.length_set, h.length_checked]
    have hget₁ : ∀ j, s₁.checked.getD j false = (decide (j = i) || s.checked.getD j false) := by
      intro j
      simp only [s₁]
      rw [getD_set_of_lt _ (by rw [h.length_checked]; exact hin)]
      by_cases hj : j = i
      · simp [hj]
      · simp [hj, Ne.symm hj]
    have hres₁ : ∀ j, s₁.checked.getD j false = true → s₁.errors.getD j d = w j := by
      intro j hj
      rw [hget₁, Bool.or_eq_true, decide_eq_true_eq] at hj
      rcases hj with rfl | hj
      · exact h.result _ (.inl hi)
      · exact h.result _ (.inr hj)
    obtain ⟨hlen, hout, hbelow, hcur⟩ := h.cursor hret
    obtain ⟨t, ht, hn, hnext, hch, herr, hwork, hdone', hts, hcase⟩ :=
      drain_spec s₁ hres₁ (by rw [← hlen]; exact h.sent) hout
        (fun j hj => by rw [hget₁, hbelow j hj, Bool.or_true]) s.n (by dsimp only [s₁]; omega)
    rw [ht]
    refine ⟨hnext ▸ hn ▸ h.next_le, hch ▸ hn ▸ hlen₁, herr ▸ hn ▸ h.length_errors, fun j => ?_,
      fun j hj => ?_, hts, fun hr => ?_, fun hr => ?_⟩
    · have hw₁ : s₁.working = s.working := rfl
      have hd₁ : s₁.done = rest := rfl
      have hn₁ : s₁.next = s.next := rfl
      rw [hwork, hdone', hch, hnext, hget₁, hw₁, hd₁, hn₁]
      have hc := h.count j
      rw [hdone, List.count_cons] at hc
      by_cases hj : j = i
      · subst hj
        rw [hchk] at hc
        simp only [beq_self_eq_true, if_true, decide_true, Bool.true_or, Bool.toNat_true,
          Bool.toNat_false] at hc ⊢
        omega
      · simp only [beq_false_of_ne (Ne.symm hj), Bool.false_eq_true, if_false, Nat.add_zero] at hc
        simp only [decide_eq_false hj, Bool.false_or]
        exact hc
    · rw [herr]
      rw [hdone', hch] at hj
      rcases hj with hj | hj
      · exact h.result j (.inl (hdone ▸ List.mem_cons_of_mem _ hj))
      · exact hres₁ j hj
    · rcases hcase with ⟨-, hc⟩ | ⟨hr', -⟩
      · exact hc
      · rw [hr] at hr'
        cases hr'
    · rcases hcase with ⟨hr', -⟩ | ⟨-, hc⟩
      · rw [hr', hret] at hr
        cases hr
      · exact hc
  · exact h

theorem Inv.step {s : BatchState α} (h : s.Inv w d) :
    ∀ e, e ≠ .abort → (s.step w d e).Inv w d
  | .dispatch, _ => h.dispatch
  | .finish i, _ => h.finish i
  | .receive, _ => h.receive
  | .abort, he => absurd rfl he

theorem Inv.run {s : BatchState α} (h : s.Inv w d) :
    ∀ es : List BatchEvent, .abort ∉ es → (s.run w d es).Inv w d
  | [], _ => h
  | e :: es, hes => by
    rw [BatchState.run, List.foldl_cons]
    exact (h.step e fun he => hes (he ▸ List.mem_cons_self ..)).run es
      fun he => hes (List.mem_cons_of_mem _ he)

/-! ### Progress -/

theorem drain_keeps (s : BatchState α) :
    ∀ fuel, (s.drain d fuel).n = s.n ∧ (s.drain d fuel).next = s.next ∧
      (s.drain d fuel).working = s.working ∧ (s.drain d fuel).done = s.done
  | 0 => ⟨rfl, rfl, rfl, rfl⟩
  | fuel + 1 => by
    rw [drain]
    dsimp only
    split_ifs
    · exact ⟨rfl, rfl, rfl, rfl⟩
    · exact drain_keeps _ fuel
    · exact ⟨rfl, rfl, rfl, rfl⟩

theorem n_step (s : BatchState α) : ∀ e, (s.step w d e).n = s.n
  | .dispatch => by rw [step]; split_ifs <;> rfl
  | .finish i => by rw [step]; split_ifs <;> rfl
  | .receive => by
    rw [step]
    split
    · exact (drain_keeps _ _).1
    · rfl
  | .abort => rfl

theorem n_run (s : BatchState α) : ∀ es, (s.run w d es).n = s.n
  | [] => rfl
  | e :: es => by rw [BatchState.run, List.foldl_cons, ← BatchState.run, n_run, n_step]

theorem remaining_dispatch {s : BatchState α} (hret : s.returned = false) (hnext : s.next < s.n) :
    (s.step w d .dispatch).remaining + 1 = s.remaining := by
  rw [step, if_pos ⟨by simp [hret], hnext⟩]
  simp only [remaining, List.length_append, List.length_singleton]
  omega

theorem remaining_finish {s : BatchState α} {i : ℕ} (hi : i ∈ s.working) :
    (s.step w d (.finish i)).remaining + 1 = s.remaining := by
  rw [step, if_pos hi]
  have := List.length_erase_add_one hi
  simp only [remaining, List.length_append, List.length_singleton]
  omega

theorem remaining_receive {s : BatchState α} {i : ℕ} {rest : List ℕ} (hret : s.returned = false)
    (hdone : s.done = i :: rest) : (s.step w d .receive).remaining + 1 = s.remaining := by
  rw [step]
  simp only [hret, hdone]
  simp only [remaining, drain_keeps, hdone, List.length_cons]
  omega

/-- Every step other than `abort` is not enabled, or takes one off what is left. -/
theorem step_remaining (s : BatchState α) :
    ∀ e, e ≠ .abort → s.step w d e = s ∨ (s.step w d e).remaining + 1 = s.remaining
  | .dispatch, _ => by
    by_cases hen : ¬ s.returned ∧ s.next < s.n
    · exact .inr (remaining_dispatch (by simpa using hen.1) hen.2)
    · exact .inl (by rw [step, if_neg hen])
  | .finish i, _ => by
    by_cases hi : i ∈ s.working
    · exact .inr (remaining_finish hi)
    · exact .inl (by rw [step, if_neg hi])
  | .receive, _ => by
    match hret : s.returned, hdone : s.done with
    | false, i :: rest => exact .inr (remaining_receive hret hdone)
    | true, _ => exact .inl (by rw [step, hret])
    | false, [] => exact .inl (by rw [step, hret, hdone])
  | .abort, he => absurd rfl he

/-- With every index handed out, finished and received, the collector has sent them all. -/
theorem Inv.returned_of_remaining {s : BatchState α} (h : s.Inv w d) (hr : s.remaining = 0) :
    s.returned = true := by
  by_contra hret
  obtain ⟨-, hout, -, hcur⟩ := h.cursor (Bool.eq_false_iff.mpr hret)
  have hc := h.count s.out
  simp only [remaining] at hr
  have hwork : s.working = [] := List.length_eq_zero_iff.mp (by omega)
  have hdone : s.done = [] := List.length_eq_zero_iff.mp (by omega)
  rw [hwork, hdone, hcur, if_pos (by omega)] at hc
  simp at hc

theorem Inv.remaining_of_returned {s : BatchState α} (h : s.Inv w d) (hret : s.returned = true) :
    s.remaining = 0 := by
  obtain ⟨-, hall⟩ := h.finished hret
  have hnone : ∀ i, i ∉ s.working ∧ i ∉ s.done := by
    intro i
    by_cases hi : i < s.n
    · exact h.not_mem_of_checked (hall i hi)
    · have hge : ¬ i < s.next := by have := h.next_le; omega
      exact ⟨fun hw => hge (h.lt_next (.inl hw)), fun hd => hge (h.lt_next (.inr (.inl hd)))⟩
  have hnext : s.next = s.n := by
    by_contra hne
    have hc := h.count s.next
    rw [hall _ (by have := h.next_le; omega)] at hc
    simp at hc
  simp only [remaining, hnext, Nat.sub_self, List.eq_nil_iff_forall_not_mem.mpr fun i => (hnone i).1,
    List.eq_nil_iff_forall_not_mem.mpr fun i => (hnone i).2, List.length_nil]

/-- Until the collector returns some step is enabled. -/
theorem Inv.progress {s : BatchState α} (h : s.Inv w d) (hret : s.returned = false) :
    ∃ e, e ≠ .abort ∧ (s.step w d e).remaining + 1 = s.remaining := by
  by_cases hnext : s.next < s.n
  · exact ⟨.dispatch, nofun, remaining_dispatch hret hnext⟩
  by_cases hw : s.working = []
  · cases hdone : s.done with
    | cons i rest => exact ⟨.receive, nofun, remaining_receive hret hdone⟩
    | nil =>
      have hr : s.remaining = 0 := by
        simp only [remaining, hw, hdone, List.length_nil]
        omega
      rw [h.returned_of_remaining hr] at hret
      cases hret
  · obtain ⟨i, hi⟩ := List.exists_mem_of_ne_nil _ hw
    exact ⟨.finish i, nofun, remaining_finish hi⟩

end BatchState

/-- Over every run without `abort`, the collector has sent the workers' results of the first
indices, in header order and each once; it returns exactly when it has sent all `n` of them, which
is when every index has been handed out, finished and received; and until then some step is
enabled, while every step that is enabled takes one off what is left. -/
theorem verifyHeaders_in_order {α : Type} (d : α) (w : ℕ → α) (n : ℕ) (es : List BatchEvent)
    (hes : BatchEvent.abort ∉ es) :
    let s := (BatchState.VerifyHeaders d n).run w d es
    s.sent = (List.range s.sent.length).map w ∧ s.sent.length ≤ n ∧
      (s.returned = true ↔ s.sent.length = n) ∧ (s.returned = true ↔ s.remaining = 0) ∧
      (∀ e, e ≠ .abort → s.step w d e = s ∨ (s.step w d e).remaining + 1 = s.remaining) ∧
      (s.returned = false → ∃ e, e ≠ .abort ∧ (s.step w d e).remaining + 1 = s.remaining) := by
  intro s
  have h : s.Inv w d := (BatchState.inv_VerifyHeaders n).run es hes
  have hn : s.n = n := BatchState.n_run _ es
  refine ⟨h.sent, ?_, ⟨fun hr => hn ▸ (h.finished hr).1, fun hlen => ?_⟩,
    ⟨h.remaining_of_returned, h.returned_of_remaining⟩, BatchState.step_remaining s, h.progress⟩
  · cases hr : s.returned
    · obtain ⟨hlen, hout, -⟩ := h.cursor hr
      omega
    · exact hn ▸ (h.finished hr).1.le
  · by_contra hr
    obtain ⟨hlen', hout, -⟩ := h.cursor (Bool.eq_false_iff.mpr hr)
    omega

theorem verifyHeaders_in_order_sample :
    BatchEvent.abort ∉ [.dispatch, .dispatch, .finish 1, .receive, .finish 0, .receive] ∧
      let s := (BatchState.VerifyHeaders 0 2).run id 0
        [.dispatch, .dispatch, .finish 1, .receive, .finish 0, .receive]
      s.sent = (List.range s.sent.length).map id ∧ s.sent.length ≤ 2 ∧
        (s.returned = true ↔ s.sent.length = 2) ∧ (s.returned = true ↔ s.remaining = 0) ∧
        (∀ e, e ≠ .abort → s.step id 0 e = s ∨ (s.step id 0 e).remaining + 1 = s.remaining) ∧
        (s.returned = false → ∃ e, e ≠ .abort ∧ (s.step id 0 e).remaining + 1 = s.remaining) :=
  ⟨by decide, verifyHeaders_in_order 0 id 2 _ (by decide)⟩

/-- The second header finishes first; its result waits for the first one's. -/
example : ((BatchState.VerifyHeaders 0 2).run id 0
    [.dispatch, .dispatch, .finish 1, .receive, .finish 0, .receive]).sent = [0, 1] := by decide

end GoXdn.Consensus
