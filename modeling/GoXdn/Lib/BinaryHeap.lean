import Mathlib

/-!
# Binary heaps as Go's `container/heap` keeps them

A heap is a list whose every element is at or after its parent, the element at `(j - 1) / 2`.
`up` and `down` are the two loops of the package (Go 1.9), and `init`, `push`, `pop` and `remove`
its functions over a slice whose `Less` is `<`, `Push` appends and `Pop` takes off the last
element. Each loop keeps a structure of what is in order while it runs: `UpInv` for `up`, with
every pair in order but the moving element and its parent, and `DownInv` for `down`, with every
pair from `lo` on in order but the moving element and its children. The operations keep the heap
and the elements (`isHeap_init`, `isHeap_push`, `pop_spec`, `remove_spec`), and `pop` returns the
least element.
-/

namespace BinaryHeap

section Swap

variable {α : Type*} [Inhabited α]

def parent (j : ℕ) : ℕ := (j - 1) / 2

def swap (h : List α) (i j : ℕ) : List α := (h.set i (h.getD j default)).set j (h.getD i default)

theorem parent_lt {j : ℕ} (hj : 0 < j) : parent j < j := by
  unfold parent; omega

theorem parent_eq_iff {c i : ℕ} (hc : 0 < c) : parent c = i ↔ c = 2 * i + 1 ∨ c = 2 * i + 2 := by
  unfold parent; omega

@[simp] theorem length_swap (h : List α) (i j : ℕ) : (swap h i j).length = h.length := by
  simp [swap]

variable {h : List α} {i j : ℕ}

theorem getD_swap (hi : i < h.length) (hj : j < h.length) (k : ℕ) :
    (swap h i j).getD k default =
      if k = j then h.getD i default else if k = i then h.getD j default else h.getD k default := by
  unfold swap
  simp only [List.getD_eq_getElem?_getD, List.getElem?_set, List.length_set]
  by_cases hkj : k = j
  · subst hkj; simp [hj]
  · by_cases hki : k = i
    · subst hki; simp [hi, Ne.symm hkj, hkj]
    · simp [Ne.symm hkj, Ne.symm hki, hkj, hki]

theorem getD_swap_right (hi : i < h.length) (hj : j < h.length) :
    (swap h i j).getD j default = h.getD i default := by
  rw [getD_swap hi hj, if_pos rfl]

theorem getD_swap_left (hi : i < h.length) (hj : j < h.length) :
    (swap h i j).getD i default = h.getD j default := by
  by_cases hij : i = j
  · subst hij
    rw [getD_swap hi hi, if_pos rfl]
  · rw [getD_swap hi hj, if_neg hij, if_pos rfl]

theorem getD_swap_of_ne (hi : i < h.length) (hj : j < h.length) {k : ℕ} (hki : k ≠ i) (hkj : k ≠ j) :
    (swap h i j).getD k default = h.getD k default := by
  rw [getD_swap hi hj, if_neg hkj, if_neg hki]

theorem perm_swap [DecidableEq α] (hi : i < h.length) (hj : j < h.length) : (swap h i j).Perm h := by
  rw [List.perm_iff_count]
  intro b
  unfold swap
  rw [List.count_set (by simpa using hj), List.count_set hi]
  simp only [List.getElem_set, List.getD_eq_getElem?_getD, List.getElem?_eq_getElem hi,
    List.getElem?_eq_getElem hj, Option.getD_some]
  have hci : (h[i] == b) = true → 0 < List.count b h := fun hb =>
    List.count_pos_iff.mpr (by rw [beq_iff_eq] at hb; exact hb ▸ List.getElem_mem hi)
  split_ifs <;> simp_all

end Swap

variable {α : Type*} [LinearOrder α] [Inhabited α]

/-- `up(h, j)`: the element at `j` moves up past every parent it is less than. -/
def up (h : List α) (j : ℕ) : List α :=
  if _hstop : parent j = j ∨ ¬ h.getD j default < h.getD (parent j) default then h
  else up (swap h (parent j) j) (parent j)
termination_by j
decreasing_by
  have hle : parent j ≤ j := by unfold parent; omega
  have hne : parent j ≠ j := fun he => _hstop (.inl he)
  omega

/-- The lesser child of `i` below `n`, the left one on a tie. -/
def minChild (h : List α) (i n : ℕ) : ℕ :=
  if 2 * i + 2 < n ∧ h.getD (2 * i + 2) default < h.getD (2 * i + 1) default then 2 * i + 2
  else 2 * i + 1

/-- `down(h, i, n)`: the element at `i` moves down past every child below `n` less than it. -/
def down (h : List α) (i n : ℕ) : List α :=
  if n ≤ 2 * i + 1 then h
  else if ¬ h.getD (minChild h i n) default < h.getD i default then h
  else down (swap h i (minChild h i n)) (minChild h i n) n
termination_by n - i
decreasing_by
  have : 2 * i + 1 ≤ minChild h i n := by unfold minChild; split_ifs <;> omega
  omega

/-- No child below `n` and with its parent at `lo` or later is less than its parent. -/
def Ordered (h : List α) (lo n : ℕ) : Prop :=
  ∀ c, 0 < c → c < n → lo ≤ parent c → h.getD (parent c) default ≤ h.getD c default

def IsHeap (h : List α) : Prop := Ordered h 0 h.length

variable {h : List α} {i j lo n : ℕ}

omit [LinearOrder α] in
theorem getD_take {k m : ℕ} (hk : k < m) (l : List α) : (l.take m).getD k default = l.getD k default := by
  simp only [List.getD_eq_getElem?_getD, List.getElem?_take, if_pos hk]

/-! ### `up` -/

/-- A heap below `n` but for the pair of `j` and its parent, with the parent of `j` at or
before the children of `j`. -/
structure UpInv (h : List α) (j n : ℕ) : Prop where
  lt : j < n
  le_length : n ≤ h.length
  off : ∀ c, 0 < c → c < n → c ≠ j → h.getD (parent c) default ≤ h.getD c default
  grand : 0 < j → ∀ c, 0 < c → c < n → parent c = j →
    h.getD (parent j) default ≤ h.getD c default

theorem UpInv.swap (hinv : UpInv h j n) (hj0 : 0 < j)
    (hlt : h.getD j default < h.getD (parent j) default) :
    UpInv (BinaryHeap.swap h (parent j) j) (parent j) n := by
  have hpj := parent_lt hj0
  have hjl : j < h.length := lt_of_lt_of_le hinv.lt hinv.le_length
  have hpl : parent j < h.length := by omega
  have hnew : ∀ k, k ≠ parent j → k ≠ j →
      (BinaryHeap.swap h (parent j) j).getD k default = h.getD k default :=
    fun k h1 h2 => getD_swap_of_ne hpl hjl h1 h2
  refine ⟨hpj.trans hinv.lt, by simpa using hinv.le_length, fun c hc hcn hcp => ?_,
    fun hp0 c hc hcn hcpar => ?_⟩
  · by_cases hcj : c = j
    · subst hcj
      rw [getD_swap_left hpl hjl, getD_swap_right hpl hjl]
      exact hlt.le
    rw [hnew c hcp hcj]
    by_cases hpcj : parent c = j
    · rw [hpcj, getD_swap_right hpl hjl]
      exact hinv.grand hj0 c hc hcn hpcj
    by_cases hpcp : parent c = parent j
    · have hsib := hinv.off c hc hcn hcj
      rw [hpcp] at hsib ⊢
      rw [getD_swap_left hpl hjl]
      exact hlt.le.trans hsib
    · rw [hnew _ hpcp hpcj]
      exact hinv.off c hc hcn hcj
  · have hpp := parent_lt hp0
    have hcp : parent j < c := hcpar ▸ parent_lt hc
    have hpar : h.getD (parent (parent j)) default ≤ h.getD (parent j) default :=
      hinv.off (parent j) hp0 (by omega) (by omega)
    rw [hnew (parent (parent j)) (by omega) (by omega)]
    by_cases hcj : c = j
    · subst hcj
      rw [getD_swap_right hpl hjl]
      exact hpar
    · have hsib := hinv.off c hc hcn hcj
      rw [hcpar] at hsib
      rw [hnew c (by omega) hcj]
      exact hpar.trans hsib

theorem UpInv.ordered (hinv : UpInv h j n)
    (hstop : parent j = j ∨ ¬ h.getD j default < h.getD (parent j) default) : Ordered h 0 n := by
  intro c hc hcn _
  by_cases hcj : c = j
  · subst hcj
    rcases hstop with hpj | hnlt
    · exact absurd hpj (parent_lt hc).ne
    · exact not_lt.mp hnlt
  · exact hinv.off c hc hcn hcj

theorem up_spec (h : List α) (j : ℕ) (hinv : UpInv h j n) :
    Ordered (up h j) 0 n ∧ (up h j).Perm h ∧ ∀ k, n ≤ k → (up h j).getD k default = h.getD k default := by
  fun_induction up h j with
  | case1 h j hstop => exact ⟨hinv.ordered hstop, .refl _, fun _ _ => rfl⟩
  | case2 h j hstop ih =>
    obtain ⟨hne, hlt⟩ := not_or.mp hstop
    have hj0 : 0 < j := Nat.pos_of_ne_zero fun h0 => hne (by rw [h0]; rfl)
    have hpj := parent_lt hj0
    have hjl : j < h.length := lt_of_lt_of_le hinv.lt hinv.le_length
    have hpl : parent j < h.length := by omega
    obtain ⟨hord, hperm, hout⟩ := ih (hinv.swap hj0 (not_not.mp hlt))
    refine ⟨hord, hperm.trans (perm_swap hpl hjl), fun k hk => ?_⟩
    have hjn := hinv.lt
    rw [hout k hk, getD_swap_of_ne hpl hjl (by omega) (by omega)]

theorem up_of_ordered (hord : Ordered h 0 n) (hj : j < n) : up h j = h := by
  rw [up, dif_pos]
  by_cases hj0 : j = 0
  · subst hj0
    exact .inl rfl
  · exact .inr (not_lt.mpr (hord j (Nat.pos_of_ne_zero hj0) hj (Nat.zero_le _)))

/-! ### `down` -/

theorem parent_minChild (h : List α) (i n : ℕ) : parent (minChild h i n) = i := by
  unfold minChild parent; split_ifs <;> omega

theorem lt_minChild (h : List α) (i n : ℕ) : i < minChild h i n := by
  unfold minChild; split_ifs <;> omega

theorem minChild_lt (hn : 2 * i + 1 < n) : minChild h i n < n := by
  unfold minChild; split_ifs with h2 <;> omega

/-- No child of `i` below `n` is less than the one `minChild` picks. -/
theorem minChild_le {c : ℕ} (hc : 0 < c) (hcn : c < n) (hcp : parent c = i) :
    h.getD (minChild h i n) default ≤ h.getD c default := by
  rcases (parent_eq_iff hc).mp hcp with rfl | rfl
  · unfold minChild
    split_ifs with h2
    · exact h2.2.le
    · exact le_rfl
  · unfold minChild
    split_ifs with h2
    · exact le_rfl
    · exact not_lt.mp fun hlt => h2 ⟨hcn, hlt⟩

/-- A heap below `n` from the parents at `lo` on, but for the pairs of `i` and its children,
with the parent of `i` at or before the children of `i`. -/
structure DownInv (h : List α) (i lo n : ℕ) : Prop where
  lo_le : lo ≤ i
  le_length : n ≤ h.length
  off : ∀ c, 0 < c → c < n → lo ≤ parent c → parent c ≠ i →
    h.getD (parent c) default ≤ h.getD c default
  grand : lo < i → ∀ c, 0 < c → c < n → parent c = i →
    h.getD (parent i) default ≤ h.getD c default

theorem DownInv.swap (hinv : DownInv h i lo n) (hn : 2 * i + 1 < n)
    (hlt : h.getD (minChild h i n) default < h.getD i default) :
    DownInv (BinaryHeap.swap h i (minChild h i n)) (minChild h i n) lo n := by
  have him := lt_minChild h i n
  have hmn := minChild_lt (h := h) hn
  have hpm := parent_minChild h i n
  have hml : minChild h i n < h.length := lt_of_lt_of_le hmn hinv.le_length
  have hil : i < h.length := him.trans hml
  have hnew : ∀ k, k ≠ i → k ≠ minChild h i n →
      (BinaryHeap.swap h i (minChild h i n)).getD k default = h.getD k default :=
    fun k h1 h2 => getD_swap_of_ne hil hml h1 h2
  refine ⟨hinv.lo_le.trans him.le, by simpa using hinv.le_length, fun c hc hcn hlo hcp => ?_,
    fun hlom c hc hcn hcpar => ?_⟩
  · by_cases hcm : c = minChild h i n
    · subst hcm
      rw [hpm, getD_swap_left hil hml, getD_swap_right hil hml]
      exact hlt.le
    by_cases hci : c = i
    · subst hci
      have hpi := parent_lt hc
      rw [hnew _ hpi.ne (by omega), getD_swap_left hil hml]
      exact hinv.grand (by omega) _ (by omega) hmn hpm
    rw [hnew c hci hcm]
    by_cases hpci : parent c = i
    · rw [hpci, getD_swap_left hil hml]
      exact minChild_le hc hcn hpci
    · rw [hnew _ hpci hcp]
      exact hinv.off c hc hcn hlo hpci
  · have hcm : minChild h i n < c := hcpar ▸ parent_lt hc
    rw [hpm, getD_swap_left hil hml, hnew c (by omega) (by omega)]
    have hoff := hinv.off c hc hcn (by omega) (by omega)
    rwa [hcpar] at hoff

theorem DownInv.ordered (hinv : DownInv h i lo n)
    (hstop : n ≤ 2 * i + 1 ∨ ¬ h.getD (minChild h i n) default < h.getD i default) :
    Ordered h lo n := by
  intro c hc hcn hlo
  by_cases hci : parent c = i
  · rcases hstop with hleaf | hge
    · rcases (parent_eq_iff hc).mp hci with rfl | rfl <;> omega
    · rw [hci]
      exact (not_lt.mp hge).trans (minChild_le hc hcn hci)
  · exact hinv.off c hc hcn hlo hci

theorem down_spec (h : List α) (i : ℕ) (hinv : DownInv h i lo n) :
    Ordered (down h i n) lo n ∧ (down h i n).Perm h ∧
      ∀ k, n ≤ k → (down h i n).getD k default = h.getD k default := by
  fun_induction down h i n with
  | case1 h i hleaf =>
    exact ⟨hinv.ordered (.inl hleaf), .refl _, fun _ _ => rfl⟩
  | case2 h i hn hge =>
    exact ⟨hinv.ordered (.inr hge), .refl _, fun _ _ => rfl⟩
  | case3 h i hn hlt ih =>
    have hmn := minChild_lt (h := h) (by omega : 2 * i + 1 < n)
    have him := lt_minChild h i n
    have hml : minChild h i n < h.length := lt_of_lt_of_le hmn hinv.le_length
    obtain ⟨hord, hperm, hout⟩ := ih (hinv.swap (by omega) (not_not.mp hlt))
    refine ⟨hord, hperm.trans (perm_swap (him.trans hml) hml), fun k hk => ?_⟩
    rw [hout k hk, getD_swap_of_ne (him.trans hml) hml (by omega) (by omega)]

@[simp] theorem length_down (h : List α) (i n : ℕ) : (down h i n).length = h.length := by
  fun_induction down h i n with
  | case1 => rfl
  | case2 => rfl
  | case3 h i _ _ ih => rw [ih, length_swap]

theorem down_of_stop (hstop : n ≤ 2 * i + 1 ∨ ¬ h.getD (minChild h i n) default < h.getD i default) :
    down h i n = h := by
  rw [down]
  split_ifs with hleaf hge
  · rfl
  · exact absurd hstop (by tauto)
  · rfl

/-- The root of a heap below `n` is at or before every element below `n`. -/
theorem head_le (hord : Ordered h 0 n) {k : ℕ} (hk : k < n) : h.getD 0 default ≤ h.getD k default := by
  induction k using Nat.strong_induction_on with
  | _ k ih =>
    rcases Nat.eq_zero_or_pos k with rfl | hk0
    · exact le_rfl
    · have hpk := parent_lt hk0
      exact (ih _ hpk (hpk.trans hk)).trans (hord k hk0 hk (Nat.zero_le _))

theorem Ordered.mono {n' : ℕ} (hord : Ordered h lo n) (hn : n' ≤ n) : Ordered h lo n' :=
  fun c hc hcn hlo => hord c hc (by omega) hlo

/-- Past the parent of `i`, a child of `i` is no less than the parent of `i`. -/
theorem Ordered.parent_le_child (hord : Ordered h lo n) (hi : 0 < i) (hlo : lo ≤ parent i) {c : ℕ}
    (hc : 0 < c) (hcn : c < n) (hcp : parent c = i) : h.getD (parent i) default ≤ h.getD c default := by
  have hic : i < c := hcp ▸ parent_lt hc
  have hpi := parent_lt hi
  have hchild := hord c hc hcn (by omega)
  rw [hcp] at hchild
  exact (hord i hi (by omega) hlo).trans hchild

/-- The root of a heap is its least element. -/
theorem IsHeap.getD_zero_le (hh : IsHeap h) {y : α} (hy : y ∈ h) : h.getD 0 default ≤ y := by
  obtain ⟨k, hk, rfl⟩ := List.getElem_of_mem hy
  rw [← List.getD_eq_getElem _ default hk]
  exact head_le hh hk

theorem Ordered.take (hord : Ordered h lo n) : Ordered (h.take n) lo n := by
  intro c hc hcn hlo
  rw [getD_take hcn, getD_take ((parent_lt hc).trans hcn)]
  exact hord c hc hcn hlo

omit [LinearOrder α] in
theorem take_append_getD {l : List α} (hl : l.length = n + 1) : l.take n ++ [l.getD n default] = l := by
  rw [List.getD_eq_getElem _ _ (by omega)]
  exact List.take_append_getElem (by omega) |>.trans (List.take_of_length_le (by omega))

/-- What `Pop` and `Remove` leave once the element to go is at the end, below which the list is a
heap. -/
theorem isHeap_take {h' : List α} (hl : h'.length = n + 1) (hord : Ordered h' 0 n) (hperm : h'.Perm h) :
    IsHeap (h'.take n) ∧ (h'.take n ++ [h'.getD n default]).Perm h := by
  refine ⟨?_, by rw [take_append_getD hl]; exact hperm⟩
  have hlen : (h'.take n).length = n := by simp [hl]
  rw [IsHeap, hlen]
  exact hord.take

/-! ### The operations -/

/-- The loop of `Init`, `for i := n/2 - 1; i >= 0; i--`, with `k` the indices left. -/
def initFrom (n : ℕ) : ℕ → List α → List α
  | 0, h => h
  | k + 1, h => initFrom n k (down h k n)

/-- `heap.Init(h)`. -/
def init (h : List α) : List α := initFrom h.length (h.length / 2) h

/-- `heap.Push(h, x)`. -/
def push (h : List α) (x : α) : List α := up (h ++ [x]) h.length

/-- `heap.Pop(h)`: the heap left and the element popped; `none` where `Swap(0, -1)` panics. -/
def pop (h : List α) : Option (List α × α) :=
  if h = [] then none
  else
    let n := h.length - 1
    let h' := down (BinaryHeap.swap h 0 n) 0 n
    some (h'.take n, h'.getD n default)

/-- `heap.Remove(h, i)`: `none` where the index is out of range. -/
def remove (h : List α) (i : ℕ) : Option (List α × α) :=
  if h.length ≤ i then none
  else
    let n := h.length - 1
    let h' := if n ≠ i then up (down (BinaryHeap.swap h i n) i n) i else h
    some (h'.take n, h'.getD n default)

theorem initFrom_spec (hn : n ≤ h.length) (hord : Ordered h k n) :
    Ordered (initFrom n k h) 0 n ∧ (initFrom n k h).Perm h := by
  induction k generalizing h with
  | zero => exact ⟨hord, .refl _⟩
  | succ k ih =>
    have hinv : DownInv h k k n :=
      ⟨le_rfl, hn, fun c hc hcn hlo hne => hord c hc hcn (by omega), fun hkk => absurd hkk (lt_irrefl k)⟩
    obtain ⟨hord', hperm, -⟩ := down_spec h k hinv
    obtain ⟨hord'', hperm'⟩ := ih (hperm.length_eq ▸ hn) hord'
    exact ⟨hord'', hperm'.trans hperm⟩

theorem isHeap_init (h : List α) : IsHeap (init h) ∧ (init h).Perm h := by
  have hleaves : Ordered h (h.length / 2) h.length := by
    intro c hc hcn hlo
    unfold parent at hlo
    omega
  obtain ⟨hord, hperm⟩ := initFrom_spec le_rfl hleaves
  refine ⟨?_, hperm⟩
  rw [IsHeap, init, hperm.length_eq]
  exact hord

theorem isHeap_push (hh : IsHeap h) (x : α) : IsHeap (push h x) ∧ (push h x).Perm (h ++ [x]) := by
  have hget : ∀ c, c < h.length → (h ++ [x]).getD c default = h.getD c default :=
    fun c hc => List.getD_append _ _ _ _ hc
  have hinv : UpInv (h ++ [x]) h.length (h.length + 1) := by
    refine ⟨Nat.lt_succ_self _, by simp, fun c hc hcn hne => ?_, fun _ c hc hcn hcp => ?_⟩
    · have hpc := parent_lt hc
      rw [hget c (by omega), hget _ (by omega)]
      exact hh c hc (by omega) (Nat.zero_le _)
    · have := parent_lt hc
      omega
  obtain ⟨hord, hperm, -⟩ := up_spec _ _ hinv
  refine ⟨?_, hperm⟩
  rw [IsHeap, push, hperm.length_eq, List.length_append, List.length_singleton]
  exact hord

theorem length_pop {h' : List α} {x : α} (hp : pop h = some (h', x)) : h'.length + 1 = h.length := by
  unfold pop at hp
  split_ifs at hp with hnil
  obtain ⟨rfl, rfl⟩ := Prod.mk.inj (Option.some.inj hp)
  have hlen : 0 < h.length := List.length_pos_iff.mpr hnil
  simp only [List.length_take, length_down, length_swap]
  omega

theorem pop_ne_none (hh : h ≠ []) : pop h ≠ none := by
  rw [pop, if_neg hh]
  exact Option.some_ne_none _

/-- `Pop` returns the root of the heap, and a heap of the other elements. -/
theorem pop_spec {h' : List α} {x : α} (hh : IsHeap h) (hp : pop h = some (h', x)) :
    IsHeap h' ∧ (h' ++ [x]).Perm h ∧ x = h.getD 0 default := by
  unfold pop at hp
  split_ifs at hp with hnil
  obtain ⟨rfl, rfl⟩ := Prod.mk.inj (Option.some.inj hp)
  have hlen : 0 < h.length := List.length_pos_iff.mpr hnil
  have h0 : 0 < h.length := hlen
  have hn : h.length - 1 < h.length := by omega
  have hinv : DownInv (BinaryHeap.swap h 0 (h.length - 1)) 0 0 (h.length - 1) := by
    refine ⟨le_rfl, by simp, fun c hc hcn _ hne => ?_, fun h00 => absurd h00 (lt_irrefl 0)⟩
    have hpc := parent_lt hc
    rw [getD_swap_of_ne h0 hn hne (by omega), getD_swap_of_ne h0 hn hc.ne' (by omega)]
    exact hh c hc (by omega) (Nat.zero_le _)
  obtain ⟨hord, hperm, hout⟩ := down_spec _ _ hinv
  have hperm' := hperm.trans (perm_swap h0 hn)
  obtain ⟨hheap, hperm''⟩ := isHeap_take (by rw [hperm'.length_eq]; omega) hord hperm'
  refine ⟨hheap, hperm'', ?_⟩
  rw [hout _ le_rfl, getD_swap_right h0 hn]

/-- What `Remove` does with a heap below `n` and its last element moved to `i`: `down` or `up`
restores the heap, and only one of them moves anything. -/
theorem down_up_spec (hh : IsHeap h) (hin : i < n) (hlen : h.length = n + 1) :
    Ordered (up (down (BinaryHeap.swap h i n) i n) i) 0 n ∧
      (up (down (BinaryHeap.swap h i n) i n) i).Perm h ∧
      (up (down (BinaryHeap.swap h i n) i n) i).getD n default = h.getD i default := by
  have hil : i < h.length := by omega
  have hnl : n < h.length := by omega
  set h1 := BinaryHeap.swap h i n with hh1
  have hperm1 : h1.Perm h := perm_swap hil hnl
  have hkeep : ∀ k, k ≠ i → k < n → h1.getD k default = h.getD k default :=
    fun k hki hkn => getD_swap_of_ne hil hnl hki (by omega)
  have h1n : h1.getD n default = h.getD i default := getD_swap_right hil hnl
  have hord : Ordered h 0 n := hh.mono (by omega)
  have hgrand : 0 < i → ∀ c, 0 < c → c < n → parent c = i →
      h1.getD (parent i) default ≤ h1.getD c default := fun hi0 c hc hcn hcp => by
    have hic : i < c := hcp ▸ parent_lt hc
    rw [hkeep _ (parent_lt hi0).ne (by have := parent_lt hi0; omega), hkeep c (by omega) hcn]
    exact hord.parent_le_child hi0 (Nat.zero_le _) hc hcn hcp
  by_cases hup : 0 < i ∧ h1.getD i default < h.getD (parent i) default
  · obtain ⟨hi0, hlt⟩ := hup
    have hpi := parent_lt hi0
    have hhi : h.getD (parent i) default ≤ h.getD i default := hord i hi0 hin (Nat.zero_le _)
    have hdown : down h1 i n = h1 := by
      refine down_of_stop ((em (n ≤ 2 * i + 1)).imp id fun hleaf => not_lt.mpr ?_)
      have hm := minChild_lt (h := h1) (by omega : 2 * i + 1 < n)
      have him := lt_minChild h1 i n
      have hchild := hord _ (by omega) hm (Nat.zero_le _)
      rw [parent_minChild] at hchild
      calc h1.getD i default ≤ h.getD i default := hlt.le.trans hhi
        _ ≤ h.getD (minChild h1 i n) default := hchild
        _ = h1.getD (minChild h1 i n) default := (hkeep _ (by omega) hm).symm
    have hinv : UpInv h1 i n := by
      refine ⟨hin, by simp only [hh1, length_swap]; omega, fun c hc hcn hci => ?_, hgrand⟩
      have hpc := parent_lt hc
      rw [hkeep c hci hcn]
      by_cases hpci : parent c = i
      · have hchild := hord c hc hcn (Nat.zero_le _)
        rw [hpci] at hchild ⊢
        exact hlt.le.trans (hhi.trans hchild)
      · rw [hkeep _ hpci (by omega)]
        exact hord c hc hcn (Nat.zero_le _)
    obtain ⟨hord', hperm, hout⟩ := up_spec h1 i hinv
    rw [hdown]
    exact ⟨hord', hperm.trans hperm1, (hout n le_rfl).trans h1n⟩
  · have hinv : DownInv h1 i 0 n := by
      refine ⟨Nat.zero_le _, by simp only [hh1, length_swap]; omega, fun c hc hcn _ hpci => ?_,
        fun hi0 => hgrand hi0⟩
      have hpc := parent_lt hc
      by_cases hci : c = i
      · subst hci
        rw [hkeep _ hpci (by omega)]
        exact not_lt.mp fun hlt => hup ⟨hc, hlt⟩
      · rw [hkeep c hci hcn, hkeep _ hpci (by omega)]
        exact hord c hc hcn (Nat.zero_le _)
    obtain ⟨hord', hperm, hout⟩ := down_spec h1 i hinv
    rw [up_of_ordered hord' hin]
    exact ⟨hord', hperm.trans hperm1, (hout n le_rfl).trans h1n⟩

theorem remove_ne_none (hi : i < h.length) : remove h i ≠ none := by
  rw [remove, if_neg (by omega)]
  exact Option.some_ne_none _

/-- `Remove` returns the element at `i`, and a heap of the other elements. -/
theorem remove_spec {h' : List α} {x : α} (hh : IsHeap h) (hr : remove h i = some (h', x)) :
    IsHeap h' ∧ (h' ++ [x]).Perm h ∧ x = h.getD i default := by
  unfold remove at hr
  split_ifs at hr with hi
  obtain ⟨rfl, rfl⟩ := Prod.mk.inj (Option.some.inj hr)
  by_cases hlast : h.length - 1 ≠ i
  · rw [if_pos hlast]
    obtain ⟨hord, hperm, hget⟩ := down_up_spec hh (by omega : i < h.length - 1) (by omega)
    obtain ⟨hheap, hperm'⟩ := isHeap_take (by rw [hperm.length_eq]; omega) hord hperm
    exact ⟨hheap, hperm', hget⟩
  · rw [if_neg hlast]
    obtain ⟨hheap, hperm'⟩ := isHeap_take (n := h.length - 1) (by omega) (hh.mono (by omega)) (.refl h)
    exact ⟨hheap, hperm', by rw [not_not.mp hlast]⟩

end BinaryHeap
