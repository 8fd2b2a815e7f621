import Mathlib

/-!
# `sort.Search`, and keeping the least elements of a stream

`search n f` is the halving loop of Go's `sort.Search`: for an `f` that is false and then true on
`[0, n)` it returns the first index where `f` holds, or `n` (`search_spec`). Over a list sorted by
a key, the search for the first element whose key is above `key x` ends where `takeWhile` of the
elements not above it ends (`search_eq_length_takeWhile`), so inserting `x` there is `insertAfter`,
which keeps the list sorted.

`KeepsLeast k kept pushed` is what a bounded sorted list should hold after a stream of inserts:
`kept` is sorted, drawn from `pushed`, as long as `min k pushed.length`, and nothing of `pushed`
left out has a key below anything kept. Inserting and cutting back to `k` keeps it
(`KeepsLeast.insert`).
-/

namespace SortSearch

section Search

variable (f : ℕ → Bool)

/-- The halving loop of `sort.Search` over `[i, j)`. -/
def searchLoop (i j : ℕ) : ℕ :=
  if i < j then
    -- `h := int(uint(i+j) >> 1)`
    if !f ((i + j) / 2) then searchLoop ((i + j) / 2 + 1) j else searchLoop i ((i + j) / 2)
  else i
termination_by j - i

/-- `sort.Search(n, f)`. -/
def search (n : ℕ) : ℕ := searchLoop f 0 n

variable {f} {n : ℕ}

/-- The loop keeps `f` false below `i` and true at `j` when `j < n`; it stops with `i = j`. -/
theorem searchLoop_spec (hf : ∀ a b, a ≤ b → b < n → f a = true → f b = true) (i j : ℕ)
    (hjn : j ≤ n) (hij : i ≤ j) (hlo : ∀ m < i, f m = false) (hhi : j < n → f j = true) :
    searchLoop f i j ≤ n ∧ (∀ m < searchLoop f i j, f m = false) ∧
      (searchLoop f i j < n → f (searchLoop f i j) = true) := by
  fun_induction searchLoop f i j with
  | case1 i j hlt hmid ih =>
    refine ih hjn (by omega) (fun m hm => ?_) hhi
    rcases Nat.lt_or_ge m i with hmi | hmi
    · exact hlo m hmi
    · cases hfm : f m
      · rfl
      · have := hf m ((i + j) / 2) (by omega) (by omega) hfm
        simp_all
  | case2 i j hlt hmid ih =>
    simp only [Bool.not_eq_true', Bool.not_eq_false] at hmid
    exact ih (by omega) (by omega) hlo (fun _ => hmid)
  | case3 i j hge =>
    have hji : i = j := by omega
    subst hji
    exact ⟨hjn, hlo, hhi⟩

/-- `sort.Search` over an `f` false and then true on `[0, n)` returns the first index where `f`
holds, or `n`. -/
theorem search_spec (hf : ∀ a b, a ≤ b → b < n → f a = true → f b = true) :
    search f n ≤ n ∧ (∀ m < search f n, f m = false) ∧ (search f n < n → f (search f n) = true) :=
  searchLoop_spec hf 0 n le_rfl (Nat.zero_le n) (fun m hm => absurd hm (Nat.not_lt_zero m))
    (fun h => absurd h (lt_irrefl n))

end Search

section Sorted

variable {α β : Type*} [LinearOrder β] (key : α → β)

/-- `x` put after every element of `l` whose key is not above its own. -/
def insertAfter (x : α) (l : List α) : List α :=
  l.takeWhile (fun a => key a ≤ key x) ++ x :: l.dropWhile (fun a => key a ≤ key x)

variable {key} {x : α} {l : List α}

theorem perm_insertAfter : (insertAfter key x l).Perm (x :: l) := by
  unfold insertAfter
  refine List.perm_middle.trans (List.Perm.cons x ?_)
  rw [List.takeWhile_append_dropWhile]

/-- Past the elements `takeWhile` keeps, every key is above `key x`. -/
theorem lt_of_mem_dropWhile (hl : l.Pairwise (key · ≤ key ·)) :
    ∀ a ∈ l.dropWhile (fun a => key a ≤ key x), key x < key a := by
  intro a ha
  have hsplit : (l.takeWhile (fun a => key a ≤ key x) ++ l.dropWhile (fun a => key a ≤ key x)).Pairwise
      (key · ≤ key ·) := by
    rwa [List.takeWhile_append_dropWhile]
  obtain ⟨-, hdrop, -⟩ := List.pairwise_append.mp hsplit
  have hne : l.dropWhile (fun a => key a ≤ key x) ≠ [] := List.ne_nil_of_mem ha
  have hhead := List.head_dropWhile_not (fun a => decide (key a ≤ key x)) hne
  have hle : key ((l.dropWhile fun a => key a ≤ key x).head hne) ≤ key a := by
    rcases List.eq_cons_of_mem_head? (List.head?_eq_some_head hne) with hcons
    rw [hcons] at ha hdrop
    rcases List.mem_cons.mp ha with rfl | ha
    · exact le_rfl
    · exact List.rel_of_pairwise_cons hdrop ha
  simp only [decide_eq_false_iff_not, not_le] at hhead
  exact lt_of_lt_of_le hhead hle

theorem sorted_insertAfter (hl : l.Pairwise (key · ≤ key ·)) :
    (insertAfter key x l).Pairwise (key · ≤ key ·) := by
  have hsplit : (l.takeWhile (fun a => key a ≤ key x) ++ l.dropWhile (fun a => key a ≤ key x)).Pairwise
      (key · ≤ key ·) := by
    rwa [List.takeWhile_append_dropWhile]
  obtain ⟨htake, hdrop, hcross⟩ := List.pairwise_append.mp hsplit
  have hgt := lt_of_mem_dropWhile (x := x) hl
  refine List.pairwise_append.mpr ⟨htake, List.pairwise_cons.mpr ⟨fun a ha => (hgt a ha).le, hdrop⟩, ?_⟩
  intro a ha b hb
  rcases List.mem_cons.mp hb with rfl | hb
  · simpa using List.mem_takeWhile_imp ha
  · exact hcross a ha b hb

/-- Over a sorted list, the search for the first element whose key is above `key x` ends where
`takeWhile` of the elements not above it ends. -/
theorem search_eq_length_takeWhile (hl : l.Pairwise (key · ≤ key ·)) (d : α) :
    search (fun i => decide (key x < key (l.getD i d))) l.length =
      (l.takeWhile fun a => key a ≤ key x).length := by
  set f : ℕ → Bool := fun i => decide (key x < key (l.getD i d)) with hf
  set k := (l.takeWhile fun a => key a ≤ key x).length with hk
  have hmono : ∀ a b, a ≤ b → b < l.length → f a = true → f b = true := by
    intro a b hab hb hfa
    simp only [hf, decide_eq_true_eq, List.getD_eq_getElem _ _ (lt_of_le_of_lt hab hb),
      List.getD_eq_getElem _ _ hb] at hfa ⊢
    rcases Nat.lt_or_eq_of_le hab with hab | rfl
    · exact lt_of_lt_of_le hfa (List.pairwise_iff_getElem.mp hl a b _ hb hab)
    · exact hfa
  have hsplit := (List.takeWhile_append_dropWhile (p := fun a => decide (key a ≤ key x)) (l := l)).symm
  have hbelow : ∀ m < k, f m = false := by
    intro m hm
    have hmem : (l.takeWhile fun a => key a ≤ key x).getD m d ∈ l.takeWhile fun a => key a ≤ key x := by
      rw [List.getD_eq_getElem _ _ hm]
      exact List.getElem_mem hm
    simp only [hf, decide_eq_false_iff_not, not_lt]
    rw [hsplit, List.getD_append _ _ _ _ hm]
    simpa using List.mem_takeWhile_imp hmem
  have hat : k < l.length → f k = true := by
    intro hkl
    have hlen := congrArg List.length hsplit
    rw [List.length_append] at hlen
    have hne : l.dropWhile (fun a => key a ≤ key x) ≠ [] := by
      intro hnil
      rw [hnil, List.length_nil] at hlen
      omega
    obtain ⟨a, rest, hcons⟩ := List.exists_cons_of_ne_nil hne
    have hgt := lt_of_mem_dropWhile (x := x) hl a (by rw [hcons]; exact List.mem_cons_self)
    simp only [hf, decide_eq_true_eq]
    rw [hsplit, List.getD_append_right _ _ _ _ le_rfl, Nat.sub_self, hcons, List.getD_cons_zero]
    exact hgt
  obtain ⟨hle, hlo, hhi⟩ := search_spec hmono
  have hkl : k ≤ l.length := (List.takeWhile_sublist _).length_le
  rcases lt_trichotomy (search f l.length) k with hlt | heq | hgt
  · have := hhi (by omega)
    rw [hbelow _ hlt] at this
    exact absurd this (by decide)
  · exact heq
  · have := hlo k hgt
    rw [hat (by omega)] at this
    exact absurd this (by decide)

end Sorted

section Least

variable {α β : Type*} [DecidableEq α] [LinearOrder β] (key : α → β) (k : ℕ)

/-- `kept` holds the `min k pushed.length` elements of `pushed` of least key, sorted by key. -/
structure KeepsLeast (kept pushed : List α) : Prop where
  sorted : kept.Pairwise (key · ≤ key ·)
  subperm : kept.Subperm pushed
  length_eq : kept.length = min k pushed.length
  least : ∀ y ∈ (pushed : Multiset α) - kept, ∀ e ∈ kept, key e ≤ key y

variable {key k}

theorem KeepsLeast.nil : KeepsLeast key k [] [] :=
  ⟨List.Pairwise.nil, List.nil_subperm, by simp, by simp⟩

/-- Inserting after the elements not above it and cutting back to `k` keeps the least. -/
theorem KeepsLeast.insert {kept pushed : List α} (h : KeepsLeast key k kept pushed) (x : α) :
    KeepsLeast key k ((insertAfter key x kept).take k) (x :: pushed) := by
  set I := insertAfter key x kept with hI
  have hIperm : I.Perm (x :: kept) := perm_insertAfter
  have hIsorted : I.Pairwise (key · ≤ key ·) := sorted_insertAfter h.sorted
  have hle : (kept : Multiset α) ≤ pushed := Multiset.coe_le.mpr h.subperm
  refine ⟨hIsorted.sublist (List.take_sublist _ _),
    ((List.take_sublist k I).subperm.trans hIperm.subperm).trans ((List.subperm_cons x).mpr h.subperm),
    ?_, ?_⟩
  · have hklen : kept.length ≤ pushed.length := h.subperm.length_le
    rw [List.length_take, hIperm.length_eq, List.length_cons, List.length_cons]
    have := h.length_eq
    omega
  · intro y hy e he
    have hsplit : ((x :: pushed : List α) : Multiset α) - ↑(I.take k) =
        ↑(I.drop k) + ((pushed : Multiset α) - kept) := by
      have hall : ((x :: pushed : List α) : Multiset α) =
          ↑(I.take k) + (↑(I.drop k) + ((pushed : Multiset α) - kept)) := by
        rw [← add_assoc, Multiset.coe_add, List.take_append_drop, Multiset.coe_eq_coe.mpr hIperm,
          ← Multiset.cons_coe, ← Multiset.cons_coe, Multiset.cons_add, add_tsub_cancel_of_le hle]
      rw [hall, add_tsub_cancel_left]
    rw [hsplit, Multiset.mem_add] at hy
    rcases hy with hy | hy
    · have hsorted : (I.take k ++ I.drop k).Pairwise (key · ≤ key ·) := by
        rwa [List.take_append_drop]
      exact (List.pairwise_append.mp hsorted).2.2 e he y (Multiset.mem_coe.mp hy)
    · have hfull : kept.length = k := by
        have hcard := Multiset.card_sub hle
        have hpos : 0 < ((pushed : Multiset α) - kept).card := Multiset.card_pos_iff_exists_mem.mpr ⟨y, hy⟩
        simp only [Multiset.coe_card] at hcard
        have := h.length_eq
        omega
      have hemem : e ∈ x :: kept := hIperm.subset (List.mem_of_mem_take he)
      rcases List.mem_cons.mp hemem with rfl | hek
      · by_contra hlt
        rw [not_le] at hlt
        have hall : ∀ a ∈ kept, decide (key a ≤ key e) = true := fun a ha =>
          decide_eq_true ((h.least y hy a ha).trans hlt.le)
        have htake : I.take k = kept := by
          rw [hI, insertAfter, List.takeWhile_eq_self_iff.mpr hall, ← hfull, List.take_left]
        rw [htake] at he
        exact absurd (h.least y hy e he) (not_le.mpr hlt)
      · exact h.least y hy e hek

/-- No more than `k` pushed: all of them are kept. -/
theorem KeepsLeast.perm {kept pushed : List α} (h : KeepsLeast key k kept pushed)
    (hk : pushed.length ≤ k) : kept.Perm pushed :=
  h.subperm.perm_of_length_le (by rw [h.length_eq]; omega)

end Least

end SortSearch
