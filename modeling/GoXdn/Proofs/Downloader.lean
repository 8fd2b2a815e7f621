import Mathlib
import GoXdn.Xdn.Downloader

/-!
# What the common ancestor search returns

Whatever the peer sends, an ancestor `findAncestor` accepts lies above the floor and at most the
local head, and is vouched for by a header the peer sent and the local chain stores
(`findAncestor_safe`), except one case: on a chain shorter than `MaxForkAncestry` a bisection that
never meets a known header ends at the genesis, which no reply vouched for.

Against an honest peer whose chain is stored locally up to `top` (below `min(ceil, height)`) the
search is exact only up to the sampling: the sample reaches `top` when it starts at or below it,
and then the ancestor is the highest sampled number at or below `top`, up to 15 below it
(`findAncestor_honest`). Only when `top` is below the whole sample does the bisection find `top`
itself (`bisect_honest`).
-/

namespace GoXdn.Downloader

open GoStd

variable {η : Type} (chain : LocalChain η)

lemma uint64Of_of_lt {n : ℕ} (h : n < 2 ^ 64) : uint64Of n = n :=
  Nat.mod_eq_of_lt h

lemma int64Of_of_lt {n : ℕ} (h : n < 2 ^ 63) : int64Of n = n :=
  wrapInt64_of_lt (by omega) (by exact_mod_cast h)

lemma sampleHead_le_ceil (height : ℕ) : sampleHead chain height ≤ chain.ceil :=
  min_le_left _ _

lemma sampleHead_le_height (height : ℕ) : sampleHead chain height ≤ height :=
  min_le_right _ _

lemma sampleFrom_le_head (height : ℕ) : sampleFrom chain height ≤ sampleHead chain height :=
  Nat.sub_le _ _

/-- Every sampled number is at most the local head. -/
lemma sample_le_ceil {height i : ℕ} (hi : i < sampleCount chain height) :
    sampleFrom chain height + 16 * i ≤ chain.ceil := by
  have hcount : i < 1 + (chain.ceil - sampleFrom chain height) / 16 :=
    lt_of_lt_of_le hi (min_le_left _ _)
  have hfrom := (sampleFrom_le_head chain height).trans (sampleHead_le_ceil chain height)
  omega

lemma sampleCount_pos (height : ℕ) : 0 < sampleCount chain height := by
  unfold sampleCount sampleLimit maxHeaderFetch
  omega

lemma sampleCount_le (height : ℕ) : sampleCount chain height ≤ maxHeaderFetch := by
  unfold sampleCount sampleLimit maxHeaderFetch
  omega

/-- The floor is `-1` or the head less `MaxForkAncestry`. -/
lemma floor_eq_or (chain : LocalChain η) :
    chain.floor = -1 ∨ (0 ≤ chain.floor ∧ chain.floor + maxForkAncestry = chain.ceil) := by
  unfold LocalChain.floor
  split_ifs with h
  · right
    omega
  · left
    rfl

/-! ### Unfolding the search -/

section Unfold

variable (respond : HeaderRequest → Option (List (Header η)))

/-- The bisection's interval starts above the floor when the floor is positive. -/
def bisectStart : ℕ := if chain.floor > 0 then chain.floor.toNat else 0

/-- `findAncestor` once the sample is in: the highest known sampled header, or the bisection. -/
lemma findAncestor_of_sample {height : ℕ} {headers : List (Header η)}
    (hr : respond ⟨sampleFrom chain height, sampleCount chain height, 15⟩ = some headers)
    (hne : headers ≠ []) (hord : ordered (sampleFrom chain height) headers = true) :
    findAncestor chain respond height =
      match findKnown chain (sampleFrom chain height) headers headers.length with
      | some (i, number) =>
        if number > height ∧ i = sampleLimit - 1 then .error .stallingPeer
        else if (number : ℤ) ≤ chain.floor then .error .invalidAncestor
        else .ok number
      | none =>
        bisect chain respond (bisectStart chain) (sampleHead chain height) >>= fun start =>
          if (start : ℤ) ≤ chain.floor then .error .invalidAncestor else .ok start := by
  unfold findAncestor
  dsimp only
  rw [hr]
  simp only [if_neg hne, hord, not_true_eq_false, if_false]
  rfl

end Unfold

/-! ### Safety against any peer -/

section Safety

variable (respond : HeaderRequest → Option (List (Header η)))

/-- The peer sent a header the local chain stores, numbered `n` by the peer or by the local
header of its hash. -/
def Vouched (n : ℕ) : Prop :=
  ∃ req headers, respond req = some headers ∧ ∃ h ∈ headers,
    chain.known h.hash (uint64Of h.number) = true ∧
      (uint64Of h.number = n ∨ chain.numberOf h.hash = some n)

/-- A number the bisection moves to is vouched for by the reply that moved it there. -/
theorem bisect_vouched (start end_ : ℕ) :
    ∀ n, bisect chain respond start end_ = .ok n →
      n = start ∨ (start < n ∧ n < end_ ∧ Vouched chain respond n) := by
  fun_induction bisect chain respond start end_ with
  | case1 start end_ hlt check hr => intro n h; cases h
  | case2 start end_ hlt check header hr hk ih =>
    intro n h
    rcases ih n h with rfl | ⟨hlo, hhi, hv⟩
    · left
      rfl
    · right
      exact ⟨hlo, by omega, hv⟩
  | case3 start end_ hlt check header hr hk hnum => intro n h; cases h
  | case4 start end_ hlt check header hr hk m hnum hm => intro n h; cases h
  | case5 start end_ hlt check header hr hk m hnum hm ih =>
    intro n h
    have hcheck : m = check := not_not.mp hm
    have hv : Vouched chain respond m :=
      ⟨_, _, hr, header, List.mem_singleton_self _, not_not.mp hk, .inr hnum⟩
    right
    rcases ih n h with rfl | ⟨hlo, hhi, hvn⟩
    · exact ⟨by omega, by omega, hcheck ▸ hv⟩
    · exact ⟨by omega, hhi, hvn⟩
  | case6 start end_ hlt check val hval hr => intro n h; cases h
  | case7 start end_ hle => intro n h; cases h; left; rfl

/-- A header `findKnown` settles on is in the sample, within `[from, ceil]`, and known. -/
theorem findKnown_eq_some {from_ : ℕ} {headers : List (Header η)} :
    ∀ {k i number : ℕ}, findKnown chain from_ headers k = some (i, number) →
      ∃ h, headers[i]? = some h ∧ ¬ (int64Of h.number < from_ ∨ uint64Of h.number > chain.ceil) ∧
        chain.known h.hash (uint64Of h.number) = true ∧ number = uint64Of h.number
  | 0, _, _, h => by cases h
  | k + 1, i, number, h => by
    unfold findKnown at h
    split at h
    · exact findKnown_eq_some h
    · next hd hk =>
      split_ifs at h with hskip hknown
      · exact findKnown_eq_some h
      · cases h
        exact ⟨hd, hk, hskip, hknown, rfl⟩
      · exact findKnown_eq_some h

/-- What `findAncestor` needs to return at all: a non-empty sample in order. -/
lemma findAncestor_sample {height n : ℕ} (h : findAncestor chain respond height = .ok n) :
    ∃ headers, respond ⟨sampleFrom chain height, sampleCount chain height, 15⟩ = some headers ∧
      headers ≠ [] ∧ ordered (sampleFrom chain height) headers = true := by
  unfold findAncestor at h
  dsimp only at h
  split at h
  · cases h
  · next headers hr =>
    by_cases hne : headers = []
    · rw [if_pos hne] at h
      cases h
    by_cases hord : ordered (sampleFrom chain height) headers = true
    · exact ⟨headers, hr, hne, hord⟩
    · rw [if_neg hne, if_pos hord] at h
      cases h

theorem findAncestor_safe {height n : ℕ} (h : findAncestor chain respond height = .ok n) :
    chain.floor < n ∧ n ≤ chain.ceil ∧ (Vouched chain respond n ∨ (n = 0 ∧ chain.floor = -1)) := by
  obtain ⟨headers, hr, hne, hord⟩ := findAncestor_sample chain respond h
  rw [findAncestor_of_sample chain respond hr hne hord] at h
  split at h
  · next i number hfound =>
    obtain ⟨hd, hget, hskip, hknown, rfl⟩ := findKnown_eq_some chain hfound
    split_ifs at h with hstall hfloor
    cases h
    exact ⟨by omega, by omega, .inl ⟨_, _, hr, hd, List.mem_of_getElem? hget, hknown, .inl rfl⟩⟩
  · cases hb : bisect chain respond (bisectStart chain) (sampleHead chain height) with
    | error e =>
      rw [hb] at h
      cases h
    | ok start =>
      rw [hb] at h
      simp only [bind, Except.bind] at h
      split_ifs at h with hfloor
      cases h
      have hhead := sampleHead_le_ceil chain height
      rcases bisect_vouched chain respond _ _ _ hb with rfl | ⟨hlo, hhi, hv⟩
      · unfold bisectStart at hfloor ⊢
        rcases floor_eq_or chain with hf | ⟨hf0, hf⟩
        · rw [hf] at hfloor ⊢
          exact ⟨by omega, by simp, .inr ⟨by simp, rfl⟩⟩
        · split_ifs at hfloor with hpos <;> omega
      · exact ⟨by omega, by omega, .inl hv⟩

end Safety

/-! ### An honest peer -/

section Honest

variable (C : ℕ → η) (height : ℕ)

/-- The honest peer's reply holds the `i`-th header of the query while the peer has it. -/
lemma getElem?_serveHeaders : ∀ (origin amount skip i : ℕ),
    (serveHeaders C height origin amount skip)[i]? =
      if i < amount ∧ origin + i * (skip + 1) ≤ height then
        some ⟨C (origin + i * (skip + 1)), origin + i * (skip + 1)⟩
      else none
  | _, 0, _, _ => by simp [serveHeaders]
  | origin, amount + 1, skip, i => by
    by_cases ho : origin ≤ height
    · rw [serveHeaders, if_pos ho]
      cases i with
      | zero => simp [ho]
      | succ i =>
        have harith : origin + (skip + 1) + i * (skip + 1) = origin + (i + 1) * (skip + 1) := by ring
        rw [List.getElem?_cons_succ, getElem?_serveHeaders, harith]
        simp only [Nat.add_lt_add_iff_right]
    · have hnone : ¬ (i < amount + 1 ∧ origin + i * (skip + 1) ≤ height) := by
        rintro ⟨-, h⟩
        exact ho (le_trans (Nat.le_add_right _ _) h)
      rw [serveHeaders, if_neg ho, if_neg hnone]
      rfl

lemma honestPeer_check {check : ℕ} (hc : check ≤ height) :
    honestPeer C height ⟨check, 1, 0⟩ = some [⟨C check, check⟩] := by
  simp [honestPeer, serveHeaders, hc, maxHeaderFetch]

/-- The sample an honest peer sends. -/
def honestSample : List (Header η) :=
  serveHeaders C height (sampleFrom chain height) (min (sampleCount chain height) maxHeaderFetch) 15

lemma honestPeer_sample :
    honestPeer C height ⟨sampleFrom chain height, sampleCount chain height, 15⟩ =
      some (honestSample chain C height) := rfl

/-- The honest sample: every 16th header from `from` while the peer has it, at most `count`. -/
lemma honestSample_getElem? (i : ℕ) :
    (honestSample chain C height)[i]? =
      if i < sampleCount chain height ∧ sampleFrom chain height + 16 * i ≤ height then
        some ⟨C (sampleFrom chain height + 16 * i), sampleFrom chain height + 16 * i⟩
      else none := by
  have h16 : i * (15 + 1) = 16 * i := by ring
  rw [honestSample, getElem?_serveHeaders, min_eq_left (sampleCount_le chain height), h16]

lemma honestSample_ne_nil : honestSample chain C height ≠ [] := by
  intro h
  have hfirst := honestSample_getElem? chain C height 0
  have hfrom := (sampleFrom_le_head chain height).trans (sampleHead_le_height chain height)
  rw [h, if_pos ⟨sampleCount_pos chain height, by omega⟩] at hfirst
  simp at hfirst

lemma ordered_honestSample : ordered (sampleFrom chain height) (honestSample chain C height) = true := by
  unfold ordered
  rw [List.all_eq_true]
  intro i _
  rw [honestSample_getElem?]
  split_ifs with hi
  · have hceil := sample_le_ceil chain hi.1
    have hlt := chain.ceil_lt
    dsimp only
    rw [int64Of_of_lt (by omega)]
    exact decide_eq_true (by push_cast; ring)
  · rfl

variable {C height} {a : ℕ}

/-- One more index of the honest sample: its header is the first known one exactly when it is
at or below the last stored number `top`. -/
lemma findKnown_honest_succ (hknown : ∀ m ≤ height, chain.known (C m) m = decide (m ≤ a)) (k : ℕ) :
    findKnown chain (sampleFrom chain height) (honestSample chain C height) (k + 1) =
      if k < sampleCount chain height ∧ sampleFrom chain height + 16 * k ≤ min a (sampleHead chain height) then
        some (k, sampleFrom chain height + 16 * k)
      else findKnown chain (sampleFrom chain height) (honestSample chain C height) k := by
  have hhead : sampleHead chain height = min chain.ceil height := rfl
  rw [findKnown.eq_2, honestSample_getElem?]
  split_ifs with hk htop htop
  · have hceil := sample_le_ceil chain hk.1
    have hlt := chain.ceil_lt
    dsimp only
    rw [int64Of_of_lt (by omega), uint64Of_of_lt (by omega), if_neg (by omega), hknown _ hk.2,
      if_pos (decide_eq_true (by omega))]
  · have hceil := sample_le_ceil chain hk.1
    have hlt := chain.ceil_lt
    dsimp only
    rw [int64Of_of_lt (by omega), uint64Of_of_lt (by omega), if_neg (by omega), hknown _ hk.2,
      if_neg (by simp only [decide_eq_true_eq]; omega)]
  · exact absurd ⟨htop.1, by omega⟩ hk
  · rfl

/-- Against a sample that starts above `top`, no header is known. -/
lemma findKnown_honest_none (hknown : ∀ m ≤ height, chain.known (C m) m = decide (m ≤ a))
    (hfrom : min a (sampleHead chain height) < sampleFrom chain height) :
    ∀ k, findKnown chain (sampleFrom chain height) (honestSample chain C height) k = none
  | 0 => rfl
  | k + 1 => by
    rw [findKnown_honest_succ chain hknown, if_neg (by omega), findKnown_honest_none hknown hfrom k]

/-- The index of the highest sampled number at or below `top` is within the sample's count. -/
lemma sample_index_lt_count {t : ℕ} (hfrom : sampleFrom chain height ≤ t) (ht : t ≤ sampleHead chain height) :
    (t - sampleFrom chain height) / 16 < sampleCount chain height := by
  have hceil := sampleHead_le_ceil chain height
  unfold sampleCount sampleLimit
  unfold sampleFrom maxHeaderFetch at hfrom ⊢
  omega

/-- Against a sample that reaches `top`, every search from above its index settles on it. -/
lemma findKnown_honest_some (hknown : ∀ m ≤ height, chain.known (C m) m = decide (m ≤ a))
    (hfrom : sampleFrom chain height ≤ min a (sampleHead chain height)) :
    ∀ d, findKnown chain (sampleFrom chain height) (honestSample chain C height)
        ((min a (sampleHead chain height) - sampleFrom chain height) / 16 + 1 + d) =
      some ((min a (sampleHead chain height) - sampleFrom chain height) / 16,
        sampleFrom chain height + 16 * ((min a (sampleHead chain height) - sampleFrom chain height) / 16))
  | 0 => by
    have hcount := sample_index_lt_count chain hfrom (min_le_right _ _)
    rw [Nat.add_zero, findKnown_honest_succ chain hknown, if_pos ⟨hcount, by omega⟩]
  | d + 1 => by
    rw [← Nat.add_assoc, findKnown_honest_succ chain hknown, if_neg (by omega),
      findKnown_honest_some hknown hfrom d]

lemma findKnown_honest_length (hknown : ∀ m ≤ height, chain.known (C m) m = decide (m ≤ a))
    (hfrom : sampleFrom chain height ≤ min a (sampleHead chain height)) :
    findKnown chain (sampleFrom chain height) (honestSample chain C height) (honestSample chain C height).length =
      some ((min a (sampleHead chain height) - sampleFrom chain height) / 16,
        sampleFrom chain height + 16 * ((min a (sampleHead chain height) - sampleFrom chain height) / 16)) := by
  have hcount := sample_index_lt_count chain hfrom (min_le_right _ _)
  have hin := honestSample_getElem? chain C height ((min a (sampleHead chain height) - sampleFrom chain height) / 16)
  rw [if_pos ⟨hcount, by have := sampleHead_le_height chain height; omega⟩] at hin
  obtain ⟨hlt, -⟩ := List.getElem?_eq_some_iff.mp hin
  obtain ⟨d, hd⟩ : ∃ d, (honestSample chain C height).length =
      (min a (sampleHead chain height) - sampleFrom chain height) / 16 + 1 + d := ⟨_, (Nat.add_sub_of_le hlt).symm⟩
  rw [hd, findKnown_honest_some chain hknown hfrom d]

/-- Against an honest peer the bisection finds `top`, or stays at `start` above it. -/
theorem bisect_honest (hknown : ∀ m ≤ height, chain.known (C m) m = decide (m ≤ a))
    (hnum : ∀ m ≤ min a height, chain.numberOf (C m) = some m) (start end_ : ℕ) :
    min a (sampleHead chain height) < end_ → end_ ≤ sampleHead chain height →
      bisect chain (honestPeer C height) start end_ = .ok (max start (min a (sampleHead chain height))) := by
  have hhead := sampleHead_le_height chain height
  have hlt := chain.ceil_lt
  have hceil := sampleHead_le_ceil chain height
  fun_induction bisect chain (honestPeer C height) start end_ with
  | case1 start end_ hse check hr =>
    intro _ _
    cases hr
  | case2 start end_ hse check header hr hk ih =>
    have hcheck : check = (start + end_) / 2 := rfl
    intro htop hend
    rw [honestPeer_check C height (by omega)] at hr
    cases hr
    dsimp only at hk
    rw [uint64Of_of_lt (by omega), hknown _ (by omega), decide_eq_true_eq] at hk
    exact ih (by omega) (by omega)
  | case3 start end_ hse check header hr hk hnone =>
    have hcheck : check = (start + end_) / 2 := rfl
    intro htop hend
    rw [honestPeer_check C height (by omega)] at hr
    cases hr
    dsimp only at hk hnone
    rw [uint64Of_of_lt (by omega), hknown _ (by omega), not_not, decide_eq_true_eq] at hk
    rw [hnum _ (by omega)] at hnone
    cases hnone
  | case4 start end_ hse check header hr hk m hm hne =>
    have hcheck : check = (start + end_) / 2 := rfl
    intro htop hend
    rw [honestPeer_check C height (by omega)] at hr
    cases hr
    dsimp only at hk hm
    rw [uint64Of_of_lt (by omega), hknown _ (by omega), not_not, decide_eq_true_eq] at hk
    rw [hnum _ (by omega)] at hm
    cases hm
    exact absurd rfl hne
  | case5 start end_ hse check header hr hk m hm hne ih =>
    have hcheck : check = (start + end_) / 2 := rfl
    intro htop hend
    rw [honestPeer_check C height (by omega)] at hr
    cases hr
    dsimp only at hk hm
    rw [uint64Of_of_lt (by omega), hknown _ (by omega), not_not, decide_eq_true_eq] at hk
    rw [ih htop hend, max_eq_right (by omega), max_eq_right (by omega)]
  | case6 start end_ hse check val hval hr =>
    have hcheck : check = (start + end_) / 2 := rfl
    intro _ _
    rw [honestPeer_check C height (by omega)] at hr
    cases hr
    exact (hval _ rfl).elim
  | case7 start end_ hse =>
    intro htop _
    rw [max_eq_left (by omega)]

/-- What the search returns against an honest peer whose chain is stored locally up to `top`:
the highest sampled number at or below `top` where the sample reaches that low, else `top`,
refused at or below the floor. -/
def honestAncestor (height top : ℕ) : Except AncestorError ℕ :=
  let n := if sampleFrom chain height ≤ top then
      sampleFrom chain height + 16 * ((top - sampleFrom chain height) / 16)
    else top
  if (n : ℤ) ≤ chain.floor then .error .invalidAncestor else .ok n

lemma max_bisectStart_le_floor_iff (t : ℕ) :
    ((max (bisectStart chain) t : ℕ) : ℤ) ≤ chain.floor ↔ (t : ℤ) ≤ chain.floor := by
  unfold bisectStart
  split_ifs with hpos <;> omega

lemma max_bisectStart_of_lt {t : ℕ} (h : chain.floor < t) : max (bisectStart chain) t = t := by
  unfold bisectStart
  split_ifs with hpos <;> omega

theorem findAncestor_honest (hknown : ∀ m ≤ height, chain.known (C m) m = decide (m ≤ a))
    (hnum : ∀ m ≤ min a height, chain.numberOf (C m) = some m) :
    findAncestor chain (honestPeer C height) height = honestAncestor chain height (min a (sampleHead chain height)) := by
  rw [findAncestor_of_sample chain _ (honestPeer_sample chain C height) (honestSample_ne_nil chain C height)
    (ordered_honestSample chain C height)]
  unfold honestAncestor
  have hhead := sampleHead_le_height chain height
  by_cases hfrom : sampleFrom chain height ≤ min a (sampleHead chain height)
  · rw [findKnown_honest_length chain hknown hfrom, if_pos hfrom]
    dsimp only
    rw [if_neg (by omega)]
  · have hfh := sampleFrom_le_head chain height
    rw [findKnown_honest_none chain hknown (by omega), if_neg hfrom]
    dsimp only
    rw [bisect_honest chain hknown hnum _ _ (by omega) le_rfl]
    simp only [bind, Except.bind]
    split_ifs with hmax htop htop
    · rfl
    · exact absurd ((max_bisectStart_le_floor_iff chain _).mp hmax) htop
    · exact absurd ((max_bisectStart_le_floor_iff chain _).mpr htop) hmax
    · rw [max_bisectStart_of_lt chain (by omega)]

end Honest

theorem findAncestor_safe_and_sampled (respond : HeaderRequest → Option (List (Header η))) (height n : ℕ)
    (C : ℕ → η) (a : ℕ) :
    (findAncestor chain respond height = .ok n →
      chain.floor < n ∧ n ≤ chain.ceil ∧ (Vouched chain respond n ∨ (n = 0 ∧ chain.floor = -1))) ∧
    ((∀ m ≤ height, chain.known (C m) m = decide (m ≤ a)) → (∀ m ≤ min a height, chain.numberOf (C m) = some m) →
      findAncestor chain (honestPeer C height) height = honestAncestor chain height (min a (sampleHead chain height))) :=
  ⟨findAncestor_safe chain respond, findAncestor_honest chain⟩

/-- A node that stores the peer's chain up to block 100, its head, while the peer is at 200. -/
def shortChain : LocalChain ℕ :=
  ⟨100, fun h m => decide (h = m ∧ m ≤ 100), fun h => if h ≤ 100 then some h else none, by norm_num⟩

lemma shortChain_known : ∀ m ≤ 200, shortChain.known (id m) m = decide (m ≤ 100) := by
  intro m _
  simp [shortChain]

lemma shortChain_numberOf : ∀ m ≤ min 100 200, shortChain.numberOf (id m) = some m := by
  intro m hm
  simp only [shortChain, id]
  rw [if_pos (by omega)]

theorem findAncestor_safe_and_sampled_short :
    (∀ m ≤ 200, shortChain.known (id m) m = decide (m ≤ 100)) ∧
      (∀ m ≤ min 100 200, shortChain.numberOf (id m) = some m) ∧
      findAncestor shortChain (honestPeer id 200) 200 =
        honestAncestor shortChain 200 (min 100 (sampleHead shortChain 200)) :=
  ⟨shortChain_known, shortChain_numberOf,
    (findAncestor_safe_and_sampled shortChain (honestPeer id 200) 200 96 id 100).2 shortChain_known
      shortChain_numberOf⟩

/-- Block 100 is stored and at most both heads, yet the search returns the sampled 96. -/
theorem findAncestor_misses_stored_head :
    shortChain.known (id 100) 100 = true ∧ 100 ≤ min shortChain.ceil 200 ∧
      findAncestor shortChain (honestPeer id 200) 200 = .ok 96 := by
  refine ⟨by decide, by decide, ?_⟩
  rw [findAncestor_honest shortChain shortChain_known shortChain_numberOf]
  simp [honestAncestor, sampleFrom, sampleHead, shortChain, LocalChain.floor, maxForkAncestry, maxHeaderFetch]

end GoXdn.Downloader
