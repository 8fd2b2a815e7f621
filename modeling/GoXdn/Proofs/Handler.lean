import Mathlib
import GoXdn.Xdn.Handler

/-!
# What a header query is answered with

Every answer has at most `min(amount, MaxHeaderFetch)` headers (`handleGetBlockHeaders_length_le`):
the loop appends only below `int(query.Amount)`, which is never above the amount, and below
`MaxHeaderFetch`.

The spacing of the answer is another matter. `skip + 1` is computed in 64 bits, and for
`skip = 2^64 - 1` it is `0`: the guarded subtraction of a number-based query towards the genesis
subtracts nothing, the unguarded addition of one towards the head adds nothing, and
`int(query.Skip)+1` of a hash-based query towards the genesis is `0`, so no parent step is taken.
In each of these three modes the origin stays where it is (`advance_skip_max`) and the reply is
the origin's header repeated `min(amount, MaxHeaderFetch)` times
(`handleGetBlockHeaders_repeats_origin`). Only the hash-based query towards the head checks
`next <= current` and stops.
-/

namespace GoXdn.Xdn

open GoStd

namespace HeaderStore

-- `wrapInt64` of a symbolic value must not be unfolded by unification: its `% 2^64` and
-- `- 2^63` would be taken apart one unit at a time
attribute [local irreducible] wrapInt64

variable {η : Type} [DecidableEq η] (s : HeaderStore η) (zero : η)

lemma advance_amount {q q' : GetBlockHeadersData η} {origin : Header η} {unknown : Bool}
    (h : s.advance zero q origin = some (q', unknown)) : q'.amount = q.amount := by
  unfold advance at h
  dsimp only at h
  split_ifs at h with hrev hhash hnext hnum
  · cases h
    rfl
  · cases h
    rfl
  · split at h
    · split at h
      · split_ifs at h <;> (cases h; rfl)
      · cases h
    · cases h
      rfl
  · cases h
    rfl
  · cases h
    rfl
  · cases h
    rfl

/-- The loop appends only while fewer than `int(query.Amount)` and `MaxHeaderFetch` headers are
collected. -/
theorem headersLoop_length_le (hashMode : Bool) : ∀ (fuel : ℕ) (q : GetBlockHeadersData η)
    (headers : List (Header η)) (bytes : ℕ) {l : List (Header η)},
    headers.length ≤ min q.amount.toNat maxHeaderFetch →
    s.headersLoop zero hashMode fuel q headers bytes = some l → l.length ≤ min q.amount.toNat maxHeaderFetch
  | 0, _, _, _, _, hlen, hl => by
    cases hl
    exact hlen
  | fuel + 1, q, headers, bytes, l, hlen, hl => by
    rw [headersLoop] at hl
    by_cases hcond : (headers.length : ℤ) < wrapInt64 q.amount.toNat ∧ bytes < softResponseLimit ∧
      headers.length < maxHeaderFetch
    · rw [if_pos hcond] at hl
      obtain ⟨hamt, -, hmax⟩ := hcond
      have hamt' : headers.length < q.amount.toNat := by
        have := wrapInt64_le q.amount
        omega
      rcases hsrc : (if hashMode then s.getHeaderByHash q.origin.hash
          else s.getHeaderByNumber q.origin.number) with _ | origin
      · rw [hsrc] at hl
        cases hl
        exact hlen
      · rw [hsrc] at hl
        dsimp only at hl
        have hnext : (headers ++ [origin]).length ≤ min q.amount.toNat maxHeaderFetch := by
          rw [List.length_append, List.length_singleton]
          omega
        rcases hadv : s.advance zero q origin with _ | ⟨q', unknown⟩
        · rw [hadv] at hl
          cases hl
        · rw [hadv] at hl
          dsimp only at hl
          split_ifs at hl
          · cases hl
            exact hnext
          · rw [← advance_amount s zero hadv] at hnext ⊢
            exact headersLoop_length_le hashMode fuel q' _ _ hnext hl
    · rw [if_neg hcond] at hl
      cases hl
      exact hlen

/-- Every answer to a header query has at most `min(amount, MaxHeaderFetch)` headers. -/
theorem handleGetBlockHeaders_length_le (q : GetBlockHeadersData η) {l : List (Header η)}
    (hl : s.handleGetBlockHeaders zero q = some l) : l.length ≤ min q.amount.toNat maxHeaderFetch :=
  headersLoop_length_le s zero _ maxHeaderFetch q [] 0 (Nat.zero_le _) hl

/-- For `skip = 2^64 - 1`, `skip + 1` is `0` in 64 bits and so is `int(skip)+1`: in every mode but
the hash-based one towards the head, the origin stays where it is. -/
theorem advance_skip_max (q : GetBlockHeadersData η) (origin : Header η)
    (hskip : q.skip = 18446744073709551615) (hmode : q.origin.hash ≠ zero → q.reverse = true) :
    s.advance zero q origin = some (q, false) := by
  have hone : q.skip + 1 = 0 := by
    rw [hskip]
    decide
  have hsteps : (wrapInt64 (wrapInt64 q.skip.toNat + 1)).toNat = 0 := by
    have hnat : (18446744073709551615 : UInt64).toNat = 18446744073709551615 := rfl
    rw [hskip, hnat]
    norm_num [wrapInt64]
  unfold advance
  dsimp only
  by_cases hh : q.origin.hash = zero
  · rw [if_neg (fun h => h.1 hh), if_neg (not_not.mpr hh), hone, UInt64.sub_zero, UInt64.add_zero]
    split_ifs with hrev hge
    · rfl
    · exact absurd UInt64.zero_le hge
    · rfl
  · rw [if_pos ⟨hh, hmode hh⟩, hsteps]
    rfl

/-- A query whose origin stays where it is is answered with its header over and over, up to
`min(int(amount), MaxHeaderFetch)` of them. -/
theorem headersLoop_fixed {hashMode : Bool} {q : GetBlockHeadersData η} {h : Header η}
    (horigin : (if hashMode then s.getHeaderByHash q.origin.hash else s.getHeaderByNumber q.origin.number) =
      some h)
    (hfix : s.advance zero q h = some (q, false)) :
    ∀ fuel k, k + fuel = maxHeaderFetch →
      s.headersLoop zero hashMode fuel q (List.replicate k h) (k * estHeaderRlpSize) =
        some (List.replicate (max k (min (wrapInt64 q.amount.toNat).toNat maxHeaderFetch)) h)
  | 0, k, hk => by
    rw [headersLoop, max_eq_left (by simp only [Nat.add_zero] at hk; omega)]
  | fuel + 1, k, hk => by
    have hbytes : k * estHeaderRlpSize < softResponseLimit := by
      simp only [estHeaderRlpSize, softResponseLimit, maxHeaderFetch] at hk ⊢
      omega
    rw [headersLoop, List.length_replicate]
    by_cases hcond : (k : ℤ) < wrapInt64 q.amount.toNat ∧ k < maxHeaderFetch
    · rw [if_pos ⟨hcond.1, hbytes, hcond.2⟩]
      simp only [horigin, hfix, Bool.false_eq_true, if_false]
      rw [← List.replicate_succ', show k * estHeaderRlpSize + estHeaderRlpSize = (k + 1) * estHeaderRlpSize by ring,
        headersLoop_fixed horigin hfix fuel (k + 1) (by omega)]
      congr 2
      omega
    · rw [if_neg fun h => hcond ⟨h.1, h.2.2⟩]
      congr 2
      omega

/-- With `skip = 2^64 - 1`, a query by number, or by hash towards the genesis, is answered with
its origin's header repeated `min(int(amount), MaxHeaderFetch)` times, where the next header is
`2^64` blocks away and none can follow. -/
theorem handleGetBlockHeaders_repeats_origin (q : GetBlockHeadersData η) (h : Header η)
    (hskip : q.skip = 18446744073709551615) (hmode : q.origin.hash ≠ zero → q.reverse = true)
    (horigin : (if q.origin.hash ≠ zero then s.getHeaderByHash q.origin.hash
      else s.getHeaderByNumber q.origin.number) = some h) :
    s.handleGetBlockHeaders zero q =
      some (List.replicate (min (wrapInt64 q.amount.toNat).toNat maxHeaderFetch) h) := by
  have horigin' : (if decide (q.origin.hash ≠ zero) then s.getHeaderByHash q.origin.hash
      else s.getHeaderByNumber q.origin.number) = some h := by
    simpa using horigin
  have hloop := headersLoop_fixed s zero horigin' (advance_skip_max s zero q h hskip hmode) maxHeaderFetch 0
    (Nat.zero_add _)
  rw [List.replicate_zero, Nat.zero_mul, Nat.zero_max] at hloop
  exact hloop

/-- A chain of the genesis alone, of hash `1`, with `0` the zero hash, and a query from number `0`
towards the head for three headers with `skip = 2^64 - 1`. -/
def genesisStore : HeaderStore ℕ :=
  ⟨fun h => if h = 1 then some ⟨1, 0, 0⟩ else none, fun n => if n = 0 then some 1 else none⟩

def skipMaxQuery : GetBlockHeadersData ℕ := ⟨⟨0, 0⟩, 3, 18446744073709551615, false⟩

theorem handleGetBlockHeaders_repeats_genesis :
    skipMaxQuery.skip = 18446744073709551615 ∧ (skipMaxQuery.origin.hash ≠ 0 → skipMaxQuery.reverse = true) ∧
      (if skipMaxQuery.origin.hash ≠ 0 then genesisStore.getHeaderByHash skipMaxQuery.origin.hash
        else genesisStore.getHeaderByNumber skipMaxQuery.origin.number) = some ⟨1, 0, 0⟩ ∧
      genesisStore.handleGetBlockHeaders 0 skipMaxQuery = some (List.replicate 3 ⟨1, 0, 0⟩) :=
  have hmode : skipMaxQuery.origin.hash ≠ 0 → skipMaxQuery.reverse = true := fun h => absurd rfl h
  have horigin : (if skipMaxQuery.origin.hash ≠ 0 then genesisStore.getHeaderByHash skipMaxQuery.origin.hash
      else genesisStore.getHeaderByNumber skipMaxQuery.origin.number) = some ⟨1, 0, 0⟩ := by decide
  ⟨rfl, hmode, horigin, (handleGetBlockHeaders_repeats_origin genesisStore 0 skipMaxQuery ⟨1, 0, 0⟩ rfl hmode
    horigin).trans (by norm_num [skipMaxQuery, wrapInt64, maxHeaderFetch, show (3 : UInt64).toNat = 3 from rfl,
      show (3 : ℤ).toNat = 3 from rfl])⟩

end HeaderStore

end GoXdn.Xdn
