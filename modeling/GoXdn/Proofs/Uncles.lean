import Mathlib
import GoXdn.Consensus.Uncles
import GoXdn.Proofs.Dnpoc
import GoXdn.Proofs.Balances

/-!
# Uncle rewards

`PocRewards` credits every coinbase and debits none while each uncle's reward is positive, and
the reward `(uncle.Number + 8 - header.Number) * blockReward / 8` of an uncle `VerifyUncles`
accepts is between two and seven eighths of `blockReward`: the walk of `VerifyUncles` records the
ancestors one to seven blocks up, the uncle's parent is one of them other than the block's parent,
and `verifyHeader` puts the uncle one block below its parent (`pocRewards_of_verifyUncles`).

That needs a chain reader that answers with the block of the number it is asked for, an uncle
whose parent is not the block itself, and a block number below `2^64`: the walk starts from
`NumberU64()`, the low 64 bits, so a block numbered `2^64 + 2` has the uncle of a block numbered
two and debits its coinbase (`pocRewards_debits_wrapped_number`).
-/

namespace GoXdn.Consensus

open GoStd State StateDb

/-! ### The credits of `PocRewards` -/

section Rewards

variable (K : Hash256) (header : Header)

theorem foldl_rewardUncle_snd :
    ∀ (uncles : List Header) (acc : StateDb × ℤ),
      (uncles.foldl (rewardUncle K header) acc).2 = acc.2 + uncles.length * (blockReward / 32)
  | [], acc => by simp
  | u :: us, acc => by
    rw [List.foldl_cons, foldl_rewardUncle_snd us, rewardUncle, List.length_cons]
    push_cast
    ring

theorem foldl_rewardUncle_getBalance (b : Address) :
    ∀ (uncles : List Header) (acc : StateDb × ℤ),
      (uncles.foldl (rewardUncle K header) acc).1.getBalance b = acc.1.getBalance b +
        ((uncles.filter (coinbaseAddress · = b)).map (uncleReward header)).sum
  | [], acc => by simp
  | u :: us, acc => by
    rw [List.foldl_cons, foldl_rewardUncle_getBalance b us, rewardUncle, getBalance_addBalance,
      List.filter_cons]
    by_cases hb : coinbaseAddress u = b
    · simp only [hb, if_true, decide_true, List.map_cons, List.sum_cons]
      ring
    · simp only [hb, Ne.symm hb, if_false, decide_false, Bool.false_eq_true, add_zero]

/-- Each uncle's coinbase gets its reward, and the block's coinbase its own. -/
theorem pocRewards_getBalance (state : StateDb) (uncles : List Header) (b : Address) :
    (pocRewards K state header uncles).getBalance b = state.getBalance b +
      ((uncles.filter (coinbaseAddress · = b)).map (uncleReward header)).sum +
      if b = coinbaseAddress header then blockReward * 15 / 2 + uncles.length * (blockReward / 32)
      else 0 := by
  rw [pocRewards, getBalance_addBalance, foldl_rewardUncle_getBalance, foldl_rewardUncle_snd]

/-- An uncle one to six blocks below the block is rewarded two to seven eighths. -/
theorem uncleReward_bounds {uncle : Header} {t : ℤ} (ht : 1 ≤ t ∧ t ≤ 6)
    (hu : uncle.number = header.number - t) :
    blockReward / 4 ≤ uncleReward header uncle ∧ uncleReward header uncle ≤ 7 * blockReward / 8 := by
  have hk : uncle.number + 8 - header.number = 8 - t := by rw [hu]; ring
  rw [uncleReward, hk]
  norm_num [blockReward]
  omega

end Rewards

/-! ### The walk of `VerifyUncles` -/

section Walk

variable (H : Hash256) (now : ℤ) (hashOf : Header → List UInt8)
  (getBlock : List UInt8 → UInt64 → Option Block)

/-- A chain reader that answers with the block of the hash and the number it is asked for, and
holds none numbered `2^64 - 1`, the number below the genesis block's in `uint64`. -/
def ReaderExact : Prop :=
  ∀ hash number b, getBlock hash number = some b →
    hashOf b.header = hash ∧ b.header.number = number.toNat ∧ number.toNat + 1 < 2 ^ 64

theorem collectAncestors_of_none {number : UInt64} (hnone : ∀ hash, getBlock hash number = none) :
    ∀ i parent acc, collectAncestors hashOf getBlock i number parent acc = acc
  | 0, _, _ => rfl
  | i + 1, parent, ⟨u, a⟩ => by simp only [collectAncestors, hnone]

variable {hashOf getBlock}

theorem ReaderExact.none_of_wrap (hget : ReaderExact hashOf getBlock) (hash : List UInt8) :
    getBlock hash (0 - 1) = none := by
  rcases hb : getBlock hash (0 - 1) with _ | b
  · rfl
  · have := (hget hash _ b hb).2.2
    simp at this

/-- What the walk records is what it started with, or the ancestor `t` blocks up from the
number it starts at, which for `t = 0` is the block of the hash it starts from. -/
theorem collectAncestors_spec (hget : ReaderExact hashOf getBlock) :
    ∀ i number parent acc h P, (collectAncestors hashOf getBlock i number parent acc).2 h = some P →
      acc.2 h = some P ∨
        ∃ t < i, t ≤ number.toNat ∧ P.number = ((number.toNat - t : ℕ) : ℤ) ∧ (t = 0 → h = parent)
  | 0, _, _, _, _, _, hP => .inl hP
  | i + 1, number, parent, ⟨u, a⟩, h, P, hP => by
    rw [collectAncestors] at hP
    rcases hb : getBlock parent number with _ | b
    · rw [hb] at hP
      exact .inl hP
    rw [hb] at hP
    dsimp only at hP
    obtain ⟨hhash, hnum, -⟩ := hget parent number b hb
    have hturn : (Function.update a (hashOf b.header) (some b.header)) h = some P →
        a h = some P ∨ ∃ t < i + 1, t ≤ number.toNat ∧ P.number = ((number.toNat - t : ℕ) : ℤ) ∧
          (t = 0 → h = parent) := by
      intro hP
      by_cases hh : h = hashOf b.header
      · rw [hh, Function.update_self, Option.some.injEq] at hP
        subst hP
        exact .inr ⟨0, by omega, by omega, by rw [hnum, Nat.sub_zero], fun _ => hh.trans hhash⟩
      · rw [Function.update_of_ne hh] at hP
        exact .inl hP
    by_cases h0 : number = 0
    · subst h0
      rw [collectAncestors_of_none hashOf getBlock hget.none_of_wrap] at hP
      exact hturn hP
    have hpos : 0 < number.toNat :=
      Nat.pos_of_ne_zero fun hz => h0 (UInt64.toNat_inj.mp (by rw [hz]; rfl))
    have hsub : (number - 1).toNat = number.toNat - 1 := by
      rw [UInt64.toNat_sub_of_le _ _ (UInt64.le_iff_toNat_le.mpr (by simp only [UInt64.toNat_one]; omega))]
      rfl
    rcases collectAncestors_spec hget i (number - 1) _ _ h P hP with hP | ⟨t, ht, htle, hPn, -⟩
    · exact hturn hP
    · refine .inr ⟨t + 1, by omega, by omega, ?_, fun h => absurd h (by omega)⟩
      rw [hPn, hsub]
      congr 1
      omega

end Walk

/-! ### The uncles `VerifyUncles` accepts -/

section Accepted

variable (H : Hash256) (now : ℤ) {hashOf : Header → List UInt8}
  {getBlock : List UInt8 → UInt64 → Option Block}

theorem number_sub_of_verifyHeader {h p : Header} {uncle seal' : Bool}
    (hok : verifyHeader H now h p uncle seal' = .ok ()) : h.number - p.number = 1 := by
  have hone : ¬ h.number - p.number ≠ 1 := by
    cases uncle <;> simp only [verifyHeader, Bool.false_eq_true, if_false, if_true,
      failIf_bind_eq_ok] at hok <;> exact hok.2.2.2.2.2.2.1
  exact not_not.mp hone

/-- Every uncle the loop accepts has a recorded parent other than the block's, and passes the
header checks against it. -/
theorem checkUncles_spec (block : Block) (ancestors : List UInt8 → Option Header) :
    ∀ uncles us, checkUncles H now hashOf block ancestors uncles us = .ok () →
      ∀ u ∈ us, ∃ P, ancestors u.parentHash = some P ∧ u.parentHash ≠ block.header.parentHash ∧
        verifyHeader H now u P true true = .ok ()
  | _, [], _, u, hu => absurd hu List.not_mem_nil
  | uncles, v :: vs, hok, u, hu => by
    simp only [checkUncles, failIf_bind_eq_ok] at hok
    obtain ⟨-, -, hok⟩ := hok
    rcases hP : ancestors v.parentHash with _ | P
    · rw [hP] at hok
      exact absurd hok (throw_ne_ok _ _)
    rw [hP] at hok
    dsimp only at hok
    rw [failIf_bind_eq_ok] at hok
    obtain ⟨hne, hok⟩ := hok
    rcases hv : verifyHeader H now v P true true with e | ⟨⟩
    · rw [hv] at hok
      cases hok
    rw [hv] at hok
    rcases List.mem_cons.mp hu with rfl | hu
    · exact ⟨P, hP, hne, hv⟩
    · exact checkUncles_spec block ancestors _ vs hok u hu

theorem toNat_bigUint64 {n : ℤ} (h0 : 0 ≤ n) (hlt : n < 2 ^ 64) : ((bigUint64 n).toNat : ℤ) = n := by
  rw [bigUint64, UInt64.toNat_ofNat', Nat.mod_eq_of_lt (by omega)]
  exact Int.natAbs_of_nonneg h0

/-- An accepted uncle whose parent is not the block itself is one to six blocks below it. -/
theorem uncle_number_of_verifyUncles (hget : ReaderExact hashOf getBlock) {block : Block}
    (hnum : 0 ≤ block.header.number ∧ block.header.number < 2 ^ 64)
    (hok : verifyUncles H now hashOf getBlock block = .ok ()) {u : Header} (hu : u ∈ block.uncles)
    (hcyc : u.parentHash ≠ hashOf block.header) :
    ∃ t : ℤ, (1 ≤ t ∧ t ≤ 6) ∧ u.number = block.header.number - t := by
  rw [verifyUncles, failIf_bind_eq_ok] at hok
  obtain ⟨-, hok⟩ := hok
  rcases hc : collectAncestors hashOf getBlock 7 (bigUint64 block.header.number - 1)
    block.header.parentHash ([], fun _ => none) with ⟨us, anc⟩
  rw [hc] at hok
  obtain ⟨P, hP, hne, hv⟩ := checkUncles_spec H now block _ _ _ hok u hu
  rw [Function.update_of_ne hcyc] at hP
  have hstart := toNat_bigUint64 hnum.1 hnum.2
  by_cases hz : block.header.number = 0
  · have hwrap : bigUint64 block.header.number - 1 = 0 - 1 := by
      rw [UInt64.toNat_inj.mp (by rw [UInt64.toNat_zero]; omega :
        (bigUint64 block.header.number).toNat = (0 : UInt64).toNat)]
    rw [hwrap, collectAncestors_of_none hashOf getBlock hget.none_of_wrap] at hc
    rw [← (Prod.mk.inj hc).2] at hP
    cases hP
  have hsub : ((bigUint64 block.header.number - 1).toNat : ℤ) = block.header.number - 1 := by
    rw [UInt64.toNat_sub_of_le _ _ (UInt64.le_iff_toNat_le.mpr (by simp only [UInt64.toNat_one]; omega))]
    simp only [UInt64.toNat_one]
    omega
  obtain hnone | ⟨t, ht, htle, hPn, ht0⟩ :=
    collectAncestors_spec hget 7 _ _ _ _ P (by rw [hc]; exact hP)
  · cases hnone
  have ht1 : t ≠ 0 := fun h => hne (ht0 h)
  have hUP := number_sub_of_verifyHeader H now hv
  refine ⟨t, ⟨by omega, by omega⟩, ?_⟩
  omega

end Accepted

/-- Over a chain reader that answers with the blocks asked for, a block numbered below `2^64`
whose uncles are not its own children and which `VerifyUncles` accepts has each uncle rewarded
between a quarter and seven eighths of `blockReward`; `PocRewards` credits each coinbase its
uncles' rewards and the block's coinbase `15 * blockReward / 2` and `blockReward / 32` per uncle,
and lowers no balance. -/
theorem pocRewards_of_verifyUncles (H : Hash256) (now : ℤ) (hashOf : Header → List UInt8)
    (getBlock : List UInt8 → UInt64 → Option Block) (K : Hash256) (state : StateDb) (block : Block)
    (hget : ReaderExact hashOf getBlock)
    (hcyc : ∀ u ∈ block.uncles, u.parentHash ≠ hashOf block.header)
    (hnum : 0 ≤ block.header.number ∧ block.header.number < 2 ^ 64)
    (hok : verifyUncles H now hashOf getBlock block = .ok ()) :
    (∀ u ∈ block.uncles, blockReward / 4 ≤ uncleReward block.header u ∧
        uncleReward block.header u ≤ 7 * blockReward / 8) ∧
      (∀ a, (pocRewards K state block.header block.uncles).getBalance a = state.getBalance a +
        ((block.uncles.filter (coinbaseAddress · = a)).map (uncleReward block.header)).sum +
        if a = coinbaseAddress block.header then
          15 * blockReward / 2 + block.uncles.length * (blockReward / 32) else 0) ∧
      ∀ a, state.getBalance a ≤ (pocRewards K state block.header block.uncles).getBalance a := by
  have hbounds : ∀ u ∈ block.uncles, blockReward / 4 ≤ uncleReward block.header u ∧
      uncleReward block.header u ≤ 7 * blockReward / 8 := by
    intro u hu
    obtain ⟨t, ht, hun⟩ := uncle_number_of_verifyUncles H now hget hnum hok hu (hcyc u hu)
    exact uncleReward_bounds block.header ht hun
  have hcredit : ∀ a, (pocRewards K state block.header block.uncles).getBalance a =
      state.getBalance a + ((block.uncles.filter (coinbaseAddress · = a)).map
        (uncleReward block.header)).sum +
      if a = coinbaseAddress block.header then
        15 * blockReward / 2 + block.uncles.length * (blockReward / 32) else 0 := by
    intro a
    rw [pocRewards_getBalance, mul_comm blockReward 15]
  refine ⟨hbounds, hcredit, fun a => ?_⟩
  have hsum : 0 ≤ ((block.uncles.filter (coinbaseAddress · = a)).map
      (uncleReward block.header)).sum := by
    refine List.sum_nonneg fun r hr => ?_
    obtain ⟨u, hu, rfl⟩ := List.mem_map.mp hr
    have hlow := (hbounds u (List.mem_of_mem_filter hu)).1
    have hR : (0 : ℤ) ≤ blockReward / 4 := by norm_num [blockReward]
    linarith
  have hminer : 0 ≤ 15 * blockReward / 2 + block.uncles.length * (blockReward / 32) := by
    unfold blockReward
    positivity
  rw [hcredit]
  split_ifs <;> linarith

/-! ### A block whose number wraps -/

/-- A hash telling apart the headers below: the low bytes of the number and the difficulty. -/
def numberKey (h : Header) : List UInt8 := [UInt8.ofNat h.number.toNat, UInt8.ofNat h.difficulty.toNat]

/-- Block one, on top of `underivedParent`. -/
def blockOne : Header := { underivedParent with number := 1, parentHash := numberKey underivedParent }

/-- `underivedHeader` as an uncle: a second child of `underivedParent`. -/
def cousinUncle : Header := { underivedHeader with parentHash := numberKey underivedParent }

/-- A block numbered `n` on top of `blockOne`, with `cousinUncle` as its uncle. -/
def blockOn (n : ℤ) : Block :=
  ⟨{ underivedParent with number := n, parentHash := numberKey blockOne }, [cousinUncle]⟩

/-- The reader of the chain of `underivedParent` and `blockOne`. -/
def twoBlocks (hash : List UInt8) (number : UInt64) : Option Block :=
  if hash = numberKey blockOne ∧ number = 1 then some ⟨blockOne, []⟩
  else if hash = numberKey underivedParent ∧ number = 0 then some ⟨underivedParent, []⟩
  else none

theorem readerExact_twoBlocks : ReaderExact numberKey twoBlocks := by
  intro hash number b hb
  unfold twoBlocks at hb
  split_ifs at hb with h1 h2
  · cases hb
    obtain ⟨rfl, rfl⟩ := h1
    exact ⟨rfl, rfl, by decide⟩
  · cases hb
    obtain ⟨rfl, rfl⟩ := h2
    exact ⟨rfl, rfl, by decide⟩

theorem verifyHeader_cousinUncle (H : Hash256) :
    verifyHeader H 100 cousinUncle underivedParent true true = .ok () := by
  simp only [verifyHeader, if_true, failIf_bind_eq_ok, verifySeal_eq_ok_iff,
    calcDeadLine_sealTarget_of_le H cousinUncle (by decide)]
  decide

theorem collectAncestors_twoBlocks :
    collectAncestors numberKey twoBlocks 7 1 (numberKey blockOne) ([], fun _ => none) =
      ([], Function.update (Function.update (fun _ => none) [1, 1] (some blockOne)) [0, 1]
        (some underivedParent)) := by
  have hone : twoBlocks (numberKey blockOne) 1 = some ⟨blockOne, []⟩ := if_pos ⟨rfl, rfl⟩
  have hzero : twoBlocks (numberKey underivedParent) 0 = some ⟨underivedParent, []⟩ := by
    rw [twoBlocks, if_neg (by decide), if_pos ⟨rfl, rfl⟩]
  rw [collectAncestors, hone]
  dsimp only
  rw [show (1 - 1 : UInt64) = 0 from rfl, collectAncestors, show blockOne.parentHash =
    numberKey underivedParent from rfl, hzero]
  dsimp only
  rw [collectAncestors_of_none numberKey twoBlocks readerExact_twoBlocks.none_of_wrap]
  rfl

theorem verifyUncles_blockOn (H : Hash256) {n : ℤ} (hn : bigUint64 n = 2)
    (hkey : UInt8.ofNat n.toNat = 2) :
    verifyUncles H 100 numberKey twoBlocks (blockOn n) = .ok () := by
  have hstart : bigUint64 (blockOn n).header.number - 1 = 1 := by
    rw [show (blockOn n).header.number = n from rfl, hn]
    rfl
  have hkeyB : numberKey (blockOn n).header = [2, 1] := by
    rw [numberKey, show (blockOn n).header.number = n from rfl, hkey]
    rfl
  have huncles : (blockOn n).uncles = [cousinUncle] := rfl
  rw [verifyUncles, failIf_bind_eq_ok, huncles]
  refine ⟨by decide, ?_⟩
  rw [hstart, show (blockOn n).header.parentHash = numberKey blockOne from rfl,
    collectAncestors_twoBlocks, hkeyB]
  dsimp only
  simp only [checkUncles, failIf_bind_eq_ok]
  rw [show numberKey cousinUncle = [1, 2] from rfl, show cousinUncle.parentHash = [0, 1] from rfl,
    show (blockOn n).header.parentHash = [1, 1] from rfl]
  refine ⟨by decide, by simp, ?_⟩
  simp [verifyHeader_cousinUncle, Except.mapError]

theorem pocRewards_of_verifyUncles_blockOn :
    let state : StateDb := ⟨fun _ => none, [], 0, 0, 0, 0, fun _ => [], 0, fun _ => none, [], [], 0⟩
    let block := blockOn 2
    ReaderExact numberKey twoBlocks ∧
      (∀ u ∈ block.uncles, u.parentHash ≠ numberKey block.header) ∧
      (0 ≤ block.header.number ∧ block.header.number < 2 ^ 64) ∧
      verifyUncles Hash256.zero 100 numberKey twoBlocks block = .ok () ∧
      (∀ u ∈ block.uncles, blockReward / 4 ≤ uncleReward block.header u ∧
          uncleReward block.header u ≤ 7 * blockReward / 8) ∧
      (∀ a, (pocRewards Hash256.zero state block.header block.uncles).getBalance a =
          state.getBalance a +
            ((block.uncles.filter (coinbaseAddress · = a)).map (uncleReward block.header)).sum +
          if a = coinbaseAddress block.header then
            15 * blockReward / 2 + block.uncles.length * (blockReward / 32) else 0) ∧
      ∀ a, state.getBalance a ≤ (pocRewards Hash256.zero state block.header block.uncles).getBalance a := by
  intro state block
  have hget := readerExact_twoBlocks
  have hcyc : ∀ u ∈ block.uncles, u.parentHash ≠ numberKey block.header := by
    intro u hu
    rw [List.mem_singleton.mp hu]
    decide
  have hnum : 0 ≤ block.header.number ∧ block.header.number < 2 ^ 64 := by decide
  have hok := verifyUncles_blockOn Hash256.zero (n := 2) rfl rfl
  exact ⟨hget, hcyc, hnum, hok,
    pocRewards_of_verifyUncles Hash256.zero 100 numberKey twoBlocks Hash256.zero state block hget hcyc
      hnum hok⟩

/-- A block numbered `2^64 + 2` walks up from `NumberU64() = 2`: its uncle on top of block zero is
accepted and rewarded `(1 + 8 - 2^64 - 2) * blockReward / 8`, which debits the coinbase. -/
theorem pocRewards_wrapped_number_debits (K : Hash256) (state : StateDb) :
    let block := blockOn (2 ^ 64 + 2)
    ReaderExact numberKey twoBlocks ∧
      (∀ u ∈ block.uncles, u.parentHash ≠ numberKey block.header) ∧
      verifyUncles Hash256.zero 100 numberKey twoBlocks block = .ok () ∧
      (pocRewards K state block.header block.uncles).getBalance (coinbaseAddress cousinUncle) <
        state.getBalance (coinbaseAddress cousinUncle) := by
  intro block
  refine ⟨readerExact_twoBlocks, ?_, verifyUncles_blockOn Hash256.zero (by decide) (by decide), ?_⟩
  · intro u hu
    rw [List.mem_singleton.mp hu]
    decide
  · have hsame : coinbaseAddress cousinUncle = coinbaseAddress block.header := by decide
    have hr : uncleReward block.header cousinUncle = (7 - 2 ^ 64) * blockReward / 8 := by
      rw [uncleReward, show cousinUncle.number + 8 - block.header.number = 7 - 2 ^ 64 by
        rw [show cousinUncle.number = 1 from rfl, show block.header.number = 2 ^ 64 + 2 from rfl]
        ring]
    rw [pocRewards_getBalance, if_pos hsame, show block.uncles = [cousinUncle] from rfl,
      List.filter_singleton, decide_eq_true rfl, cond_true, List.map_singleton, List.sum_singleton, hr]
    norm_num [blockReward]
    linarith

theorem pocRewards_debits_wrapped_number :
    let block := blockOn (2 ^ 64 + 2)
    let state : StateDb := ⟨fun _ => none, [], 0, 0, 0, 0, fun _ => [], 0, fun _ => none, [], [], 0⟩
    ReaderExact numberKey twoBlocks ∧
      (∀ u ∈ block.uncles, u.parentHash ≠ numberKey block.header) ∧
      verifyUncles Hash256.zero 100 numberKey twoBlocks block = .ok () ∧
      (pocRewards Hash256.zero state block.header block.uncles).getBalance (coinbaseAddress cousinUncle) <
        state.getBalance (coinbaseAddress cousinUncle) :=
  pocRewards_wrapped_number_debits Hash256.zero _

end GoXdn.Consensus
