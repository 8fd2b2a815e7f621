import GoXdn.Consensus.Dnpoc

/-!
# What the header checks tie to the parent

`verifyHeader` with `seal = true` accepts a header exactly when its own fields pass the listed
checks (`verifyHeader_eq_ok_iff`): the seal is recomputed from the header's own `GenSig`,
`Nonce`, `PlotID` and `BaseTarget`, and the deadline is measured from the header's own
`LastTime`.  Nothing compares `GenSig`, `LastTime` or `BaseTarget` with what the miner derives
from the parent and the chain, and `Difficulty` is not read at all, so a header with a base
target of `2^64` or more, whose deadline is then `0` whatever the cell (`sealTarget_lt`),
passes with fields no miner gives it (`verifyHeader_accepts_underived`).

The checks fault where the source panics: on a zero base target, which reaches the division of
`CalcDeadLine` unchecked (`verifyHeader_eq_panic_iff`). The scoop a header selects is byte 31 of
its `GenHash` alone (`getScoopID_eq`): the shift of byte 30 is done on a byte. And past the fifth
block the base target is clamped between nine and eleven tenths of the average of the four
before (`calcBaseTarget_bounds`), which rounds to zero for an average of one.
-/

namespace GoXdn.Consensus

open GoStd Buffer Poc

variable (H : Hash256) (now : ℤ)

theorem verifySeal_eq_ok_iff (h : Header) :
    verifySeal H now h = .ok () ↔
      calcPlotID h.coinbase = some h.plotID ∧
        calcDeadLine (sealTarget H h) h.baseTarget = some h.deadLine ∧
        h.deadLine + h.lastTime < h.time ∧ h.time - 15 ≤ now := by
  unfold verifySeal
  rcases hp : calcPlotID h.coinbase with _ | addrPlotID
  · simp
  · rcases hd : calcDeadLine (sealTarget H h) h.baseTarget with _ | deadline
    · simp
    · simp only [failIf_bind_eq_ok, failIf_eq_ok, Option.some.injEq, not_not, not_lt, not_le]
      constructor
      · rintro ⟨rfl, rfl, hlt, hnow⟩
        exact ⟨rfl, rfl, hlt, hnow⟩
      · rintro ⟨rfl, rfl, hlt, hnow⟩
        exact ⟨rfl, rfl, hlt, hnow⟩

/-- The header checks with the seal: every condition is on the header's own fields, the
parent entering only through its time, gas limit and number. -/
theorem verifyHeader_eq_ok_iff (h p : Header) :
    verifyHeader H now h p false true = .ok () ↔
      h.extra.length ≤ maximumExtraDataSize ∧ h.time ≤ now ∧ p.time < h.time ∧
        h.gasLimit ≤ maxBig63 ∧ h.gasUsed ≤ h.gasLimit ∧
        |p.gasLimit - h.gasLimit| < p.gasLimit / gasLimitBoundDivisor ∧
        minGasLimit ≤ h.gasLimit ∧ h.number - p.number = 1 ∧
        calcPlotID h.coinbase = some h.plotID ∧
        calcDeadLine (sealTarget H h) h.baseTarget = some h.deadLine ∧
        h.deadLine + h.lastTime < h.time ∧ h.time - 15 ≤ now := by
  simp only [verifyHeader, Bool.false_eq_true, if_false, if_true, failIf_bind_eq_ok,
    verifySeal_eq_ok_iff, not_lt, not_le, not_or, ne_eq, not_not, gt_iff_lt, ge_iff_le, and_assoc]

theorem sealTarget_lt (h : Header) : sealTarget H h < 2 ^ 64 := by
  have hlast : ∀ t : List UInt8, t.length = 32 → beNat (t.drop 24) < 2 ^ 64 := by
    intro t ht
    simpa [ht] using beNat_lt (t.drop 24)
  exact hlast _ (H.length_sum _)

/-- A base target of `2^64` or more puts every deadline at `0`: the target has eight bytes. -/
theorem calcDeadLine_sealTarget_of_le (h : Header) (hbt : 2 ^ 64 ≤ h.baseTarget) :
    calcDeadLine (sealTarget H h) h.baseTarget = some 0 := by
  have hlt := sealTarget_lt H h
  unfold calcDeadLine
  rw [if_neg (by omega)]
  congr 1
  exact Int.ediv_eq_zero_of_lt (by omega) (by omega)

/-- What the miner gives the header on top of `p`: the generation signature of the parent's,
the parent's time, the retargeted base target and the difficulty `Prepare` sets. -/
def MinerDerived (getHeaderByNumber : UInt64 → Option Header) (p h : Header) : Prop :=
  h.genSig = genSignature H p.genSig p.plotID ∧ h.lastTime = p.time ∧
    calcBaseTarget getHeaderByNumber (bigUint64 h.number) = some h.baseTarget ∧
    h.difficulty = 1

/-- A parent at height `0`. -/
def underivedParent : Header where
  parentHash := []
  coinbase := []
  difficulty := 1
  number := 0
  gasLimit := 5000
  gasUsed := 0
  time := 0
  extra := []
  nonce := 0
  plotID := 0
  genSig := List.replicate 32 0
  genSig_length := List.length_replicate
  baseTarget := initBaseTarget
  deadLine := 0
  lastTime := 0

/-- A child of `underivedParent` with difficulty `2`, a base target of `2^64` and a zero
deadline. -/
def underivedHeader : Header where
  parentHash := []
  coinbase := List.replicate 23 0
  difficulty := 2
  number := 1
  gasLimit := 5000
  gasUsed := 0
  time := 1
  extra := []
  nonce := 0
  plotID := 0
  genSig := List.replicate 32 0
  genSig_length := List.length_replicate
  baseTarget := 2 ^ 64
  deadLine := 0
  lastTime := 0

theorem underivedHeader_accepted : verifyHeader H 100 underivedHeader underivedParent false true = .ok () := by
  rw [verifyHeader_eq_ok_iff, calcDeadLine_sealTarget_of_le H underivedHeader (by decide)]
  refine ⟨by decide, by decide, by decide, by decide, by decide, by decide, by decide, by decide,
    by decide, rfl, by decide, by decide⟩

theorem verifyHeader_accepts_underived :
    ¬ ∀ (H : Hash256) (getHeaderByNumber : UInt64 → Option Header) (now : ℤ) (h p : Header),
      h.number = p.number + 1 → verifyHeader H now h p false true = .ok () →
        MinerDerived H getHeaderByNumber p h := by
  intro hall
  have hd := (hall Hash256.zero (fun _ => none) 100 underivedHeader underivedParent rfl
    (underivedHeader_accepted Hash256.zero)).2.2.2
  exact absurd hd (by decide)

/-! ### Faults -/

theorem calcDeadLine_eq_none {target baseTarget : ℤ} :
    calcDeadLine target baseTarget = none ↔ baseTarget = 0 := by
  unfold calcDeadLine
  split_ifs <;> simp_all

theorem verifySeal_eq_panic_iff (h : Header) :
    verifySeal H now h = .error .panic ↔
      calcPlotID h.coinbase = none ∨ calcPlotID h.coinbase = some h.plotID ∧ h.baseTarget = 0 := by
  unfold verifySeal
  rcases hp : calcPlotID h.coinbase with _ | addrPlotID
  · simp
  · rcases hd : calcDeadLine (sealTarget H h) h.baseTarget with _ | deadline
    · have h0 : h.baseTarget = 0 := calcDeadLine_eq_none.1 hd
      rw [failIf_bind_eq_error]
      simp only [h0, reduceCtorEq, and_false, not_not, and_true, false_or, Option.some.injEq]
      exact eq_comm
    · have h0 : h.baseTarget ≠ 0 := fun h0 => by
        rw [calcDeadLine_eq_none.2 h0] at hd
        cases hd
      simp [h0]

/-- The header checks with the seal fault exactly when the checks before the seal pass and the
coinbase is too short for a plot id, or the plot id matches and the base target is zero. -/
theorem verifyHeader_eq_panic_iff (h p : Header) :
    verifyHeader H now h p false true = .error .panic ↔
      (h.extra.length ≤ maximumExtraDataSize ∧ h.time ≤ now ∧ p.time < h.time ∧
        h.gasLimit ≤ maxBig63 ∧ h.gasUsed ≤ h.gasLimit ∧
        |p.gasLimit - h.gasLimit| < p.gasLimit / gasLimitBoundDivisor ∧
        minGasLimit ≤ h.gasLimit ∧ h.number - p.number = 1) ∧
      (calcPlotID h.coinbase = none ∨ calcPlotID h.coinbase = some h.plotID ∧ h.baseTarget = 0) := by
  simp only [verifyHeader, Bool.false_eq_true, if_false, if_true, failIf_bind_eq_error,
    verifySeal_eq_panic_iff, reduceCtorEq, and_false, false_or, not_lt, not_le, not_or, ne_eq,
    not_not, gt_iff_lt, ge_iff_le, and_assoc]

/-- `underivedHeader` with a zero base target. -/
def zeroTargetHeader : Header := { underivedHeader with baseTarget := 0 }

theorem verifyHeader_zero_target_panics :
    verifyHeader H 100 zeroTargetHeader underivedParent false true = .error .panic := by
  rw [verifyHeader_eq_panic_iff]
  exact ⟨⟨by decide, by decide, by decide, by decide, by decide, by decide, by decide, by decide⟩,
    .inr ⟨rfl, rfl⟩⟩

/-! ### The scoop -/

/-- `genHash[30] << 8` is a byte, always zero: the scoop is byte 31. -/
theorem getScoopID_eq (genHash : List UInt8) : getScoopID genHash = (genHash.getD 31 0).toNat := by
  have h0 : shlByte (genHash.getD 30 0) 8 = 0 := by
    unfold shlByte
    rw [← UInt8.toNat_inj, UInt8.toNat_ofNat', pow_succ]
    simp
  have hlt := (genHash.getD 31 0).toNat_lt
  rw [getScoopID, h0]
  simp only [UInt8.toNat_zero, Nat.zero_or]
  omega

theorem getScoopID_drops_byte30 :
    getScoopID (List.replicate 30 0 ++ [1, 0]) = 0 ∧ (256 * 1 + 0) % 4096 = 256 :=
  ⟨by rw [getScoopID_eq]; rfl, rfl⟩

/-! ### Retargeting -/

section BaseTarget

variable (getHeaderByNumber : UInt64 → Option Header)

theorem sumBack_four {n : UInt64} {h₁ h₂ h₃ h₄ : Header} (hg₁ : getHeaderByNumber (n - 1) = some h₁)
    (hg₂ : getHeaderByNumber (n - 2) = some h₂) (hg₃ : getHeaderByNumber (n - 3) = some h₃)
    (hg₄ : getHeaderByNumber (n - 4) = some h₄) :
    sumBack getHeaderByNumber (n - 1) 4 (0, 0) =
      some (h₁.baseTarget + h₂.baseTarget + h₃.baseTarget + h₄.baseTarget,
        h₁.deadLine + h₂.deadLine + h₃.deadLine + h₄.deadLine) := by
  have e₂ : n - 1 - 1 = n - 2 := by rw [sub_sub]; rfl
  have e₃ : n - 2 - 1 = n - 3 := by rw [sub_sub]; rfl
  have e₄ : n - 3 - 1 = n - 4 := by rw [sub_sub]; rfl
  simp [sumBack, hg₁, e₂, hg₂, e₃, hg₃, e₄, hg₄, add_assoc]

/-- Past the fifth block the base target reads the four headers before and nothing else. -/
theorem calcBaseTarget_congr {n : UInt64} (hn : 5 < n) {h₁ h₂ h₃ h₄ : Header}
    (get' : UInt64 → Option Header)
    (hg₁ : getHeaderByNumber (n - 1) = some h₁) (hg₂ : getHeaderByNumber (n - 2) = some h₂)
    (hg₃ : getHeaderByNumber (n - 3) = some h₃) (hg₄ : getHeaderByNumber (n - 4) = some h₄)
    (hg₁' : get' (n - 1) = some h₁) (hg₂' : get' (n - 2) = some h₂)
    (hg₃' : get' (n - 3) = some h₃) (hg₄' : get' (n - 4) = some h₄) :
    calcBaseTarget get' n = calcBaseTarget getHeaderByNumber n := by
  have hle : ¬ n ≤ 5 := UInt64.not_le.2 hn
  simp only [calcBaseTarget, hle, if_false, sumBack_four getHeaderByNumber hg₁ hg₂ hg₃ hg₄,
    sumBack_four get' hg₁' hg₂' hg₃' hg₄']

/-- Past the fifth block, the base target is the average of the four before, moved towards the
average deadline and clamped between nine and eleven tenths of that average. -/
theorem calcBaseTarget_of_four {n : UInt64} (hn : 5 < n) {h₁ h₂ h₃ h₄ : Header}
    (hg₁ : getHeaderByNumber (n - 1) = some h₁) (hg₂ : getHeaderByNumber (n - 2) = some h₂)
    (hg₃ : getHeaderByNumber (n - 3) = some h₃) (hg₄ : getHeaderByNumber (n - 4) = some h₄)
    (hs : 0 ≤ h₁.baseTarget + h₂.baseTarget + h₃.baseTarget + h₄.baseTarget) :
    ∃ v, calcBaseTarget getHeaderByNumber n = some v ∧
      (h₁.baseTarget + h₂.baseTarget + h₃.baseTarget + h₄.baseTarget) / 4 * 9 / 10 ≤ v ∧
      v ≤ (h₁.baseTarget + h₂.baseTarget + h₃.baseTarget + h₄.baseTarget) / 4 * 11 / 10 := by
  have hle : ¬ n ≤ 5 := UInt64.not_le.2 hn
  simp only [calcBaseTarget, hle, if_false, sumBack_four getHeaderByNumber hg₁ hg₂ hg₃ hg₄,
    Option.bind_eq_bind, Option.bind_some]
  set a := (h₁.baseTarget + h₂.baseTarget + h₃.baseTarget + h₄.baseTarget) / 4 with ha
  have h0 : 0 ≤ a := by omega
  split_ifs <;> exact ⟨_, rfl, by omega, by omega⟩

end BaseTarget

theorem calcBaseTarget_bounds :
    (∀ (getHeaderByNumber : UInt64 → Option Header) (n : UInt64), n ≤ 5 →
      calcBaseTarget getHeaderByNumber n = some initBaseTarget) ∧
    ∀ (getHeaderByNumber : UInt64 → Option Header) (n : UInt64) (h₁ h₂ h₃ h₄ : Header), 5 < n →
      getHeaderByNumber (n - 1) = some h₁ → getHeaderByNumber (n - 2) = some h₂ →
      getHeaderByNumber (n - 3) = some h₃ → getHeaderByNumber (n - 4) = some h₄ →
      1 ≤ h₁.baseTarget → 1 ≤ h₂.baseTarget → 1 ≤ h₃.baseTarget → 1 ≤ h₄.baseTarget →
      ∃ v, (∀ get' : UInt64 → Option Header, get' (n - 1) = some h₁ → get' (n - 2) = some h₂ →
          get' (n - 3) = some h₃ → get' (n - 4) = some h₄ → calcBaseTarget get' n = some v) ∧
        (h₁.baseTarget + h₂.baseTarget + h₃.baseTarget + h₄.baseTarget) / 4 * 9 / 10 ≤ v ∧
        v ≤ (h₁.baseTarget + h₂.baseTarget + h₃.baseTarget + h₄.baseTarget) / 4 * 11 / 10 ∧
        (2 ≤ (h₁.baseTarget + h₂.baseTarget + h₃.baseTarget + h₄.baseTarget) / 4 → 1 ≤ v) := by
  refine ⟨fun _ n hn => by simp [calcBaseTarget, hn], ?_⟩
  intro get n h₁ h₂ h₃ h₄ hn hg₁ hg₂ hg₃ hg₄ hb₁ hb₂ hb₃ hb₄
  obtain ⟨v, hv, hlo, hhi⟩ := calcBaseTarget_of_four get hn hg₁ hg₂ hg₃ hg₄ (by omega)
  refine ⟨v, fun get' hg₁' hg₂' hg₃' hg₄' => ?_, hlo, hhi, fun h2 => by omega⟩
  rw [calcBaseTarget_congr get hn get' hg₁ hg₂ hg₃ hg₄ hg₁' hg₂' hg₃' hg₄', hv]

/-- A header of base target `8`. -/
def eightTargetHeader : Header := { underivedParent with baseTarget := 8 }

theorem calcBaseTarget_bounds_sample :
    ∃ v, calcBaseTarget (fun _ => some eightTargetHeader) 6 = some v ∧ 1 ≤ v := by
  obtain ⟨v, hv, -, -, h1⟩ := calcBaseTarget_bounds.2 (fun _ => some eightTargetHeader) 6 _ _ _ _
    (by decide) rfl rfl rfl rfl (by decide) (by decide) (by decide) (by decide)
  exact ⟨v, hv _ rfl rfl rfl rfl, h1 (by decide)⟩

/-- A header of base target `1` and deadline `0`. -/
def unitTargetHeader : Header := { underivedParent with baseTarget := 1 }

/-- Four headers of base target `1`: the average is `1`, nine tenths of it rounds to `0`, and so
does the retargeted value. -/
theorem calcBaseTarget_unit_zero : calcBaseTarget (fun _ => some unitTargetHeader) 6 = some 0 := by
  rfl

end GoXdn.Consensus
