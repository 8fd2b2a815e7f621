import GoXdn.Consensus.Dnpoc
import GoXdn.State.StateDb

/-!
# Uncles and their rewards

`VerifyUncles` and `PocRewards` of `consensus/xdnoc/dnpoc.go`. `VerifyUncles` walks up to seven
blocks up from the parent by `GetBlock`, recording each ancestor's header by hash and the hashes
of its uncles, and accepts an uncle whose parent is one of those ancestors other than the block's
own parent and which passes `verifyHeader` against it. `PocRewards` credits each uncle's coinbase
`(uncle.Number + 8 - header.Number) * blockReward / 8` and the block's coinbase
`blockReward * 15 / 2` and `blockReward / 32` more for each uncle.

A header's hash (`rlpHash` of all its fields, most of which are not modelled) is a parameter
`hashOf`, and the chain reader is the function `getBlock`. The set of seen hashes is a list and
the ancestors a map from hashes; a coinbase is credited at the address its bytes encode.
-/

namespace GoXdn.Consensus

open GoStd State

/-- `types.Block`: its header and its uncles. -/
structure Block where
  header : Header
  uncles : List Header

/-- The errors `VerifyUncles` returns itself, and those of `verifyHeader` on an uncle. -/
inductive UncleError
  | tooManyUncles
  | duplicateUncle
  | uncleIsAncestor
  | danglingUncle
  | header (e : VerifyError)
  deriving DecidableEq, Repr

def UncleError.text : UncleError → String
  | .tooManyUncles => "too many uncles"
  | .duplicateUncle => "duplicate uncle"
  | .uncleIsAncestor => "uncle is ancestor"
  | .danglingUncle => "uncle's parent is not ancestor"
  | .header e => e.text

/-- `maxUncles`. -/
def maxUncles : ℕ := 2

/-- `blockReward`, `1e+18`. -/
def blockReward : ℤ := 10 ^ 18

variable (H : Hash256) (now : ℤ) (hashOf : Header → List UInt8)
  (getBlock : List UInt8 → UInt64 → Option Block)

/-- The loop `for i := 0; i < 7; i++` of `VerifyUncles`, with `i` the turns left: the seen
hashes and the ancestors by hash. The `uint64` number wraps below zero. -/
def collectAncestors : ℕ → UInt64 → List UInt8 → List (List UInt8) × (List UInt8 → Option Header) →
    List (List UInt8) × (List UInt8 → Option Header)
  | 0, _, _, acc => acc
  | i + 1, number, parent, (uncles, ancestors) =>
    match getBlock parent number with
    | none => (uncles, ancestors)
    | some ancestor =>
      collectAncestors i (number - 1) ancestor.header.parentHash
        (uncles ++ ancestor.uncles.map hashOf,
          Function.update ancestors (hashOf ancestor.header) (some ancestor.header))

/-- The loop over `block.Uncles()`, with the hashes seen so far. -/
def checkUncles (block : Block) (ancestors : List UInt8 → Option Header) :
    List (List UInt8) → List Header → Except UncleError Unit
  | _, [] => pure ()
  | uncles, uncle :: rest => do
    let hash := hashOf uncle
    failIf (hash ∈ uncles) .duplicateUncle
    failIf (ancestors hash).isSome .uncleIsAncestor
    match ancestors uncle.parentHash with
    | none => throw .danglingUncle
    | some parent =>
      failIf (uncle.parentHash = block.header.parentHash) .danglingUncle
      (verifyHeader H now uncle parent true true).mapError .header
      checkUncles block ancestors (hash :: uncles) rest

/-- `VerifyUncles(chain, block)`. -/
def verifyUncles (block : Block) : Except UncleError Unit := do
  failIf (block.uncles.length > maxUncles) .tooManyUncles
  let (uncles, ancestors) := collectAncestors hashOf getBlock 7 (bigUint64 block.header.number - 1)
    block.header.parentHash ([], fun _ => none)
  checkUncles H now hashOf block (Function.update ancestors (hashOf block.header) (some block.header))
    (uncles ++ [hashOf block.header]) block.uncles

/-! ### Rewards -/

/-- The account a coinbase is credited at. -/
def coinbaseAddress (h : Header) : Address := beNat h.coinbase

/-- What `PocRewards` credits the coinbase of `uncle`, an uncle of `header`. -/
def uncleReward (header uncle : Header) : ℤ := (uncle.number + 8 - header.number) * blockReward / 8

variable (K : Hash256)

/-- One turn of the loop of `PocRewards`: the state and the block's reward so far. -/
def rewardUncle (header : Header) (acc : StateDb × ℤ) (uncle : Header) : StateDb × ℤ :=
  (acc.1.addBalance K (coinbaseAddress uncle) (uncleReward header uncle), acc.2 + blockReward / 32)

/-- `PocRewards(config, state, header, uncles)`. -/
def pocRewards (state : StateDb) (header : Header) (uncles : List Header) : StateDb :=
  let (state, reward) := uncles.foldl (rewardUncle K header) (state, blockReward * 15 / 2)
  state.addBalance K (coinbaseAddress header) reward

end GoXdn.Consensus
