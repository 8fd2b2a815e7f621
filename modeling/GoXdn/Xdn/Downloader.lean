import Mathlib
import GoXdn.Lib.GoStd

/-!
# The common ancestor of the local chain and a peer's

`Downloader.findAncestor` of `xdn/downloader/downloader.go`. It asks the peer for a sample of
headers, every 16th from `MaxHeaderFetch` below `min(ceil, height)` up to at most 24 of them, and
takes the highest one the local chain knows. If none is known it bisects `[max(floor, 0), head]`,
asking for one header at the midpoint each time. An ancestor at or below `floor`, `MaxForkAncestry`
below the local head, is refused.

The peer is `respond`: the headers it sends for each request, `none` where the request times out
(or the fetch is cancelled). Packets of other peers and body or receipt deliveries are dropped by
the loops and do not show here. A header number is a `big.Int`, read by `Int64()` and `Uint64()`
as its low 64 bits. What the local chain knows is `known` (`HasBlockAndState(hash)` in full sync,
`HasHeader(hash, number)` otherwise) and `numberOf` (the number of `GetHeaderByHash`); `ceil` is
the head number of the sync mode's chain.
-/

namespace GoXdn.Downloader

open GoStd

def maxHeaderFetch : ℕ := 192
/-- `MaxForkAncestry = 3 * params.EpochDuration`. -/
def maxForkAncestry : ℕ := 3 * 30000

/-- The fields of a header `findAncestor` reads. -/
structure Header (η : Type) where
  hash : η
  number : ℕ

/-- The errors `findAncestor` returns, and a runtime `panic`. -/
inductive AncestorError
  | emptyHeaderSet | invalidChain | stallingPeer | timeout | invalidAncestor | badPeer | panic
  deriving DecidableEq, Repr

/-- `RequestHeadersByNumber(origin, amount, skip, false)`. -/
structure HeaderRequest where
  origin : ℕ
  amount : ℕ
  skip : ℕ
  deriving DecidableEq

/-- The local chain as `findAncestor` reads it. Its head number stays below `2^63`, where the
code's `int64(ceil)`, `int64(head)` and `int64(ceil - MaxForkAncestry)` are the numbers
themselves. -/
structure LocalChain (η : Type) where
  ceil : ℕ
  known : η → ℕ → Bool
  numberOf : η → Option ℕ
  ceil_lt : ceil < 2 ^ 63

/-- `x.Uint64()` of a header number. -/
def uint64Of (n : ℕ) : ℕ := n % 2 ^ 64

/-- `x.Int64()` of a header number. -/
def int64Of (n : ℕ) : ℤ := wrapInt64 n

variable {η : Type} (chain : LocalChain η) (respond : HeaderRequest → Option (List (Header η)))

/-- The floor of the ancestor: `MaxForkAncestry` below the head, `-1` on a shorter chain. -/
def LocalChain.floor : ℤ :=
  if chain.ceil ≥ maxForkAncestry then (chain.ceil - maxForkAncestry : ℕ) else -1

/-- `head`, the top of the sample: the local head or the peer's, the lower. -/
def sampleHead (height : ℕ) : ℕ := min chain.ceil height

/-- `from`: `MaxHeaderFetch` below the head, or the genesis. -/
def sampleFrom (height : ℕ) : ℕ := sampleHead chain height - maxHeaderFetch

/-- `limit`: at most 24 sampled headers. -/
def sampleLimit : ℕ := 2 * maxHeaderFetch / 16

/-- `count`: the samples up to the local head, at most `limit`. -/
def sampleCount (height : ℕ) : ℕ := min (1 + (chain.ceil - sampleFrom chain height) / 16) sampleLimit

/-- The ordering check of the sample: the `i`-th header is numbered `from + 16*i`. -/
def ordered (from_ : ℕ) (headers : List (Header η)) : Bool :=
  (List.range headers.length).all fun i =>
    match headers[i]? with
    | some h => decide (int64Of h.number = from_ + 16 * i)
    | none => true

/-- The loop looking for a known header from the top of the sample down, from index `i - 1`:
the index and number of the first known one within `[from, ceil]`. -/
def findKnown (from_ : ℕ) (headers : List (Header η)) : ℕ → Option (ℕ × ℕ)
  | 0 => none
  | i + 1 =>
    match headers[i]? with
    | none => findKnown from_ headers i
    | some h =>
      -- headers that underflow or overflow the requested set are skipped
      if int64Of h.number < from_ ∨ uint64Of h.number > chain.ceil then findKnown from_ headers i
      else if chain.known h.hash (uint64Of h.number) then some (i, uint64Of h.number)
      else findKnown from_ headers i

/-- The bisection of `[start, end]`: `start` known, `end` not. -/
def bisect (start end_ : ℕ) : Except AncestorError ℕ :=
  if start + 1 < end_ then
    let check := (start + end_) / 2
    match respond ⟨check, 1, 0⟩ with
    | none => .error .timeout
    | some [header] =>
      if ¬ chain.known header.hash (uint64Of header.number) then bisect start check
      else
        -- the local header of that hash surely exists; its number must be the one asked for
        match chain.numberOf header.hash with
        | none => .error .panic
        | some n => if n ≠ check then .error .badPeer else bisect check end_
    | some _ => .error .badPeer
  else .ok start
termination_by end_ - start
decreasing_by all_goals omega

/-- `findAncestor(p, height)`. -/
def findAncestor (height : ℕ) : Except AncestorError ℕ :=
  let floor := chain.floor
  let head := sampleHead chain height
  let from_ := sampleFrom chain height
  match respond ⟨from_, sampleCount chain height, 15⟩ with
  | none => .error .timeout
  | some headers =>
    if headers = [] then .error .emptyHeaderSet
    else if ¬ ordered from_ headers then .error .invalidChain
    else
      match findKnown chain from_ headers headers.length with
      | some (i, number) =>
        -- every header known, even future ones: the peer lied about its head
        if number > height ∧ i = sampleLimit - 1 then .error .stallingPeer
        else if (number : ℤ) ≤ floor then .error .invalidAncestor
        else .ok number
      | none => do
        let start ← bisect chain respond (if floor > 0 then floor.toNat else 0) head
        if (start : ℤ) ≤ floor then .error .invalidAncestor else .ok start

/-- The headers a peer whose chain `C` reaches `height` sends for a request by number towards
the leaf: the `GetBlockHeadersMsg` loop of `xdn/handler.go`, from `origin` in steps of `skip + 1`
until the first number it does not have. -/
def serveHeaders (C : ℕ → η) (height : ℕ) : ℕ → ℕ → ℕ → List (Header η)
  | _, 0, _ => []
  | origin, amount + 1, skip =>
    if origin ≤ height then ⟨C origin, origin⟩ :: serveHeaders C height (origin + (skip + 1)) amount skip
    else []

/-- An honest peer with chain `C` up to `height`: it answers every request, with at most
`MaxHeaderFetch` headers. -/
def honestPeer (C : ℕ → η) (height : ℕ) (req : HeaderRequest) : Option (List (Header η)) :=
  some (serveHeaders C height req.origin (min req.amount maxHeaderFetch) req.skip)

end GoXdn.Downloader
