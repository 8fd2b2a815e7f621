import Mathlib
import GoXdn.Lib.GoStd

/-!
# Serving header queries

The `GetBlockHeadersMsg` case of `ProtocolManager.handleMsg` in `xdn/handler.go`, with the reads of
the header chain it makes (`core/headerchain.go`). A query names its origin by hash or by number,
and the loop collects headers while fewer than `int(query.Amount)` and `MaxHeaderFetch` are
collected and the estimated size stays below `softResponseLimit`; after each header it moves the
origin on by `skip + 1` in one of four ways, by hash or number, towards the genesis or the head.

The store is the part of the chain database these reads see: the header of each hash, and the
canonical hash of each number. The 64-bit arithmetic of the query is `UInt64`, and Go's `int` of a
`uint64` is `wrapInt64`. `GetBlockHashesFromHash(...)[skip]` faults when the list is shorter, so
the handler returns `none` there.
-/

namespace GoXdn.Xdn

open GoStd

def maxHeaderFetch : ℕ := 192
def softResponseLimit : ℕ := 2 * 1024 * 1024
def estHeaderRlpSize : ℕ := 500

/-- The fields of a header the handler reads: its hash, its parent's and its number. -/
structure Header (η : Type) where
  hash : η
  parentHash : η
  number : UInt64
deriving DecidableEq

/-- The headers of the chain database by hash, and the canonical hash of each number. -/
structure HeaderStore (η : Type) where
  header : η → Option (Header η)
  canonical : UInt64 → Option η

namespace HeaderStore

variable {η : Type} (s : HeaderStore η)

/-- `GetHeader(hash, number)`: the header is stored under its number and hash. -/
def getHeader (hash : η) (number : UInt64) : Option (Header η) :=
  (s.header hash).filter fun h => h.number = number

/-- `GetHeaderByHash(hash)`. -/
def getHeaderByHash (hash : η) : Option (Header η) := s.header hash

/-- `GetHeaderByNumber(number)`, through the canonical hash. -/
def getHeaderByNumber (number : UInt64) : Option (Header η) :=
  (s.canonical number).bind fun hash => s.getHeader hash number

/-- The loop of `GetBlockHashesFromHash` from `header`: at most `k` more parent hashes, up to the
genesis. -/
def hashesFrom : ℕ → Header η → List η
  | 0, _ => []
  | k + 1, header =>
    match s.getHeader header.parentHash (header.number - 1) with
    | none => []
    | some parent => header.parentHash :: if parent.number = 0 then [] else hashesFrom k parent

/-- `GetBlockHashesFromHash(hash, max)`. -/
def getBlockHashesFromHash (hash : η) (max : UInt64) : List η :=
  match s.getHeaderByHash hash with
  | none => []
  | some header => s.hashesFrom max.toNat header

/-- The parent steps of a hash-based query towards the genesis, `k` of them: the hash and number
reached, and whether a header was missing. -/
def walkBack : ℕ → η → UInt64 → η × UInt64 × Bool
  | 0, hash, number => (hash, number, false)
  | k + 1, hash, number =>
    match s.getHeader hash number with
    | some header => walkBack k header.parentHash (number - 1)
    | none => (hash, number, true)

end HeaderStore

/-- `hashOrNumber`: an origin is named by hash unless the hash is zero. -/
structure HashOrNumber (η : Type) where
  hash : η
  number : UInt64

/-- `getBlockHeadersData`. -/
structure GetBlockHeadersData (η : Type) where
  origin : HashOrNumber η
  amount : UInt64
  skip : UInt64
  reverse : Bool

namespace HeaderStore

variable {η : Type} [DecidableEq η] (s : HeaderStore η) (zero : η)

/-- The `switch` that moves the query's origin on from the header `origin` just collected: the
query after it and whether the next header is unknown, `none` where the indexing faults. -/
def advance (q : GetBlockHeadersData η) (origin : Header η) : Option (GetBlockHeadersData η × Bool) :=
  if q.origin.hash ≠ zero ∧ q.reverse then
    -- `for i := 0; i < int(query.Skip)+1; i++`, one parent step each
    let walked := s.walkBack (wrapInt64 (wrapInt64 q.skip.toNat + 1)).toNat q.origin.hash origin.number
    some ({ q with origin := { q.origin with hash := walked.1 } }, walked.2.2)
  else if q.origin.hash ≠ zero then
    let current := origin.number
    let next := current + q.skip + 1
    if next ≤ current then some (q, true)
    else
      match s.getHeaderByNumber next with
      | some header =>
        match (s.getBlockHashesFromHash header.hash (q.skip + 1))[q.skip.toNat]? with
        | some hash =>
          if hash = q.origin.hash then some ({ q with origin := { q.origin with hash := header.hash } }, false)
          else some (q, true)
        | none => none
      | none => some (q, true)
  else if q.reverse then
    if q.origin.number ≥ q.skip + 1 then
      some ({ q with origin := { q.origin with number := q.origin.number - (q.skip + 1) } }, false)
    else some (q, true)
  else some ({ q with origin := { q.origin with number := q.origin.number + (q.skip + 1) } }, false)

/-- The gathering loop, `hashMode` fixed before it: the headers replied, `none` on a fault. Each
round adds a header and the loop stops at `MaxHeaderFetch` of them, so `MaxHeaderFetch` rounds
of fuel are as many as it can run. -/
def headersLoop (hashMode : Bool) :
    ℕ → GetBlockHeadersData η → List (Header η) → ℕ → Option (List (Header η))
  | 0, _, headers, _ => some headers
  | fuel + 1, q, headers, bytes =>
    if (headers.length : ℤ) < wrapInt64 q.amount.toNat ∧ bytes < softResponseLimit ∧
        headers.length < maxHeaderFetch then
      match (if hashMode then s.getHeaderByHash q.origin.hash else s.getHeaderByNumber q.origin.number) with
      | none => some headers
      | some origin =>
        match s.advance zero q origin with
        | none => none
        | some (q', unknown) =>
          if unknown then some (headers ++ [origin])
          else headersLoop hashMode fuel q' (headers ++ [origin]) (bytes + estHeaderRlpSize)
    else some headers

/-- `handleMsg` on a `GetBlockHeadersMsg` query: the headers `SendBlockHeaders` replies with. -/
def handleGetBlockHeaders (q : GetBlockHeadersData η) : Option (List (Header η)) :=
  s.headersLoop zero (decide (q.origin.hash ≠ zero)) maxHeaderFetch q [] 0

end HeaderStore

end GoXdn.Xdn
