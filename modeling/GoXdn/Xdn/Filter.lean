import Mathlib
import GoXdn.Core.StateTransition
import GoXdn.Bloombits.Matcher

/-!
# Log queries

`xdn/filters/filter.go`: a `Filter` answers a log query over the blocks `[begin, end]` (`-1`
standing for the head) for a set of `addresses` and positional `topics`. `Logs` reads the head,
answers the blocks the bloom-bits index covers, `sections * size` of them, through a matcher
session (`indexedLogs`), and scans the headers after them one at a time, asking each header's
bloom first (`unindexedLogs`). `checkMatches` reads a block's receipts and keeps the logs that
`filterLogs` accepts. The blooms are those of `core/types/bloom9.go`: `CreateBloom` ORs the
`LogsBloom` of every receipt, which ORs `bloom9` of each log's address and topics.

A backend is the part of `Backend` the queries call. `HeaderByNumber` returns a header and an
error, and either may be `nil`; `serviceFilter bit section` is the vector `ServiceFilter`
retrieves for a session, as in `Matcher.Start`. An `int64` is an integer kept in range by
`wrapInt64`, a `uint64` a `UInt64`. A panic (of the session, or a loop that would not end) is the
error of the outer `Except`; inside it is what the Go function returns, with the filter after the
call, whose `begin` the queries move forward. The session's own error, `matcher already running`,
needs two sessions of one matcher at once, which the queries never start.
-/

namespace GoXdn.Filters

open GoXdn.Core (Bloom bloom9 BloomLookup BloomByteLength Receipt)
open GoXdn.State (Log Address)
open GoXdn.Vm (wordBytes)
open GoXdn.Bloombits GoStd

variable (K : Hash256) {η ε : Type}

/-! ## Blooms of receipts -/

/-- `common.Address.Bytes()`: the 23 big-endian bytes of an address (`AddressLength` in this
fork). -/
def addressBytes (a : Address) : List UInt8 :=
  (List.range 23).map fun i => UInt8.ofNat (a / 256 ^ (22 - i))

/-- `LogsBloom`. -/
def LogsBloom (logs : List Log) : ℕ :=
  logs.foldl (fun bin log =>
    log.topics.foldl (fun bin b => bin ||| bloom9 K (wordBytes b))
      (bin ||| bloom9 K (addressBytes log.address))) 0

/-- `BytesToBloom`, that is `SetBytes` on a zero bloom: the bytes copied to its end, and a panic
for more than `BloomByteLength` of them. -/
def BytesToBloom (b : List UInt8) : Except String Bloom :=
  if h : BloomByteLength < b.length then .error ("bloom bytes too big 256 " ++ toString b.length)
  else .ok ⟨List.replicate (BloomByteLength - b.length) 0 ++ b, by
    rw [List.length_append, List.length_replicate]
    omega⟩

/-- `CreateBloom`. -/
def CreateBloom (receipts : List Receipt) : Except String Bloom :=
  BytesToBloom (bigBytes (receipts.foldl (fun bin receipt => bin ||| LogsBloom K receipt.logs) 0))

/-! ## The filter -/

/-- The fields of a header the queries read: `Number`, `Bloom` and `Hash()`. -/
structure Header (η : Type) where
  number : ℕ
  bloom : Bloom
  hash : η

structure Backend (η ε : Type) where
  headerByNumber : ℤ → Option (Header η) × Option ε
  getReceipts : η → Except ε (List Receipt)
  /-- `BloomStatus()`: the section size and the number of sections indexed -/
  bloomStatus : UInt64 × UInt64
  serviceFilter : ℕ → UInt64 → List UInt8

/-- `rpc.LatestBlockNumber`. -/
def LatestBlockNumber : ℤ := -1

structure Filter where
  begin : ℤ
  end_ : ℤ
  addresses : List Address
  topics : List (List ℕ)
  matcher : Matcher

/-- The clauses `New` flattens the criteria into: a group of the addresses if there are any,
then a group for each topic position. -/
def newFilters (addresses : List Address) (topics : List (List ℕ)) :
    List (List (Option (List UInt8))) :=
  (if addresses.length > 0 then [addresses.map fun address => some (addressBytes address)]
    else []) ++
  topics.map fun topicList => topicList.map fun topic => some (wordBytes topic)

/-- `New`. -/
def New (backend : Backend η ε) (begin end_ : ℤ) (addresses : List Address)
    (topics : List (List ℕ)) : Filter :=
  ⟨begin, end_, addresses, topics, NewMatcher K backend.bloomStatus.1 (newFilters addresses topics)⟩

/-- `includes`. -/
def includes (addresses : List Address) (a : Address) : Bool :=
  addresses.any (· == a)

/-- The loop of `filterLogs` over the topic positions, for a log with enough topics: an empty set
matches any topic, another one the topics it holds. -/
def topicsMatch : List (List ℕ) → List ℕ → Bool
  | sub :: topics, t :: logTopics => (sub.length == 0 || sub.any (· == t)) && topicsMatch topics logTopics
  | _, _ => true

/-- `filterLogs`. A bound is read by `Int64()`, the value wrapped to an `int64`, and by
`Uint64()`, the low 64 bits of its magnitude. -/
def filterLogs (logs : List Log) (fromBlock toBlock : Option ℤ) (addresses : List Address)
    (topics : List (List ℕ)) : List Log :=
  logs.filter fun log =>
    !(fromBlock.any fun b => 0 ≤ wrapInt64 b && (UInt64.ofNat b.natAbs).toNat > log.blockNumber) &&
    !(toBlock.any fun b => 0 ≤ wrapInt64 b && (UInt64.ofNat b.natAbs).toNat < log.blockNumber) &&
    !(addresses.length > 0 && !includes addresses log.address) &&
    !(topics.length > log.topics.length) &&
    topicsMatch topics log.topics

/-- `bloomFilter`. -/
def bloomFilter (bloom : Bloom) (addresses : List Address) (topics : List (List ℕ)) : Bool :=
  (addresses.length == 0 || addresses.any fun addr => BloomLookup K bloom (addressBytes addr)) &&
    topics.all fun sub => sub.length == 0 || sub.any fun topic => BloomLookup K bloom (wordBytes topic)

namespace Filter

/-- `checkMatches`. -/
def checkMatches (f : Filter) (backend : Backend η ε) (header : Header η) : Except ε (List Log) := do
  let receipts ← backend.getReceipts header.hash
  return filterLogs (receipts.flatMap (·.logs)) none none f.addresses f.topics

/-- The loop of `indexedLogs` over the block numbers the session sends, with the logs found so
far; when the numbers run out, `begin` moves past `end`. -/
def indexedLoop (backend : Backend η ε) (end_ : UInt64) :
    Filter → List UInt64 → List Log → Filter × List Log × Option ε
  | f, [], logs => ({ f with begin := wrapInt64 (wrapInt64 end_.toNat + 1) }, logs, none)
  | f, number :: numbers, logs =>
    let f := { f with begin := wrapInt64 (wrapInt64 number.toNat + 1) }
    match backend.headerByNumber (wrapInt64 number.toNat) with
    | (some header, none) =>
      match f.checkMatches backend header with
      | .error err => (f, logs, some err)
      | .ok found => indexedLoop backend end_ f numbers (logs ++ found)
    | (_, err) => (f, logs, err)

/-- `indexedLogs`. -/
def indexedLogs (f : Filter) (backend : Backend η ε) (end_ : UInt64) :
    Except String (Filter × List Log × Option ε) := do
  let numbers ← f.matcher.Start backend.serviceFilter (UInt64.ofInt f.begin) end_
  return indexedLoop backend end_ f numbers []

/-- The loop of `unindexedLogs` from `f.begin`, with the logs found so far. `fuel` bounds its
turns: a run that ends by its condition takes at most `2 ^ 64 + 1`, as `begin` steps through the
`int64`s. -/
def unindexedLoop (backend : Backend η ε) (end_ : UInt64) :
    ℕ → Filter → List Log → Except String (Filter × List Log × Option ε)
  | 0, _, _ => .error "loop does not end"
  | fuel + 1, f, logs =>
    if f.begin ≤ wrapInt64 end_.toNat then
      match backend.headerByNumber f.begin with
      | (some header, none) =>
        if bloomFilter K header.bloom f.addresses f.topics then
          match f.checkMatches backend header with
          | .error err => .ok (f, logs, some err)
          | .ok found =>
            unindexedLoop backend end_ fuel { f with begin := wrapInt64 (f.begin + 1) } (logs ++ found)
        else unindexedLoop backend end_ fuel { f with begin := wrapInt64 (f.begin + 1) } logs
      | (_, err) => .ok (f, logs, err)
    else .ok (f, logs, none)

/-- `unindexedLogs`. -/
def unindexedLogs (f : Filter) (backend : Backend η ε) (end_ : UInt64) :
    Except String (Filter × List Log × Option ε) :=
  unindexedLoop K backend end_ (2 ^ 64 + 1) f []

/-- What `Logs` does once the range is resolved: the indexed blocks first if the index reaches
past `begin`, then the scan, which a failed indexed part does not reach. -/
def gather (f : Filter) (backend : Backend η ε) (end_ : UInt64) :
    Except String (Filter × List Log × Option ε) :=
  let indexed := backend.bloomStatus.2 * backend.bloomStatus.1
  if UInt64.ofInt f.begin < indexed then do
    let (f, logs, err) ← f.indexedLogs backend (if end_ < indexed then end_ else indexed - 1)
    match err with
    | some err => return (f, logs, some err)
    | none => do
      let (f, rest, err) ← f.unindexedLogs K backend end_
      return (f, logs ++ rest, err)
  else f.unindexedLogs K backend end_

/-- `Logs`. -/
def Logs (f : Filter) (backend : Backend η ε) : Except String (Filter × List Log × Option ε) :=
  match (backend.headerByNumber LatestBlockNumber).1 with
  | none => .ok (f, [], none)
  | some header =>
    let head := UInt64.ofNat header.number
    let f := if f.begin = -1 then { f with begin := wrapInt64 head.toNat } else f
    f.gather K backend (if f.end_ = -1 then head else UInt64.ofInt f.end_)

end Filter

end GoXdn.Filters
