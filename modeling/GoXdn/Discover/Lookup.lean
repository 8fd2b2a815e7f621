import Mathlib
import GoXdn.Discover.Table
import GoXdn.Lib.SortSearch

/-!
# Node lookups

`Table.lookup` in `p2p/discover/table.go`: the iterative Kademlia search for the nodes closest
to a target. It starts from the `bucketSize` nodes of the table closest to the target (`closest`),
asks the `alpha` closest ones not yet asked, and pushes every node of each reply not seen before
into the result set, a `nodesByDistance` of at most `bucketSize` nodes kept in order of XOR
distance by `push`; it stops once no query is pending. The queries run in goroutines and answer
through one channel, so the model takes the replies in the order they are received, as any
sequence `replies` (each the nodes `bondall` returned for one query); each loop of the search
takes in one of them. A run that never ends is cut off by `fuel`. The table is the one `closest`
read, after the refresh the search may wait for when it is empty.
-/

namespace GoXdn.Discover

open GoStd

def alpha : ℕ := 3

/-- `distcmp(target, a, b)`: `-1` if `a` is closer to `target` than `b`, `1` if `b` is closer,
`0` if they are as close, comparing the XOR of each byte with the target's from the first. -/
def distcmp : List UInt8 → List UInt8 → List UInt8 → ℤ
  | t :: target, a :: as, b :: bs =>
    if a ^^^ t > b ^^^ t then 1 else if a ^^^ t < b ^^^ t then -1 else distcmp target as bs
  | _, _, _ => 0

/-- `nodesByDistance`: nodes in order of distance to `target`. -/
structure NodesByDistance where
  entries : List Node
  target : List UInt8

variable (K : Hash256)

namespace NodesByDistance

/-- `push(n, maxElems)`: `n` goes in at the first entry farther than it, the list growing up to
`maxElems`. -/
def push (h : NodesByDistance) (n : Node) (maxElems : ℕ) : NodesByDistance :=
  let ix := SortSearch.search
    (fun i => decide (distcmp h.target (K.sum (h.entries.getD i n).id) (K.sum n.id) > 0)) h.entries.length
  let entries := if h.entries.length < maxElems then h.entries ++ [n] else h.entries
  if ix = entries.length then { h with entries := entries }
  -- `copy(h.entries[ix+1:], h.entries[ix:])` moves the tail on by one over the last entry,
  -- then `h.entries[ix] = n`
  else { h with entries := entries.take ix ++ n :: (entries.drop ix).dropLast }

end NodesByDistance

namespace Table

/-- `closest(target, nresults)`: every node of the table pushed, bucket by bucket. -/
def closest (t : Table) (target : List UInt8) (nresults : ℕ) : NodesByDistance :=
  ((List.finRange nBuckets).flatMap t.buckets).foldl (fun close n => close.push K n nresults) ⟨[], target⟩

end Table

/-- The search's state between two replies: the IDs asked and seen, the queries pending and the
result set. -/
structure LookupState where
  asked : Finset (List UInt8)
  seen : Finset (List UInt8)
  pending : ℕ
  result : NodesByDistance

/-- The asking loop: the entries not yet asked, in order, while fewer than `alpha` queries are
pending. -/
def askLoop : List Node → Finset (List UInt8) → ℕ → Finset (List UInt8) × ℕ
  | [], asked, pending => (asked, pending)
  | n :: entries, asked, pending =>
    if pending < alpha then
      if n.id ∈ asked then askLoop entries asked pending
      else askLoop entries (insert n.id asked) (pending + 1)
    else (asked, pending)

/-- One reply taken in: each node not seen before is marked and pushed. -/
def takeReply (seen : Finset (List UInt8)) (result : NodesByDistance) :
    List Node → Finset (List UInt8) × NodesByDistance
  | [] => (seen, result)
  | n :: nodes =>
    if n.id ∈ seen then takeReply seen result nodes
    else takeReply (insert n.id seen) (result.push K n bucketSize) nodes

/-- The search loop from the `k`-th reply on: the result's entries once no query is pending. -/
def lookupLoop (replies : ℕ → List Node) : ℕ → ℕ → LookupState → Option (List Node)
  | 0, _, _ => none
  | fuel + 1, k, s =>
    let (asked, pending) := askLoop s.result.entries s.asked s.pending
    if pending = 0 then some s.result.entries
    else
      let (seen, result) := takeReply K s.seen s.result (replies k)
      lookupLoop replies fuel (k + 1) ⟨asked, seen, pending - 1, result⟩

namespace Table

/-- `lookup(targetID)`, for the replies `replies` in the order received. -/
def lookup (t : Table) (targetID : List UInt8) (replies : ℕ → List Node) (fuel : ℕ) :
    Option (List Node) :=
  lookupLoop K replies fuel 0 ⟨{t.self.id}, ∅, 0, t.closest K (K.sum targetID) bucketSize⟩

end Table

end GoXdn.Discover
