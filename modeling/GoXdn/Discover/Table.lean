import Mathlib
import GoXdn.Lib.GoStd
import GoXdn.Lib.BinaryHeap

/-!
# The discovery table

`p2p/discover/table.go` and `node.go`: the Kademlia table of the discovery protocol. It keeps
`nBuckets` buckets of at most `bucketSize` nodes, a node in the bucket named by the logarithmic
distance between the Keccak-256 of its ID and that of the local node, most recently seen first.

Every operation on the buckets holds `tab.mutex` throughout, except `add`: when the node's bucket
is full, it marks the oldest entry contested and releases the mutex while it pings that entry,
then takes the mutex back and replaces the entry only if the ping failed. The model cuts `add` at
the ping. `Table.add` is the part before it and records the pending replacement in `pinging`;
`Table.pong` is the part after it. A run is any sequence of the critical sections (`Event`), so
any operation can come between the two halves of an `add`.
-/

namespace GoXdn.Discover

open GoStd

def bucketSize : ℕ := 16
def hashBits : ℕ := 32 * 8
def nBuckets : ℕ := hashBits + 1

/-- The fields of a `Node` the table stores. Its `sha` is the Keccak-256 of `ID` wherever a node
is made (`NewNode`, `nodeDB.node`), so it is computed from the ID here. -/
structure Node where
  id : List UInt8
  ip : List UInt8
  udp : UInt16
  tcp : UInt16
deriving DecidableEq, Repr

/-- `lzcount[x]`, the number of leading zero bits of the byte `x`. -/
def lzcount (x : UInt8) : ℕ := 8 - x.toNat.size

/-- The loop of `logdist`: eight leading zero bits for each equal byte, up to the first byte
that differs. -/
def leadingZeros : List UInt8 → List UInt8 → ℕ
  | x :: a, y :: b => if x ^^^ y = 0 then 8 + leadingZeros a b else lzcount (x ^^^ y)
  | _, _ => 0

/-- `logdist`, the logarithmic distance `log2(a ^ b)` of two hashes. -/
def logdist (a b : List UInt8) : ℕ := a.length * 8 - leadingZeros a b

theorem leadingZeros_le : ∀ a b : List UInt8, leadingZeros a b ≤ a.length * 8
  | x :: a, y :: b => by
    have := leadingZeros_le a b
    simp only [leadingZeros, List.length_cons, lzcount]
    split <;> omega
  | [], _ => Nat.zero_le _
  | _ :: _, [] => Nat.zero_le _

section

variable (K : Hash256)

theorem logdist_lt (self n : Node) : logdist (K.sum self.id) (K.sum n.id) < nBuckets := by
  have := Nat.sub_le ((K.sum self.id).length * 8) (leadingZeros (K.sum self.id) (K.sum n.id))
  simp only [logdist, Hash256.length_sum, nBuckets, hashBits] at this ⊢
  omega

/-- `tab.buckets[logdist(tab.self.sha, n.sha)]`: the bucket of `n`, always one of the table's. -/
def bucketOf (self n : Node) : Fin nBuckets := ⟨logdist (K.sum self.id) (K.sum n.id), logdist_lt K self n⟩

theorem bucketOf_congr (self : Node) {n m : Node} (h : n.id = m.id) :
    bucketOf K self n = bucketOf K self m := by
  simp [bucketOf, h]

end

/-- `bucket.bump`: moves the entry with `n`'s ID to the front, as `n`; `none` if there is none. -/
def bump (entries : List Node) (n : Node) : Option (List Node) :=
  match entries.findIdx? (·.id == n.id) with
  -- `copy(b.entries[1:], b.entries[:i])`, then `b.entries[0] = n`
  | some i => some (n :: (entries.take i ++ entries.drop (i + 1)))
  | none => none

/-- `bucket.replace`: puts `n` in front unless its ID is there already. A full bucket makes room
only by dropping its last entry, and only while that entry is still `last`. -/
def replace (entries : List Node) (n : Node) (last : Option Node) : Option (List Node) :=
  if entries.any (·.id == n.id) then none
  else if entries.length == bucketSize &&
      (last.isNone || entries[bucketSize - 1]?.map (·.id) != last.map (·.id)) then none
  -- `append(b.entries, nil)` below capacity, then `copy(b.entries[1:], b.entries)`
  else some (n :: if entries.length < bucketSize then entries else entries.dropLast)

structure Table where
  self : Node
  buckets : Fin nBuckets → List Node
  /-- the adds that released the mutex to ping their bucket's oldest entry: the node to add,
  and that entry -/
  pinging : List (Node × Node)

/-- `newTable`: empty buckets. -/
def newTable (self : Node) : Table := ⟨self, fun _ => [], []⟩

namespace Table

variable (K : Hash256)

def setBucket (t : Table) (i : Fin nBuckets) (entries : List Node) : Table :=
  { t with buckets := Function.update t.buckets i entries }

@[simp] theorem setBucket_self (t : Table) (i : Fin nBuckets) (b : List Node) :
    (t.setBucket i b).self = t.self := rfl

@[simp] theorem setBucket_pinging (t : Table) (i : Fin nBuckets) (b : List Node) :
    (t.setBucket i b).pinging = t.pinging := rfl

@[simp] theorem setBucket_buckets (t : Table) (i : Fin nBuckets) (b : List Node) :
    (t.setBucket i b).buckets = Function.update t.buckets i b := rfl

/-- `Table.add` up to the ping. `contested` is the flag of the bucket's oldest entry, set while
another `add` pings it; its value depends on the other goroutines, so the model takes it as
given. -/
def add (t : Table) (new : Node) (contested : Bool) : Table :=
  let i := bucketOf K t.self new
  let b := t.buckets i
  match bump b new with
  | some b => t.setBucket i b
  | none =>
    if b.length = bucketSize then
      match b[bucketSize - 1]? with
      | some oldest =>
        if contested then t
        -- `tab.mutex.Unlock()`, then `tab.ping(oldest.ID, oldest.addr())`
        else { t with pinging := t.pinging ++ [(new, oldest)] }
      | none => t
    else
      match replace b new none with
      | some b => t.setBucket i b
      | none => t

/-- `Table.add` after the ping, with the mutex taken back: the `k`-th waiting add goes on, and
replaces the oldest entry only if it did not answer. -/
def pong (t : Table) (k : ℕ) (responded : Bool) : Table :=
  match t.pinging[k]? with
  | none => t
  | some (new, oldest) =>
    let t := { t with pinging := t.pinging.eraseIdx k }
    if responded then t
    else
      let i := bucketOf K t.self new
      match replace (t.buckets i) new (some oldest) with
      | some b => t.setBucket i b
      | none => t

/-- `Table.bond` as the table sees it: the local node's ID is refused, and the node the database
or the ping/pong yields for any other ID goes to `add`. -/
def bond (t : Table) (n : Node) (contested : Bool) : Table :=
  if n.id = t.self.id then t else t.add K n contested

/-- `Table.stuff`: appends each node to its bucket, unless it is the local node, its ID is in the
bucket already, or the bucket is full. -/
def stuff (t : Table) : List Node → Table
  | [] => t
  | n :: nodes =>
    if n.id = t.self.id then t.stuff nodes
    else
      let i := bucketOf K t.self n
      if (t.buckets i).any (·.id == n.id) then t.stuff nodes
      else if (t.buckets i).length < bucketSize then (t.setBucket i (t.buckets i ++ [n])).stuff nodes
      else t.stuff nodes

/-- `Table.delete`: removes the entry with `node`'s ID from its bucket. -/
def delete (t : Table) (node : Node) : Table :=
  let i := bucketOf K t.self node
  t.setBucket i ((t.buckets i).eraseP (·.id == node.id))

end Table

/-- The table's critical sections, each run under `tab.mutex`: `bond` (and the first half of the
`add` it makes), the second half of a waiting `add`, `stuff` from `refresh`, and `delete` from
`lookup`. -/
inductive Event where
  | bond (n : Node) (contested : Bool)
  | pong (k : ℕ) (responded : Bool)
  | stuff (nodes : List Node)
  | delete (n : Node)

namespace Table

variable (K : Hash256)

def apply (t : Table) : Event → Table
  | .bond n contested => t.bond K n contested
  | .pong k responded => t.pong K k responded
  | .stuff nodes => t.stuff K nodes
  | .delete n => t.delete K n

/-- The table after the critical sections `es`, in that order. -/
def run (t : Table) (es : List Event) : Table := es.foldl (apply K) t

end Table

namespace Table

/-- `Table.len`, the number of nodes in the buckets. -/
def len (t : Table) : ℕ := ((List.finRange nBuckets).map fun i => (t.buckets i).length).sum

end Table

/-- `randUint(max)`, with the random word `r` it reads from `crypto/rand`. -/
def randUint (max r : UInt32) : UInt32 := if max = 0 then 0 else r % max

/-- The shuffle of `ReadRandomNodes`, `i` down to `1`: slot `i` swaps with slot `randUint(i)`,
drawn from the word `rand i`. -/
def shuffle (rand : ℕ → UInt32) : ℕ → List (List Node) → List (List Node)
  | 0, buckets => buckets
  | i + 1, buckets =>
    shuffle rand i (BinaryHeap.swap buckets (i + 1) (randUint (UInt32.ofNat (i + 1)) (rand (i + 1))).toNat)

/-- The loop of `ReadRandomNodes` from `buf[i]` at slot `j` of the shuffled buckets: the buffer
and the count returned, `none` where `buckets[j]` or `b[0]` would fault. -/
def readRandomLoop (buf : List (Option Node)) (i j : ℕ) (buckets : List (List Node)) :
    Option (List (Option Node) × ℕ) :=
  if hi : i < buf.length then
    match buckets[j]? with
    | some (n :: rest) =>
      let buf := buf.set i (some n)
      -- `buckets[j] = b[1:]`, then the slot is cut out of the slice once `len(b) == 1`
      let buckets := if rest = [] then (buckets.set j rest).eraseIdx j else buckets.set j rest
      if buckets = [] then some (buf, i + 1)
      else readRandomLoop buf (i + 1) ((j + 1) % buckets.length) buckets
    | _ => none
  else some (buf, i + 1)
termination_by buf.length - i
decreasing_by simp only [List.length_set]; omega

namespace Table

/-- `ReadRandomNodes(buf)`: the buffer as written and the count returned, for the random words
`rand` of the shuffle. -/
def readRandomNodes (t : Table) (rand : ℕ → UInt32) (buf : List (Option Node)) :
    Option (List (Option Node) × ℕ) :=
  let buckets := ((List.finRange nBuckets).map t.buckets).filter fun b => 0 < b.length
  if buckets.length = 0 then some (buf, 0)
  else readRandomLoop buf 0 0 (shuffle rand (buckets.length - 1) buckets)

end Table

end GoXdn.Discover
