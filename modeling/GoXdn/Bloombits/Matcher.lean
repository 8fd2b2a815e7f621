import Mathlib
import GoXdn.Core.Bloom9
import GoXdn.Lib.Bitutil

/-!
# The bloom-bits matcher

`core/bloombits/matcher.go`: a `Matcher` answers a log filter from the bloom-bits index. Its
filter is a list of groups of clauses (addresses, then each topic position): a block may match
when, in every group, some clause has its three bloom bits set. `Matcher.run` chains one
`subMatch` stage per group behind a source of sections; a stage fetches the vectors of the bits
its clauses need, ANDs them per clause, ORs the clauses, ANDs the result into the section's vector
and passes the section on only if a bit is left. `Matcher.Start` reads what leaves the chain and
sends the numbers of the blocks whose bit is set, within `[begin, end]`.

Each stage and the sink is one goroutine reading its input channel in order, and a bit's
scheduler hands back, in the order the sections were asked for, the vectors its retrievers
deliver, each section retrieved once however often it is asked for (`scheduler.go`, modelled in
`GoXdn.Bloombits.Scheduler`); so what the sink reads is the source's sections, in order, each
through the stages in turn. The model states that sequence directly: `fetch bit section` is the
vector the retrievers deliver.
-/

namespace GoXdn.Bloombits

open GoXdn.Core Bitutil GoStd

variable (K : Hash256)

/-- `calcBloomIndexes`: the three bloom bits of a key, from the first six bytes of its
Keccak-256. -/
def calcBloomIndexes (b : List UInt8) : List ℕ :=
  let b := K.sum b
  (List.range 3).map fun i => (((b.getD (2 * i) 0).toNat <<< 8) &&& 2047) + (b.getD (2 * i + 1) 0).toNat

structure Matcher where
  sectionSize : UInt64
  /-- the groups `NewMatcher` keeps, each clause as its bloom bits -/
  filters : List (List (List ℕ))

/-- `NewMatcher`: a group that is empty, or that holds a `nil` clause, is skipped (it would
match every block); each clause of the other groups becomes its bloom bits. -/
def NewMatcher (sectionSize : UInt64) (filters : List (List (Option (List UInt8)))) : Matcher :=
  ⟨sectionSize, filters.filterMap fun filter =>
    if filter.length = 0 then none
    else filter.mapM fun clause => clause.map (calcBloomIndexes K)⟩

/-- `partialMatches`: a section, and the vector of its blocks still in the running. -/
structure PartialMatches where
  sectionIndex : UInt64
  bitset : List UInt8

namespace Matcher

/-- A turn of the loop that builds a clause's `andVector` in `subMatch`: the first vector is
copied, the next ones ANDed in. -/
def andStep (n : ℕ) (fetch : ℕ → UInt64 → List UInt8) (sectionIndex : UInt64)
    (andVector : Option (List UInt8)) (bit : ℕ) : Option (List UInt8) :=
  let data := fetch bit sectionIndex
  match andVector with
  | none => some (copy (List.replicate n 0) data)
  | some andVector => some (ANDBytes andVector data)

/-- The `andVector` of a clause: the AND of the vectors of its bits, `nil` for no bits. -/
def andVector (n : ℕ) (fetch : ℕ → UInt64 → List UInt8) (sectionIndex : UInt64) (bits : List ℕ) :
    Option (List UInt8) :=
  bits.foldl (andStep n fetch sectionIndex) none

/-- A turn of the loop that builds a group's `orVector`: the first clause's `andVector` is taken,
the next ones ORed in. -/
def orStep (n : ℕ) (fetch : ℕ → UInt64 → List UInt8) (sectionIndex : UInt64)
    (orVector : Option (List UInt8)) (bits : List ℕ) : Option (List UInt8) :=
  let andVector := Matcher.andVector n fetch sectionIndex bits
  match orVector with
  | none => andVector
  | some orVector => some (ORBytes orVector (andVector.getD []))

/-- The `orVector` of a group: the OR of its clauses' `andVector`s, `nil` for no clauses. -/
def orVector (n : ℕ) (fetch : ℕ → UInt64 → List UInt8) (sectionIndex : UInt64)
    (bloom : List (List ℕ)) : Option (List UInt8) :=
  bloom.foldl (orStep n fetch sectionIndex) none

/-- The `subMatch` stage of the group `bloom`, on one section: `none` if it is not passed on. -/
def subMatch (m : Matcher) (fetch : ℕ → UInt64 → List UInt8) (bloom : List (List ℕ))
    (subres : PartialMatches) : Option PartialMatches :=
  let n := (m.sectionSize / 8).toNat
  let orVector := (orVector n fetch subres.sectionIndex bloom).getD (List.replicate n 0)
  -- `subres.bitset` is never `nil`: the source and every stage send a vector
  let orVector := ANDBytes orVector subres.bitset
  if TestBytes orVector then some ⟨subres.sectionIndex, orVector⟩ else none

/-- The sections `run` feeds in, `begin / sectionSize` to `end / sectionSize`, each with a
vector of ones. -/
def source (m : Matcher) (begin end_ : UInt64) : List PartialMatches :=
  (List.range' (begin / m.sectionSize).toNat
      ((end_ / m.sectionSize).toNat + 1 - (begin / m.sectionSize).toNat)).map fun i =>
    ⟨i.toUInt64, List.replicate (m.sectionSize / 8).toNat 0xff⟩

/-- A section through the chain of stages, one per group. -/
def chain (m : Matcher) (fetch : ℕ → UInt64 → List UInt8) (subres : PartialMatches) :
    Option PartialMatches :=
  m.filters.foldlM (fun subres bloom => m.subMatch fetch bloom subres) subres

/-- `Matcher.run`: what the sink channel carries, in order. -/
def run (m : Matcher) (fetch : ℕ → UInt64 → List UInt8) (begin end_ : UInt64) :
    List PartialMatches :=
  (m.source begin end_).filterMap (m.chain fetch)

/-- The loop of `Start` over a section's blocks, from block `i`. `fuel` bounds its turns: a run
that ends by its condition takes at most `2 ^ 64`, as `i` grows at each. -/
def emit (bitset : List UInt8) (sectionStart last : UInt64) : ℕ → UInt64 → Except String (List UInt64)
  | 0, _ => .error "loop does not end"
  | fuel + 1, i =>
    if i ≤ last then
      match bitset[((i - sectionStart) / 8).toNat]? with
      | none => .error "index out of range"
      | some next =>
        if next = 0 then
          -- a zero byte that starts at `i` is skipped whole: `i += 7`, then `i++`
          emit bitset sectionStart last fuel ((if i % 8 = 0 then i + 7 else i) + 1)
        else if next &&& (1 <<< (7 - i % 8).toNat.toUInt8) ≠ 0 then
          (i :: ·) <$> emit bitset sectionStart last fuel (i + 1)
        else emit bitset sectionStart last fuel (i + 1)
    else .ok []

/-- The blocks `Start` sends for one section from the sink: its blocks within `[begin, end]`. -/
def sendSection (m : Matcher) (begin end_ : UInt64) (res : PartialMatches) :
    Except String (List UInt64) :=
  let sectionStart := res.sectionIndex * m.sectionSize
  let first := if begin > sectionStart then begin else sectionStart
  let last := sectionStart + m.sectionSize - 1
  let last := if end_ < last then end_ else last
  emit res.bitset sectionStart last (2 ^ 64 + 1) first

/-- `Matcher.Start`, run to the end: the block numbers the session sends on `results`, in order,
or the panic that stops it. -/
def Start (m : Matcher) (fetch : ℕ → UInt64 → List UInt8) (begin end_ : UInt64) :
    Except String (List UInt64) :=
  if m.sectionSize = 0 then .error "integer divide by zero"
  else List.flatten <$> (m.run fetch begin end_).mapM (m.sendSection begin end_)

end Matcher

end GoXdn.Bloombits
