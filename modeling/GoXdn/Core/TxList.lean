import Mathlib
import GoXdn.Lib.GoStd
import GoXdn.Lib.BinaryHeap

/-!
# Nonce-sorted transaction lists

`txSortedMap` and `txList` of `core/tx_list.go`. The map `items` is a `Finmap` from nonces, the
index a `nonceHeap` that `container/heap` keeps, and `cache` the sorted transactions, `none` for
Go's `nil`. A transaction is any type `τ`, read through its nonce and, for `txList`, its cost, gas
and gas price; the `*big.Int` amounts are integers. A `*types.Transaction` read out of the map by a
nonce it may lack is an `Option τ`.

Go ranges over a map in an order of its own choosing, a new one each time: a function that ranges
over `items` takes that order as an argument, the entries or the keys in the order the loop meets
them (`MapOrder`). `sort.Sort` sorts `uint64`s and nonces, which are distinct in a map keyed by
nonce, so any sorting algorithm gives the one sorted order `mergeSort` gives.
-/

namespace GoXdn.Core

open GoStd

/-- `nonceHeap.Less`: `uint64`s compare by `<`. An instance only where a heap of nonces is. -/
@[reducible] def nonceOrder : LinearOrder UInt64 where
  le_refl a := UInt64.le_iff_toNat_le.mpr le_rfl
  le_trans a b c hab hbc := UInt64.le_iff_toNat_le.mpr
    ((UInt64.le_iff_toNat_le.mp hab).trans (UInt64.le_iff_toNat_le.mp hbc))
  le_antisymm a b hab hba := UInt64.toNat_inj.mp
    (le_antisymm (UInt64.le_iff_toNat_le.mp hab) (UInt64.le_iff_toNat_le.mp hba))
  le_total a b := by simp only [UInt64.le_iff_toNat_le]; omega
  lt_iff_le_not_ge a b := by simp only [UInt64.le_iff_toNat_le, UInt64.lt_iff_toNat_lt]; omega
  toDecidableLE := inferInstance
  toDecidableLT := inferInstance
  toDecidableEq := inferInstance

section SortedMap

attribute [local instance] nonceOrder

/-- A map from nonces, as `items` holds transactions. -/
abbrev Items (τ : Type) := Finmap fun _ : UInt64 => τ

/-- The order in which one `range` over a map meets its entries, and one over the map it leaves
meets its keys. -/
structure MapOrder (τ : Type) where
  entries : List (Σ _ : UInt64, τ)
  keys : List UInt64

/-- `txSortedMap`. -/
structure TxSortedMap (τ : Type) where
  items : Items τ
  index : List UInt64
  cache : Option (List τ)

variable {τ : Type} (nonce : τ → UInt64)

/-- `newTxSortedMap()`. -/
def newTxSortedMap : TxSortedMap τ := ⟨∅, [], none⟩

namespace TxSortedMap

/-- `Get(nonce)`. -/
def get (m : TxSortedMap τ) (n : UInt64) : Option τ := m.items.lookup n

/-- `Len()`. -/
def len (m : TxSortedMap τ) : ℕ := m.items.keys.card

/-- `Put(tx)`: a nonce new to the map is pushed on the index. -/
def put (m : TxSortedMap τ) (tx : τ) : TxSortedMap τ :=
  { items := m.items.insert (nonce tx) tx
    index := if m.items.lookup (nonce tx) = none then BinaryHeap.push m.index (nonce tx) else m.index
    cache := none }

/-- The loop of `Forward`: pop the least nonce while it is below the threshold. -/
def forwardLoop (threshold : UInt64) (items : Items τ) (index : List UInt64) (removed : List (Option τ)) :
    Items τ × List UInt64 × List (Option τ) :=
  if index ≠ [] ∧ index.getD 0 default < threshold then
    match _hp : BinaryHeap.pop index with
    | some (index', n) => forwardLoop threshold (items.erase n) index' (removed ++ [items.lookup n])
    | none => (items, index, removed)
  else (items, index, removed)
termination_by index.length
decreasing_by have := BinaryHeap.length_pop _hp; omega

/-- `Forward(threshold)`: `m.cache[len(removed):]` panics on a cache shorter than what went. -/
def forward (m : TxSortedMap τ) (threshold : UInt64) : Option (TxSortedMap τ × List (Option τ)) :=
  let (items, index, removed) := forwardLoop threshold m.items m.index []
  match m.cache with
  | none => some (⟨items, index, none⟩, removed)
  | some cache =>
    if removed.length ≤ cache.length then some (⟨items, index, some (cache.drop removed.length)⟩, removed)
    else none

/-- The loop of `Filter` over the entries, deleting those the filter takes. -/
def filterLoop (p : τ → Bool) : List (Σ _ : UInt64, τ) → Items τ → List τ → Items τ × List τ
  | [], items, removed => (items, removed)
  | ⟨n, tx⟩ :: rest, items, removed =>
    if p tx then filterLoop p rest (items.erase n) (removed ++ [tx]) else filterLoop p rest items removed

/-- `Filter(filter)`: where anything went, the index is built again from the keys left. -/
def filter (m : TxSortedMap τ) (p : τ → Bool) (o : MapOrder τ) : TxSortedMap τ × List τ :=
  let (items, removed) := filterLoop p o.entries m.items []
  if removed.length > 0 then (⟨items, BinaryHeap.init o.keys, none⟩, removed)
  else (⟨items, m.index, m.cache⟩, removed)

/-- The loop of `Cap` over the sorted index, `size` counting down from `len(m.items)`:
`(*m.index)[size-1]` panics past the index, and at `size = 0` for a negative threshold. -/
def capLoop (threshold : ℤ) (sorted : List UInt64) : ℕ → Items τ → List (Option τ) →
    Option (Items τ × List (Option τ))
  | 0, items, drops => if threshold < 0 then none else some (items, drops)
  | size + 1, items, drops =>
    if threshold < size + 1 then
      match sorted[size]? with
      | none => none
      | some n => capLoop threshold sorted size (items.erase n) (drops ++ [items.lookup n])
    else some (items, drops)

/-- `Cap(threshold)`: the cache loses as many at its end as went, and panics if it is shorter. -/
def cap (m : TxSortedMap τ) (threshold : ℤ) : Option (TxSortedMap τ × List (Option τ)) :=
  if (m.len : ℤ) ≤ threshold then some (m, [])
  else
    let sorted := m.index.mergeSort
    (capLoop threshold sorted m.len m.items []).bind fun (items, drops) =>
      let index := BinaryHeap.init (sorted.take threshold.toNat)
      match m.cache with
      | none => some (⟨items, index, none⟩, drops)
      | some cache =>
        if drops.length ≤ cache.length then
          some (⟨items, index, some (cache.take (cache.length - drops.length))⟩, drops)
        else none

/-- `Remove(nonce)`: the first place of the nonce in the index is removed from the heap. -/
def remove (m : TxSortedMap τ) (n : UInt64) : TxSortedMap τ × Bool :=
  if n ∉ m.items then (m, false)
  else
    let index :=
      match BinaryHeap.remove m.index (m.index.idxOf n) with
      | some (index, _) => index
      -- the loop met no such nonce
      | none => m.index
    (⟨m.items.erase n, index, none⟩, true)

/-- The loop of `Ready`: take the least nonce while it is `next`, and count `next` up. -/
def readyLoop (items : Items τ) (index : List UInt64) (next : UInt64) (ready : List (Option τ)) :
    Items τ × List UInt64 × List (Option τ) :=
  if index ≠ [] ∧ index.getD 0 default = next then
    match _hp : BinaryHeap.pop index with
    | some (index', _) => readyLoop (items.erase next) index' (next + 1) (ready ++ [items.lookup next])
    | none => (items, index, ready)
  else (items, index, ready)
termination_by index.length
decreasing_by have := BinaryHeap.length_pop _hp; omega

/-- `Ready(start)`: nothing where the least nonce is above `start`. -/
def ready (m : TxSortedMap τ) (start : UInt64) : TxSortedMap τ × List (Option τ) :=
  if m.index = [] ∨ m.index.getD 0 default > start then (m, [])
  else
    let (items, index, ready) := readyLoop m.items m.index (m.index.getD 0 default) []
    (⟨items, index, none⟩, ready)

/-- `Flatten()`, which ranges over the map's entries only when nothing is cached. -/
def flatten (m : TxSortedMap τ) (entries : List (Σ _ : UInt64, τ)) : TxSortedMap τ × List τ :=
  match m.cache with
  | some cache => (m, cache)
  | none =>
    let cache := (entries.map Sigma.snd).mergeSort fun a b => nonce a ≤ nonce b
    ({ m with cache := some cache }, cache)

/-- The calls a `txSortedMap` takes, with the orders in which Go ranges over its map. -/
inductive Op (τ : Type)
  | put (tx : τ)
  | forward (threshold : UInt64)
  | filter (p : τ → Bool) (o : MapOrder τ)
  | cap (threshold : ℤ)
  | remove (n : UInt64)
  | ready (start : UInt64)
  | flatten (entries : List (Σ _ : UInt64, τ))

/-- The map a call leaves, `none` where it panics. -/
def apply (m : TxSortedMap τ) : Op τ → Option (TxSortedMap τ)
  | .put tx => some (m.put nonce tx)
  | .forward threshold => (m.forward threshold).map Prod.fst
  | .filter p o => some (m.filter p o).1
  | .cap threshold => (m.cap threshold).map Prod.fst
  | .remove n => some (m.remove n).1
  | .ready start => some (m.ready start).1
  | .flatten entries => some (m.flatten nonce entries).1

/-- The orders a call ranges in are orders of the map as it then is. -/
def Op.Valid (m : TxSortedMap τ) : Op τ → Prop
  | .filter p o => (o.entries : Multiset _) = m.items.entries ∧
      (o.keys : Multiset _) = (filterLoop p o.entries m.items []).1.keys.val
  | .flatten entries => (entries : Multiset _) = m.items.entries
  | _ => True

/-- The maps a sequence of calls on a new map reaches. -/
inductive Reachable : TxSortedMap τ → Prop
  | new : Reachable newTxSortedMap
  | step {m m' : TxSortedMap τ} {op : Op τ} : Reachable m → op.Valid m → m.apply nonce op = some m' →
      Reachable m'

end TxSortedMap

end SortedMap

/-! ### `txList` -/

/-- `txList`. -/
structure TxList (τ : Type) where
  strict : Bool
  txs : TxSortedMap τ
  costcap : ℤ
  gascap : ℤ

variable {τ : Type} (nonce : τ → UInt64) (cost gas gasPrice : τ → ℤ)

/-- `newTxList(strict)`. -/
def newTxList (strict : Bool) : TxList τ := ⟨strict, newTxSortedMap, 0, 0⟩

namespace TxList

/-- `Overlaps(tx)`. -/
def overlaps (l : TxList τ) (tx : τ) : Bool := (l.txs.get (nonce tx)).isSome

/-- Whether `Add` turns `tx` away for the transaction `old` of its nonce: a replacement must pay
more than the old one, and at least `priceBump` percent more, by `int64` arithmetic. -/
def rejects (old : Option τ) (tx : τ) (priceBump : UInt64) : Bool :=
  match old with
  | none => false
  | some old =>
    let threshold := gasPrice old * wrapInt64 (100 + wrapInt64 priceBump.toNat) / 100
    decide (gasPrice tx ≤ gasPrice old ∨ gasPrice tx < threshold)

/-- `Add(tx, priceBump)`: whether it went in, and the transaction it replaced. -/
def add (l : TxList τ) (tx : τ) (priceBump : UInt64) : TxList τ × Bool × Option τ :=
  let old := l.txs.get (nonce tx)
  if rejects gasPrice old tx priceBump then (l, false, none)
  else
    ({ l with
        txs := l.txs.put nonce tx
        costcap := if l.costcap < cost tx then cost tx else l.costcap
        gascap := if l.gascap < gas tx then gas tx else l.gascap }, true, old)

/-- `Forward(threshold)`. -/
def forward (l : TxList τ) (threshold : UInt64) : Option (TxList τ × List (Option τ)) :=
  (l.txs.forward threshold).map fun (txs, removed) => ({ l with txs := txs }, removed)

/-- What the filter of `Filter` takes. -/
def exceeds (costLimit gasLimit : ℤ) (tx : τ) : Bool := costLimit < cost tx ∨ gasLimit < gas tx

/-- The least nonce among the removed, from `math.MaxUint64`. -/
def lowestNonce (removed : List τ) : UInt64 :=
  removed.foldl (fun lowest tx => if lowest > nonce tx then nonce tx else lowest) 18446744073709551615

/-- `Filter(costLimit, gasLimit)`: the removed and, in strict mode, the invalidated; nothing where
the caps are within the limits, which otherwise become the caps. The two filters range over the
map in the orders `o₁` and `o₂`. -/
def filter (l : TxList τ) (costLimit gasLimit : ℤ) (o₁ o₂ : MapOrder τ) : TxList τ × List τ × List τ :=
  if l.costcap ≤ costLimit ∧ l.gascap ≤ gasLimit then (l, [], [])
  else
    let (txs, removed) := l.txs.filter (exceeds cost gas costLimit gasLimit) o₁
    if l.strict ∧ removed.length > 0 then
      let lowest := lowestNonce nonce removed
      let (txs, invalids) := txs.filter (fun tx => lowest < nonce tx) o₂
      (⟨l.strict, txs, costLimit, gasLimit⟩, removed, invalids)
    else (⟨l.strict, txs, costLimit, gasLimit⟩, removed, [])

/-- `Cap(threshold)`. -/
def cap (l : TxList τ) (threshold : ℤ) : Option (TxList τ × List (Option τ)) :=
  (l.txs.cap threshold).map fun (txs, drops) => ({ l with txs := txs }, drops)

/-- `Remove(tx)`: whether it was there and, in strict mode, the transactions it invalidates. -/
def remove (l : TxList τ) (tx : τ) (o : MapOrder τ) : TxList τ × Bool × List τ :=
  let (txs, found) := l.txs.remove (nonce tx)
  if ¬ found then ({ l with txs := txs }, false, [])
  else if l.strict then
    let (txs, invalids) := txs.filter (fun t => nonce tx < nonce t) o
    ({ l with txs := txs }, true, invalids)
  else ({ l with txs := txs }, true, [])

/-- `Ready(start)`. -/
def ready (l : TxList τ) (start : UInt64) : TxList τ × List (Option τ) :=
  let (txs, ready) := l.txs.ready start
  ({ l with txs := txs }, ready)

/-- `Len()`. -/
def len (l : TxList τ) : ℕ := l.txs.len

/-- `Empty()`. -/
def empty (l : TxList τ) : Bool := l.len = 0

/-- `Flatten()`. -/
def flatten (l : TxList τ) (entries : List (Σ _ : UInt64, τ)) : TxList τ × List τ :=
  let (txs, flat) := l.txs.flatten nonce entries
  ({ l with txs := txs }, flat)

/-- The calls that change a `txList`, with the orders in which Go ranges over its map. -/
inductive Op (τ : Type)
  | add (tx : τ) (priceBump : UInt64)
  | forward (threshold : UInt64)
  | filter (costLimit gasLimit : ℤ) (o₁ o₂ : MapOrder τ)
  | cap (threshold : ℤ)
  | remove (tx : τ) (o : MapOrder τ)
  | ready (start : UInt64)

/-- The list a call leaves, `none` where it panics. -/
def apply (l : TxList τ) : Op τ → Option (TxList τ)
  | .add tx priceBump => some (l.add nonce cost gas gasPrice tx priceBump).1
  | .forward threshold => (l.forward threshold).map Prod.fst
  | .filter costLimit gasLimit o₁ o₂ => some (l.filter nonce cost gas costLimit gasLimit o₁ o₂).1
  | .cap threshold => (l.cap threshold).map Prod.fst
  | .remove tx o => some (l.remove nonce tx o).1
  | .ready start => some (l.ready start).1

/-- Each `Filter` of the map in a call ranges over the map as it then is. -/
def Op.Valid (l : TxList τ) : Op τ → Prop
  | .filter costLimit gasLimit o₁ o₂ =>
    let m := (l.txs.filter (exceeds cost gas costLimit gasLimit) o₁).1
    TxSortedMap.Op.Valid l.txs (.filter (exceeds cost gas costLimit gasLimit) o₁) ∧
      TxSortedMap.Op.Valid m (.filter (fun tx => lowestNonce nonce
        (l.txs.filter (exceeds cost gas costLimit gasLimit) o₁).2 < nonce tx) o₂)
  | .remove tx o => TxSortedMap.Op.Valid (l.txs.remove (nonce tx)).1 (.filter (fun t => nonce tx < nonce t) o)
  | _ => True

/-- The lists a sequence of calls on a new list reaches. -/
inductive Reachable (strict : Bool) : TxList τ → Prop
  | new : Reachable strict (newTxList strict)
  | step {l l' : TxList τ} {op : Op τ} : Reachable strict l → op.Valid nonce cost gas l →
      l.apply nonce cost gas gasPrice op = some l' → Reachable strict l'

end TxList

end GoXdn.Core
