import Mathlib
import GoXdn.Core.TxList

/-!
# The transaction pool's lists

The maps of `TxPool` in `core/tx_pool.go` that `Status` reads: `all` by hash, and the `txList`s
`pending` and `queue` by sender. Lists come into the maps only through `enqueueTx` and `promoteTx`,
and leave them through `removeTx` and the loops that call it. The sender (`types.Sender`, already
validated) and the hash of a transaction are functions of it, and a map of addresses or hashes a
`Finmap`. `priced`, `beats`, `locals` and the pending nonces are not modelled: `Status` reads none
of them.
-/

namespace GoXdn.Core

/-- `TxStatus`. -/
inductive TxStatus
  | unknown
  | queued
  | pending
  | included
  deriving DecidableEq, Repr

/-- The errors the modelled functions return. -/
inductive PoolError
  | replaceUnderpriced
  deriving DecidableEq, Repr

def PoolError.text : PoolError → String
  | .replaceUnderpriced => "replacement transaction underpriced"

/-- The maps of `TxPool`, from senders `α` and hashes `η`. -/
structure TxPool (α η τ : Type) where
  all : Finmap fun _ : η => τ
  pending : Finmap fun _ : α => TxList τ
  queue : Finmap fun _ : α => TxList τ

variable {α η τ : Type} [DecidableEq α] [DecidableEq η]
  (nonce : τ → UInt64) (cost gas gasPrice : τ → ℤ) (sender : τ → α) (hash : τ → η)
  (priceBump : UInt64)

/-- The maps of `NewTxPool`. -/
def newTxPool : TxPool α η τ := ⟨∅, ∅, ∅⟩

namespace TxPool

/-- `Status(hashes)`: `none` where `pool.pending[from].txs` reads through a `nil` list. -/
def status (pool : TxPool α η τ) (hashes : List η) : Option (List TxStatus) :=
  hashes.mapM fun h =>
    match pool.all.lookup h with
    | none => some .unknown
    | some tx =>
      match pool.pending.lookup (sender tx) with
      | none => none
      | some list => some (if (list.txs.items.lookup (nonce tx)).isSome then .pending else .queued)

/-- `enqueueTx(hash, tx)`: whether it replaced a transaction. A list made for the sender stays in
`queue` even where `Add` turns the transaction away. -/
def enqueueTx (pool : TxPool α η τ) (h : η) (tx : τ) : TxPool α η τ × Except PoolError Bool :=
  let (list, inserted, old) :=
    ((pool.queue.lookup (sender tx)).getD (newTxList false)).add nonce cost gas gasPrice tx priceBump
  let queue := pool.queue.insert (sender tx) list
  if ¬ inserted then ({ pool with queue := queue }, .error .replaceUnderpriced)
  else
    let all := match old with
      | some old => pool.all.erase (hash old)
      | none => pool.all
    ({ pool with queue := queue, all := all.insert h tx }, .ok old.isSome)

/-- `promoteTx(addr, hash, tx)`: a transaction `Add` turns away leaves `all`. -/
def promoteTx (pool : TxPool α η τ) (addr : α) (h : η) (tx : τ) : TxPool α η τ :=
  let (list, inserted, old) :=
    ((pool.pending.lookup addr).getD (newTxList true)).add nonce cost gas gasPrice tx priceBump
  let pending := pool.pending.insert addr list
  if ¬ inserted then { pool with pending := pending, all := pool.all.erase h }
  else
    let all := match old with
      | some old => pool.all.erase (hash old)
      | none => pool.all
    { pool with pending := pending, all := if all.lookup h = none then all.insert h tx else all }

/-- The end of `removeTx`, for a transaction found in no pending list: out of the sender's
queue, and the queue out of the map once empty. -/
def removeQueued (pool : TxPool α η τ) (tx : τ) (o : MapOrder τ) : TxPool α η τ :=
  match pool.queue.lookup (sender tx) with
  | none => pool
  | some future =>
    let future := (future.remove nonce tx o).1
    { pool with
      queue := if future.empty then pool.queue.erase (sender tx) else pool.queue.insert (sender tx) future }

/-- `removeTx(hash)`: out of `all`, and out of the sender's pending list, whose transactions past
it go back to the queue unless the list is left empty, or else out of its queue. -/
def removeTx (pool : TxPool α η τ) (h : η) (o : MapOrder τ) : TxPool α η τ :=
  match pool.all.lookup h with
  | none => pool
  | some tx =>
    let pool := { pool with all := pool.all.erase h }
    match pool.pending.lookup (sender tx) with
    | none => pool.removeQueued nonce sender tx o
    | some list =>
      let (list, removed, invalids) := list.remove nonce tx o
      if removed then
        if list.empty then { pool with pending := pool.pending.erase (sender tx) }
        else
          invalids.foldl (fun pool tx => (pool.enqueueTx nonce cost gas gasPrice sender hash priceBump
            (hash tx) tx).1) { pool with pending := pool.pending.insert (sender tx) list }
      else pool.removeQueued nonce sender tx o

end TxPool

end GoXdn.Core
