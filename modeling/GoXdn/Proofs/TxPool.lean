import Mathlib
import GoXdn.Core.TxPool

/-!
# `Status` reads through a missing pending list

`Status` looks up the sender's pending list for every pooled transaction it is asked about, and
faults just where the sender has none (`status_eq_none_iff`). A sender whose transactions are all
queued has none: `enqueueTx` puts a transaction in `all` and `queue` and leaves `pending` as it was,
so in a new pool every transaction `enqueueTx` takes makes `Status` of its hash fault
(`status_panics_after_enqueue`). That is where `add` puts a transaction with a nonce gap, and
`promoteExecutables` leaves it there.
-/

namespace GoXdn.Core

theorem mapM_option_eq_none_iff {β γ : Type} (f : β → Option γ) :
    ∀ l : List β, l.mapM f = none ↔ ∃ a ∈ l, f a = none
  | [] => by simp
  | a :: l => by
    rw [List.mapM_cons, List.exists_mem_cons_iff]
    rcases hf : f a with _ | b
    · simp
    · rw [← mapM_option_eq_none_iff f l]
      cases l.mapM f <;> simp

namespace TxPool

variable {α η τ : Type} [DecidableEq α] [DecidableEq η]
  (nonce : τ → UInt64) (cost gas gasPrice : τ → ℤ) (sender : τ → α) (hash : τ → η)
  (priceBump : UInt64)

/-- `Status` faults just where a hash names a pooled transaction whose sender has no pending list. -/
theorem status_eq_none_iff (pool : TxPool α η τ) (hashes : List η) :
    pool.status nonce sender hashes = none ↔
      ∃ h ∈ hashes, ∃ tx, pool.all.lookup h = some tx ∧ pool.pending.lookup (sender tx) = none := by
  rw [status, mapM_option_eq_none_iff]
  refine exists_congr fun h => and_congr_right fun _ => ?_
  rcases hall : pool.all.lookup h with _ | tx
  · simp
  · rcases hpend : pool.pending.lookup (sender tx) with _ | list
    · simp [hpend]
    · simp [hpend]

/-- `enqueueTx` leaves the pending lists as they are. -/
theorem enqueueTx_pending (pool : TxPool α η τ) (h : η) (tx : τ) :
    (pool.enqueueTx nonce cost gas gasPrice sender hash priceBump h tx).1.pending = pool.pending := by
  unfold enqueueTx
  dsimp only
  split_ifs <;> rfl

/-- Into a queue with no transaction of its nonce, `enqueueTx` puts the transaction in `all`. -/
theorem enqueueTx_all {pool : TxPool α η τ} {tx : τ}
    (hfree : (((pool.queue.lookup (sender tx)).getD (newTxList false)).txs.get (nonce tx)) = none)
    (h : η) : (pool.enqueueTx nonce cost gas gasPrice sender hash priceBump h tx).1.all.lookup h = some tx := by
  unfold enqueueTx
  simp only [TxList.add, hfree, TxList.rejects, Bool.false_eq_true, if_false, not_true_eq_false]
  exact Finmap.lookup_insert _

/-- In a new pool, every transaction `enqueueTx` takes makes `Status` of its hash fault: its
sender has a queue and no pending list. -/
theorem status_panics_after_enqueue (tx : τ) :
    ((newTxPool : TxPool α η τ).enqueueTx nonce cost gas gasPrice sender hash priceBump (hash tx) tx).1.status
      nonce sender [hash tx] = none := by
  rw [status_eq_none_iff]
  refine ⟨hash tx, List.mem_singleton_self _, tx, enqueueTx_all nonce cost gas gasPrice sender hash priceBump
    (by simp [newTxPool, newTxList, newTxSortedMap, TxSortedMap.get]) _, ?_⟩
  rw [enqueueTx_pending]
  exact Finmap.lookup_empty _

end TxPool

end GoXdn.Core
