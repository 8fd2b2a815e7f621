import Mathlib
import GoXdn.Consensus.Dao
import GoXdn.Proofs.Balances
import GoXdn.Proofs.Journal

/-!
# The DAO hard fork creates no value

Each step of `ApplyDAOHardFork` adds an account's balance to the refund contract's and then
sets it to zero: value moves, and none is created (`Drains.drain`). So the whole loop creates
none, whatever accounts the list holds (`Drains.foldl_drain`), and the journal records all of
it.
-/

namespace GoXdn.State.World

open GoStd

variable (K : Hash256)

lemma bal_setBalance (w : World) (a : Address) (x : ℤ) (b : Address) :
    (w.setBalance K a x).bal b = if b = a then x else w.bal b := by
  simp [setBalance, bal_setAccount]

/-- One step of the fork on the abstract state: the balance of `a` added to `r`'s, then `a`
emptied. -/
def drain (r : Address) (w : World) (a : Address) : World :=
  (w.addBalance K r (w.bal a)).setBalance K a 0

lemma bal_drain {r a : Address} (w : World) (b : Address) :
    (drain K r w a).bal b = if b = a then 0 else if b = r then w.bal r + w.bal a else w.bal b := by
  rw [drain, bal_setBalance, bal_addBalance]

variable {K}

theorem Drains.drain (r a : Address) (w : World) : Drains w (World.drain K r w a) :=
  .of_move (bal_drain K w)

/-- By induction on the list, one step of the fork at a time. -/
theorem Drains.foldl_drain (r : Address) :
    ∀ (l : List Address) (w : World), Drains w (l.foldl (World.drain K r) w)
  | [], w => .refl w
  | a :: l, w => (Drains.drain r a w).trans (Drains.foldl_drain r l _)

end GoXdn.State.World

namespace GoXdn.Consensus

open GoStd State StateDb

variable (K : Hash256)

/-- The state the fork starts its loop from: the refund contract created if it was missing. -/
theorem world_applyDAOHardFork (statedb : StateDb) :
    (applyDAOHardFork K statedb).world =
      daoDrainList.foldl (World.drain K daoRefundContract)
        (if statedb.exist daoRefundContract then statedb.world
          else statedb.world.createAccount K daoRefundContract) := by
  have hfold : ∀ (l : List Address) (s : StateDb),
      (l.foldl (fun s addr =>
        (s.addBalance K daoRefundContract (s.getBalance addr)).setBalanceOf K addr 0) s).world =
        l.foldl (World.drain K daoRefundContract) s.world := by
    intro l
    induction l with
    | nil => intro s; rfl
    | cons a l ih =>
      intro s
      rw [List.foldl_cons, List.foldl_cons, ih, world_setBalanceOf, world_addBalance,
        getBalance_eq_bal]
      rfl
  unfold applyDAOHardFork
  rw [hfold]
  split_ifs <;> simp_all

theorem applyDAOHardFork_drains (statedb : StateDb) :
    World.Drains statedb.world (applyDAOHardFork K statedb).world := by
  rw [world_applyDAOHardFork]
  refine World.Drains.trans (.of_bal ?_) (World.Drains.foldl_drain daoRefundContract _ _)
  split_ifs <;> simp

/-- Every write of the fork is journaled. -/
theorem applyDAOHardFork_within (statedb : StateDb) :
    Within statedb (applyDAOHardFork K statedb) := by
  have hfold : ∀ (l : List Address) (s : StateDb), Within statedb s →
      Within statedb (l.foldl (fun s addr =>
        (s.addBalance K daoRefundContract (s.getBalance addr)).setBalanceOf K addr 0) s) := by
    intro l
    induction l with
    | nil => exact fun _ h => h
    | cons a l ih =>
      intro s h
      exact ih _ ((h.addBalance K daoRefundContract _).setBalanceOf K a 0)
  unfold applyDAOHardFork
  refine hfold _ _ ?_
  split_ifs
  · exact (Within.refl _).createAccount K daoRefundContract
  · exact Within.refl _

end GoXdn.Consensus
