import Mathlib
import GoXdn.Proofs.Journal

/-!
# Reverting to a snapshot

A caller drives `statedb.go` by a sequence of its setters, with snapshots taken and reverted to
in between. From a snapshot, whatever such a sequence does, provided every revert in it goes back
to a snapshot taken inside it, `RevertToSnapshot` to the snapshot succeeds, gives back every value
a getter reads, and leaves valid exactly the revisions taken before.
-/

namespace GoXdn.State

open GoStd

/-- The calls a caller makes on a `StateDB`. -/
inductive StateOp
  | addBalance (a : Address) (amount : ℤ)
  | subBalance (a : Address) (amount : ℤ)
  | setBalance (a : Address) (amount : ℤ)
  | setNonce (a : Address) (nonce : UInt64)
  | setCode (a : Address) (code : List UInt8)
  | setState (a : Address) (key value : ℕ)
  | suicide (a : Address)
  | createAccount (a : Address)
  | addLog (log : Log)
  | addRefund (gas : ℕ)
  | addPreimage (hash : ℕ) (preimage : List UInt8)
  | snapshot
  | revertToSnapshot (revid : ℕ)

namespace StateOp

variable (K : Hash256)

/-- One call; `none` where `RevertToSnapshot` panics. -/
def run : StateOp → StateDb → Option StateDb
  | addBalance a amount, s => some (s.addBalance K a amount)
  | subBalance a amount, s => some (s.subBalance K a amount)
  | setBalance a amount, s => some (s.setBalanceOf K a amount)
  | setNonce a nonce, s => some (s.setNonceOf K a nonce)
  | setCode a code, s => some (s.setCodeOf K a code)
  | setState a key value, s => some (s.setStateOf K a key value)
  | suicide a, s => some (s.suicide a).1
  | createAccount a, s => some (s.createAccount K a)
  | addLog log, s => some (s.addLog log)
  | addRefund gas, s => some (s.addRefund gas)
  | addPreimage hash preimage, s => some (s.addPreimage hash preimage)
  | snapshot, s => some s.snapshot.1
  | revertToSnapshot revid, s => s.revertToSnapshot revid

/-- A sequence of calls, stopping at a panic. -/
def runAll : List StateOp → StateDb → Option StateDb
  | [], s => some s
  | op :: ops, s => (op.run K s).bind (runAll ops)

/-- The revisions the reverts of a sequence go back to. -/
def revertIds : List StateOp → List ℕ
  | [] => []
  | revertToSnapshot revid :: ops => revid :: revertIds ops
  | _ :: ops => revertIds ops

end StateOp

namespace StateDb

/-- What the getters of `statedb.go` read: `Exist`, `Empty`, `GetBalance`, `GetNonce`,
`GetCode`, `GetCodeHash`, `GetState` and `HasSuicided` at every address and key, `GetRefund`,
the logs with their index counter, and the preimages. -/
structure SameObservables (K : Hash256) (s t : StateDb) : Prop where
  exist : ∀ a, s.exist a = t.exist a
  empty : ∀ a, s.empty K a = t.empty K a
  getBalance : ∀ a, s.getBalance a = t.getBalance a
  getNonce : ∀ a, s.getNonce a = t.getNonce a
  getCode : ∀ a, s.getCode a = t.getCode a
  getCodeHash : ∀ a, s.getCodeHash a = t.getCodeHash a
  getState : ∀ a key, s.getState a key = t.getState a key
  hasSuicided : ∀ a, s.hasSuicided a = t.hasSuicided a
  refund : s.refund = t.refund
  logs : s.logs = t.logs
  logSize : s.logSize = t.logSize
  preimages : s.preimages = t.preimages

/-- `Empty`: no account, or one with no nonce, no balance and no code. -/
lemma empty_eq (K : Hash256) (s : StateDb) (a : Address) :
    s.empty K a = (!s.exist a || (s.getNonce a == 0 && s.getBalance a == 0 &&
      s.getCodeHash a == emptyCodeHash K)) := by
  unfold empty exist getNonce getBalance getCodeHash StateObject.empty
  cases s.getStateObject a <;> rfl

section Getters

variable {s t : StateDb} (h : s.world = t.world) (a : Address)
include h

lemma getState_of_world (key : ℕ) : s.getState a key = t.getState a key := by
  have := congrArg (Option.map (·.storage key)) (getStateObject_map_account_of_world h a)
  simpa [getState, Option.map_map, Function.comp_def] using congrArg (·.getD 0) this

lemma hasSuicided_of_world : s.hasSuicided a = t.hasSuicided a := by
  have := congrArg (Option.map Account.suicided) (getStateObject_map_account_of_world h a)
  simpa [hasSuicided, Option.map_map, Function.comp_def] using congrArg (·.getD false) this

lemma empty_of_world (K : Hash256) : s.empty K a = t.empty K a := by
  rw [empty_eq, empty_eq, exist_of_world h, getNonce_of_world h, getBalance_of_world h,
    getCodeHash_of_world h]

end Getters

/-- The world holds everything a getter reads. -/
lemma sameObservables_of_world (K : Hash256) {s t : StateDb} (h : s.world = t.world) :
    SameObservables K s t where
  exist := exist_of_world h
  empty a := empty_of_world h a K
  getBalance := getBalance_of_world h
  getNonce := getNonce_of_world h
  getCode := getCode_of_world h
  getCodeHash := getCodeHash_of_world h
  getState := getState_of_world h
  hasSuicided := hasSuicided_of_world h
  refund := congrArg World.refund h
  logs := congrArg World.logs h
  logSize := congrArg World.logSize h
  preimages := congrArg World.preimages h

/-- A revert that succeeds went back to a valid revision with that id. -/
lemma revertToSnapshot_mem {t t' : StateDb} {revid : ℕ} (h : t.revertToSnapshot revid = some t') :
    ∃ r ∈ t.validRevisions, r.id = revid := by
  unfold revertToSnapshot at h
  dsimp only at h
  split at h
  · cases h
  rename_i r hr
  split_ifs at h with hid
  exact ⟨r, List.mem_of_getElem? hr, not_not.1 hid⟩

/-- The revisions left valid by a revert are those taken before it. -/
lemma revertToSnapshot_ids {t u : StateDb} {revid : ℕ} (h : t.revertToSnapshot revid = some u) :
    ∀ r ∈ u.validRevisions, r.id < revid := by
  unfold revertToSnapshot at h
  dsimp only at h
  split at h
  · cases h
  split_ifs at h
  obtain ⟨v, -, rfl⟩ := Option.map_eq_some_iff.1 h
  intro r hr
  rw [List.mem_iff_getElem] at hr
  obtain ⟨i, hi, rfl⟩ := hr
  rw [List.length_take] at hi
  rw [List.getElem_take]
  have := List.not_of_lt_findIdx (lt_of_lt_of_le hi (min_le_left _ _))
  simpa using this

end StateDb

namespace StateOp

open StateDb

variable {K : Hash256} {s : StateDb} (hs : s.RevisionsBelow)
include hs

/-- Every call stays within the journal of `s`, a revert when it goes back to a revision taken
since `s`. -/
lemma run_within {op : StateOp} (hop : ∀ revid, op = revertToSnapshot revid → s.nextRevisionId ≤ revid)
    {t t' : StateDb} (h : Within s t) (hrun : op.run K t = some t') : Within s t' := by
  cases op with
  | addBalance a amount => cases hrun; exact h.addBalance K a amount
  | subBalance a amount => cases hrun; exact h.subBalance K a amount
  | setBalance a amount => cases hrun; exact h.setBalanceOf K a amount
  | setNonce a nonce => cases hrun; exact h.setNonceOf K a nonce
  | setCode a code => cases hrun; exact h.setCodeOf K a code
  | setState a key value => cases hrun; exact h.setStateOf K a key value
  | suicide a => cases hrun; exact h.suicide a
  | createAccount a => cases hrun; exact h.createAccount K a
  | addLog log => cases hrun; exact h.addLog log
  | addRefund gas => cases hrun; exact h.addRefund gas
  | addPreimage hash preimage => cases hrun; exact h.addPreimage hash preimage
  | snapshot => cases hrun; exact h.snapshot
  | revertToSnapshot revid =>
    obtain ⟨r, hr, rfl⟩ := revertToSnapshot_mem hrun
    obtain ⟨t'', ht'', hw, -⟩ := h.revertToSnapshot hs hr (hop r.id rfl)
    rw [run, ht''] at hrun
    cases hrun
    exact hw

/-- A whole sequence stays within the journal of `s`, by induction over it. -/
lemma runAll_within : ∀ (ops : List StateOp), (∀ revid ∈ revertIds ops, s.nextRevisionId ≤ revid) →
    ∀ {t t' : StateDb}, Within s t → runAll K ops t = some t' → Within s t'
  | [], _, _, _, h, hrun => by
    cases hrun
    exact h
  | op :: ops, hids, t, t', h, hrun => by
    rw [runAll] at hrun
    obtain ⟨t₁, h₁, hrest⟩ := Option.bind_eq_some_iff.1 hrun
    have hop : ∀ revid, op = revertToSnapshot revid → s.nextRevisionId ≤ revid := by
      rintro revid rfl
      exact hids revid (by simp [revertIds])
    have hids' : ∀ revid ∈ revertIds ops, s.nextRevisionId ≤ revid := by
      intro revid hr
      apply hids revid
      cases op <;> simp [revertIds, hr]
    exact runAll_within ops hids' (run_within hs hop h h₁) hrest

end StateOp

/-- `RevertToSnapshot(id)` after `id = Snapshot()` and any sequence of calls whose reverts go back
to snapshots taken after `id` succeeds, gives back every value a getter reads, and leaves valid
the revisions taken before `id` and no other. -/
theorem revertToSnapshot_restores (K : Hash256) {s : StateDb} (hs : s.RevisionsBelow)
    (ops : List StateOp) (hnest : ∀ revid ∈ StateOp.revertIds ops, s.snapshot.2 < revid)
    {t : StateDb} (h : StateOp.runAll K ops s.snapshot.1 = some t) :
    ∃ u, t.revertToSnapshot s.snapshot.2 = some u ∧ StateDb.SameObservables K u s ∧
      u.validRevisions = s.validRevisions := by
  have hs₁ : s.snapshot.1.RevisionsBelow := ((StateDb.Within.refl s).snapshot).revisionsBelow hs
  have hw : StateDb.Within s.snapshot.1 t :=
    StateOp.runAll_within hs₁ ops (fun revid hr => hnest revid hr) (StateDb.Within.refl _) h
  obtain ⟨u, hu, hsu, hwu⟩ := hw.revert_snapshot hs
  obtain ⟨W, hW, -, hr⟩ := hsu.revisions
  refine ⟨u, hu, StateDb.sameObservables_of_world K hwu, ?_⟩
  have hW0 : W = [] := by
    refine List.eq_nil_iff_forall_not_mem.2 fun r hrW => ?_
    have hlt := StateDb.revertToSnapshot_ids hu r (by rw [hW]; exact List.mem_append_right _ hrW)
    exact absurd (hr r hrW).1 (not_le.2 hlt)
  rw [hW, hW0, List.append_nil]

/-- Account 10 with 100 wei, as loaded from the trie. -/
def revertDb : StateDb :=
  ⟨fun a => if a = 10 then some ⟨0, 100, Hash256.zero.sum [], [], fun _ => 0, false, false, false,
      true⟩ else none, [], 0, 0, 0, 0, fun _ => [], 0, fun _ => none, [], [], 0⟩

/-- After the outer snapshot (id 0): a transfer, a nested snapshot (id 1) with a nonce and a
storage write reverted, then a self-destruct and a new account. -/
def revertOps : List StateOp :=
  [.subBalance 10 30, .addBalance 11 30, .snapshot, .setNonce 10 7, .setState 11 1 2,
    .revertToSnapshot 1, .suicide 10, .createAccount 12, .addRefund 5]

theorem revertToSnapshot_restores_sample :
    revertDb.RevisionsBelow ∧ (∀ revid ∈ StateOp.revertIds revertOps, revertDb.snapshot.2 < revid) ∧
      ∃ u, ((StateOp.runAll Hash256.zero revertOps revertDb.snapshot.1).getD revertDb).revertToSnapshot
        revertDb.snapshot.2 = some u ∧ StateDb.SameObservables Hash256.zero u revertDb ∧
        u.validRevisions = revertDb.validRevisions :=
  have hs : revertDb.RevisionsBelow := fun _ hr => absurd hr List.not_mem_nil
  have hnest : ∀ revid ∈ StateOp.revertIds revertOps, revertDb.snapshot.2 < revid := by
    decide
  ⟨hs, hnest, revertToSnapshot_restores Hash256.zero hs revertOps hnest rfl⟩

end GoXdn.State
