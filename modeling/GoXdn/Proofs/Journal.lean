import Mathlib
import GoXdn.Lib.UndoLog
import GoXdn.State.World

/-!
# The journal undoes what it records

Every operation of `statedb.go` that changes the world records journal entries whose `undo`
gives the world back. `Within s t` says that `t` is reached from `s` that way: the journal of
`t` extends that of `s`, undoing the extension gives back the world of `s`, and the revisions
taken since lie above those of `s`. From it, `RevertToSnapshot` to any revision taken since `s`
succeeds and stays `Within s`, and reverting to the snapshot taken at `s` gives back its world.
-/

namespace GoXdn.State

open GoStd

namespace StateDb

variable (K : Hash256)

lemma world_removeObject (s : StateDb) (a : Address) (dirty : List Address) :
    ({ s with stateObjects := Function.update s.stateObjects a none,
               stateObjectsDirty := dirty } : StateDb).world = s.world.setAccount a none := by
  ext1
  · funext b
    by_cases h : b = a
    · subst h; simp [world, getStateObject]
    · simp [world, getStateObject, h]
  all_goals rfl

/-- What the journal machinery itself keeps: the journal, the valid revisions and the next
revision id. -/
def bookkeeping (s : StateDb) : List JournalEntry × List Revision × ℕ :=
  (s.journal, s.validRevisions, s.nextRevisionId)

@[simp] lemma bookkeeping_markDirty (s : StateDb) (a : Address) (o : StateObject) :
    (s.markDirty a o).bookkeeping = s.bookkeeping := by
  unfold markDirty; split_ifs <;> rfl

@[simp] lemma bookkeeping_setStateObject (s : StateDb) (a : Address) (o : StateObject) :
    (s.setStateObject a o).bookkeeping = s.bookkeeping := rfl

@[simp] lemma bookkeeping_deleteDirty (s : StateDb) (a : Address) :
    (s.deleteDirty a).bookkeeping = s.bookkeeping := rfl

@[simp] lemma bookkeeping_append (s : StateDb) (e : JournalEntry) :
    (s.append e).bookkeeping = (s.journal ++ [e], s.validRevisions, s.nextRevisionId) := rfl

@[simp] lemma journal_setStateObject (s : StateDb) (a : Address) (o : StateObject) :
    (s.setStateObject a o).journal = s.journal := rfl

@[simp] lemma validRevisions_setStateObject (s : StateDb) (a : Address) (o : StateObject) :
    (s.setStateObject a o).validRevisions = s.validRevisions := rfl

@[simp] lemma nextRevisionId_setStateObject (s : StateDb) (a : Address) (o : StateObject) :
    (s.setStateObject a o).nextRevisionId = s.nextRevisionId := rfl

@[simp] lemma journal_append (s : StateDb) (e : JournalEntry) :
    (s.append e).journal = s.journal ++ [e] := rfl

@[simp] lemma validRevisions_append (s : StateDb) (e : JournalEntry) :
    (s.append e).validRevisions = s.validRevisions := rfl

@[simp] lemma nextRevisionId_append (s : StateDb) (e : JournalEntry) :
    (s.append e).nextRevisionId = s.nextRevisionId := rfl

@[simp] lemma getStateObject_append (s : StateDb) (e : JournalEntry) (a : Address) :
    (s.append e).getStateObject a = s.getStateObject a := rfl

@[simp] lemma getStateObject_markDirty (s : StateDb) (a b : Address) (o : StateObject) :
    (s.markDirty a o).getStateObject b = s.getStateObject b := by
  unfold markDirty; split_ifs <;> rfl

@[simp] lemma journal_markDirty (s : StateDb) (a : Address) (o : StateObject) :
    (s.markDirty a o).journal = s.journal := congrArg (·.1) (bookkeeping_markDirty s a o)

@[simp] lemma validRevisions_markDirty (s : StateDb) (a : Address) (o : StateObject) :
    (s.markDirty a o).validRevisions = s.validRevisions :=
  congrArg (·.2.1) (bookkeeping_markDirty s a o)

@[simp] lemma nextRevisionId_markDirty (s : StateDb) (a : Address) (o : StateObject) :
    (s.markDirty a o).nextRevisionId = s.nextRevisionId :=
  congrArg (·.2.2) (bookkeeping_markDirty s a o)

/-- Two states with one world hold accounts alike at every address. -/
lemma getStateObject_agree {s t : StateDb} (h : s.world = t.world) (a : Address) :
    (s.getStateObject a = none ∧ t.getStateObject a = none) ∨
      ∃ o o', s.getStateObject a = some o ∧ t.getStateObject a = some o' ∧
        o.account = o'.account := by
  have hacc := getStateObject_map_account_of_world h a
  cases hs : s.getStateObject a <;> cases ht : t.getStateObject a <;> simp_all

/-- Writing back the account a state already shows changes nothing a reader sees. -/
lemma world_setStateObject_of_account {s : StateDb} {a : Address} {o o' : StateObject}
    (ho : s.getStateObject a = some o) (hacc : o'.account = o.account)
    (hdel : o'.deleted = false) : (s.setStateObject a o').world = s.world := by
  rw [world_setStateObject, hdel, hacc]
  exact World.setAccount_of_eq _ (by simp [ho])

end StateDb

namespace JournalEntry

open StateDb

lemma undo_respects_world : UndoLog.Respects JournalEntry.undo StateDb.world := by
  intro e s t h
  cases e with
  | createObjectChange a => simp [undo, world_removeObject, h]
  | resetObjectChange a prev => simp [undo, h]
  | refundChange prev =>
    show some { s.world with refund := prev } = some { t.world with refund := prev }
    rw [h]
  | addLogChange txhash =>
    show some { s.world with
        logs := Function.update s.world.logs txhash (s.world.logs txhash).dropLast,
        logSize := s.world.logSize - 1 } =
      some { t.world with
        logs := Function.update t.world.logs txhash (t.world.logs txhash).dropLast,
        logSize := t.world.logSize - 1 }
    rw [h]
  | addPreimageChange hash =>
    show some { s.world with preimages := Function.update s.world.preimages hash none } =
      some { t.world with preimages := Function.update t.world.preimages hash none }
    rw [h]
  | touchChange a prev prevDirty =>
    by_cases hp : (!prev && a != ripemd) = true
    · obtain ⟨hs, ht⟩ | ⟨o, o', hs, ht, -⟩ := getStateObject_agree h a
      · simp only [undo, if_pos hp, hs, ht, Option.map_none]
      · have hs' : (s.setStateObject a { o with touched := prev }).world = s.world :=
          world_setStateObject_of_account hs rfl (by simpa using s.getStateObject_deleted hs)
        have ht' : (t.setStateObject a { o' with touched := prev }).world = t.world :=
          world_setStateObject_of_account ht rfl (by simpa using t.getStateObject_deleted ht)
        obtain ⟨rfl, hne⟩ : prev = false ∧ a ≠ ripemd := by simpa using hp
        cases prevDirty <;> simp [undo, hne, hs, ht, hs', ht', h]
    · simp only [undo, if_neg hp, Option.map_some, h]
  | suicideChange a prev prevbalance =>
    obtain ⟨hs, ht⟩ | ⟨o, o', hs, ht, hacc⟩ := getStateObject_agree h a
    · simp [undo, hs, ht, h]
    · simp only [StateObject.account, Account.mk.injEq] at hacc
      simp [undo, hs, ht, h, hacc, s.getStateObject_deleted hs, t.getStateObject_deleted ht]
  | balanceChange a prev =>
    obtain ⟨hs, ht⟩ | ⟨o, o', hs, ht, hacc⟩ := getStateObject_agree h a
    · simp [undo, hs, ht]
    · simp only [StateObject.account, Account.mk.injEq] at hacc
      simp [undo, hs, ht, h, hacc, s.getStateObject_deleted hs, t.getStateObject_deleted ht]
  | nonceChange a prev =>
    obtain ⟨hs, ht⟩ | ⟨o, o', hs, ht, hacc⟩ := getStateObject_agree h a
    · simp [undo, hs, ht]
    · simp only [StateObject.account, Account.mk.injEq] at hacc
      simp [undo, hs, ht, h, hacc, s.getStateObject_deleted hs, t.getStateObject_deleted ht]
  | storageChange a key prevalue =>
    obtain ⟨hs, ht⟩ | ⟨o, o', hs, ht, hacc⟩ := getStateObject_agree h a
    · simp [undo, hs, ht]
    · simp only [StateObject.account, Account.mk.injEq] at hacc
      simp [undo, hs, ht, h, hacc, s.getStateObject_deleted hs, t.getStateObject_deleted ht]
  | codeChange a prevcode prevhash =>
    obtain ⟨hs, ht⟩ | ⟨o, o', hs, ht, hacc⟩ := getStateObject_agree h a
    · simp [undo, hs, ht]
    · simp only [StateObject.account, Account.mk.injEq] at hacc
      simp [undo, hs, ht, h, hacc, s.getStateObject_deleted hs, t.getStateObject_deleted ht]

/-- `undo` leaves the journal, the revisions and the next revision id alone. -/
lemma undo_bookkeeping (e : JournalEntry) {s s' : StateDb} (h : e.undo s = some s') :
    s'.bookkeeping = s.bookkeeping := by
  cases e with
  | createObjectChange a => cases h; rfl
  | resetObjectChange a prev => cases h; simp
  | suicideChange a prev prevbalance =>
    simp only [undo] at h
    split at h <;> (cases h; simp [setBalance])
  | balanceChange a prev =>
    obtain ⟨o, -, rfl⟩ := Option.map_eq_some_iff.mp h
    simp [setBalance]
  | nonceChange a prev =>
    obtain ⟨o, -, rfl⟩ := Option.map_eq_some_iff.mp h
    simp [setNonce]
  | storageChange a key prevalue =>
    obtain ⟨o, -, rfl⟩ := Option.map_eq_some_iff.mp h
    simp [setState]
  | codeChange a prevcode prevhash =>
    obtain ⟨o, -, rfl⟩ := Option.map_eq_some_iff.mp h
    simp [setCode]
  | refundChange prev => cases h; rfl
  | addLogChange txhash => cases h; rfl
  | addPreimageChange hash => cases h; rfl
  | touchChange a prev prevDirty =>
    simp only [undo] at h
    split_ifs at h
    all_goals first
      | (cases h; rfl)
      | (obtain ⟨o, -, rfl⟩ := Option.map_eq_some_iff.mp h; simp)

end JournalEntry

namespace StateDb

variable {s t u : StateDb}

lemma undoAll_bookkeeping {es : List JournalEntry} (h : UndoLog.undoAll JournalEntry.undo es s = some t) :
    t.bookkeeping = s.bookkeeping :=
  UndoLog.undoAll_preserves JournalEntry.undo (fun e _ _ h => JournalEntry.undo_bookkeeping e h) es h

/-- Undoing a log from a state with a given world: it succeeds, and gives `w`, when it does so
from any state with that world. -/
lemma undoAll_of_world {es : List JournalEntry} {w : World}
    (h : (UndoLog.undoAll JournalEntry.undo es t).map world = some w) (hst : s.world = t.world) :
    (UndoLog.undoAll JournalEntry.undo es s).map world = some w := by
  rw [JournalEntry.undo_respects_world.undoAll es hst, h]

/-- The ids of the valid revisions lie below the next id, as `Snapshot` hands them out. -/
def RevisionsBelow (s : StateDb) : Prop := ∀ r ∈ s.validRevisions, r.id < s.nextRevisionId

/-- `t` is reached from `s` by journaled changes: undoing the journal entries added since `s`
gives back the world of `s`, and the revisions taken since are above those of `s`, in the
order taken, and point into the journal past `s`'s. -/
structure Within (s t : StateDb) : Prop where
  journal : ∃ J, t.journal = s.journal ++ J ∧
    (UndoLog.undoAll JournalEntry.undo J t).map world = some s.world
  revisions : ∃ W, t.validRevisions = s.validRevisions ++ W ∧
    W.Pairwise (fun r r' => r.id < r'.id) ∧
    ∀ r ∈ W, s.nextRevisionId ≤ r.id ∧ r.id < t.nextRevisionId ∧ s.journal.length ≤ r.journalIndex
  next_le : s.nextRevisionId ≤ t.nextRevisionId

namespace Within

lemma refl (s : StateDb) : Within s s :=
  ⟨⟨[], by simp, by simp⟩, ⟨[], by simp, List.Pairwise.nil, by simp⟩, le_rfl⟩

lemma length_journal_le (h : Within s t) : s.journal.length ≤ t.journal.length := by
  obtain ⟨J, hj, -⟩ := h.journal
  simp [hj]

lemma trans (h₁ : Within s t) (h₂ : Within t u) : Within s u := by
  obtain ⟨J₁, hj₁, hu₁⟩ := h₁.journal
  obtain ⟨J₂, hj₂, hu₂⟩ := h₂.journal
  obtain ⟨W₁, hw₁, hp₁, hr₁⟩ := h₁.revisions
  obtain ⟨W₂, hw₂, hp₂, hr₂⟩ := h₂.revisions
  refine ⟨⟨J₁ ++ J₂, by rw [hj₂, hj₁, List.append_assoc], ?_⟩,
    ⟨W₁ ++ W₂, by rw [hw₂, hw₁, List.append_assoc], ?_, ?_⟩, h₁.next_le.trans h₂.next_le⟩
  · obtain ⟨v, hv, hvw⟩ := Option.map_eq_some_iff.mp hu₂
    rw [UndoLog.undoAll_append, hv]
    exact undoAll_of_world hu₁ hvw
  · exact List.pairwise_append.mpr
      ⟨hp₁, hp₂, fun r hr r' hr' => (hr₁ r hr).2.1.trans_le (hr₂ r' hr').1⟩
  · intro r hr
    rcases List.mem_append.mp hr with hr | hr
    · obtain ⟨h1, h2, h3⟩ := hr₁ r hr
      exact ⟨h1, h2.trans_le h₂.next_le, h3⟩
    · obtain ⟨h1, h2, h3⟩ := hr₂ r hr
      exact ⟨h₁.next_le.trans h1, h2, h₁.length_journal_le.trans h3⟩

/-- A change no reader sees and the journal does not record stays `Within`. -/
lemma of_world {t' : StateDb} (h : Within s t) (hw : t'.world = t.world)
    (hj : t'.journal = t.journal) (hv : t'.validRevisions = t.validRevisions)
    (hn : t.nextRevisionId ≤ t'.nextRevisionId) : Within s t' := by
  obtain ⟨J, hjt, hu⟩ := h.journal
  obtain ⟨W, hw', hp, hr⟩ := h.revisions
  refine ⟨⟨J, by rw [hj, hjt], undoAll_of_world hu hw⟩, ⟨W, by rw [hv, hw'], hp, ?_⟩,
    h.next_le.trans hn⟩
  intro r hrW
  obtain ⟨h1, h2, h3⟩ := hr r hrW
  exact ⟨h1, h2.trans_le hn, h3⟩

/-- One journal entry whose `undo` gives back the world before it. -/
lemma step {t' : StateDb} {e : JournalEntry} (h : Within s t)
    (hb : t'.bookkeeping = (t.journal ++ [e], t.validRevisions, t.nextRevisionId))
    (hu : (e.undo t').map world = some t.world) : Within s t' := by
  simp only [bookkeeping, Prod.mk.injEq] at hb
  obtain ⟨hj, hv, hn⟩ := hb
  obtain ⟨J, hjt, hJ⟩ := h.journal
  obtain ⟨W, hw', hp, hr⟩ := h.revisions
  refine ⟨⟨J ++ [e], by rw [hj, hjt, List.append_assoc], ?_⟩, ⟨W, by rw [hv, hw'], hp, ?_⟩,
    hn ▸ h.next_le⟩
  · obtain ⟨v, hv', hvw⟩ := Option.map_eq_some_iff.mp hu
    rw [UndoLog.undoAll_concat, hv']
    exact undoAll_of_world hJ hvw
  · intro r hrW
    obtain ⟨h1, h2, h3⟩ := hr r hrW
    exact ⟨h1, hn ▸ h2, h3⟩

lemma snapshot (h : Within s t) : Within s t.snapshot.1 := by
  obtain ⟨J, hjt, hJ⟩ := h.journal
  obtain ⟨W, hw', hp, hr⟩ := h.revisions
  refine ⟨⟨J, hjt, undoAll_of_world hJ rfl⟩,
    ⟨W ++ [⟨t.nextRevisionId, t.journal.length⟩], by simp [StateDb.snapshot, hw'], ?_, ?_⟩,
    h.next_le.trans (by simp [StateDb.snapshot])⟩
  · exact List.pairwise_append.mpr ⟨hp, by simp, fun r hrW r' hr' => by
      rw [List.mem_singleton] at hr'
      subst hr'
      exact (hr r hrW).2.1⟩
  · intro r hrW
    rcases List.mem_append.mp hrW with hrW | hrW
    · obtain ⟨h1, h2, h3⟩ := hr r hrW
      exact ⟨h1, by simp [StateDb.snapshot]; omega, h3⟩
    · rw [List.mem_singleton] at hrW
      subst hrW
      exact ⟨h.next_le, by simp [StateDb.snapshot], h.length_journal_le⟩

/-- With no journal entry added since `s`, the world is that of `s`. -/
lemma world_eq (h : Within s t) (hj : t.journal = s.journal) : t.world = s.world := by
  obtain ⟨J, hjt, hJ⟩ := h.journal
  have hJ0 : J = [] := by
    rw [hj] at hjt
    simpa using hjt.symm
  subst hJ0
  simpa using hJ

lemma revisionsBelow (hs : s.RevisionsBelow) (h : Within s t) : t.RevisionsBelow := by
  obtain ⟨W, hw, -, hr⟩ := h.revisions
  intro r hrt
  rw [hw] at hrt
  rcases List.mem_append.mp hrt with hrt | hrt
  · exact (hs r hrt).trans_le h.next_le
  · exact (hr r hrt).2.1

end Within

/-- `sort.Search` over the revisions finds a revision taken after every revision before it. -/
lemma findIdx_revisions {A W₁ : List Revision} (W₂ : List Revision) {r : Revision} {n : ℕ}
    (hA : ∀ x ∈ A, x.id < n) (hn : n ≤ r.id) (hW₁ : ∀ x ∈ W₁, x.id < r.id) :
    (A ++ (W₁ ++ r :: W₂)).findIdx (fun x => decide (r.id ≤ x.id)) = A.length + W₁.length := by
  have hA' : A.findIdx (fun x => decide (r.id ≤ x.id)) = A.length :=
    List.findIdx_eq_length_of_false fun x hx => by simpa using (hA x hx).trans_le hn
  have hW₁' : W₁.findIdx (fun x => decide (r.id ≤ x.id)) = W₁.length :=
    List.findIdx_eq_length_of_false fun x hx => by simpa using hW₁ x hx
  rw [List.findIdx_append, hA', if_neg (lt_irrefl _), List.findIdx_append, hW₁',
    if_neg (lt_irrefl _), List.findIdx_cons]
  simp [Nat.add_comm]

namespace Within

/-- `RevertToSnapshot` to any revision taken since `s` succeeds, cuts the journal back to that
revision, and stays `Within s`. -/
lemma revertToSnapshot (hs : s.RevisionsBelow) (h : Within s t) {r : Revision}
    (hr : r ∈ t.validRevisions) (hid : s.nextRevisionId ≤ r.id) :
    ∃ t', t.revertToSnapshot r.id = some t' ∧ Within s t' ∧
      t'.journal = t.journal.take r.journalIndex := by
  obtain ⟨J, hjt, hJ⟩ := h.journal
  obtain ⟨W, hw, hp, hW⟩ := h.revisions
  have hrW : r ∈ W := by
    rw [hw] at hr
    rcases List.mem_append.mp hr with hr' | hr'
    · exact absurd (hs r hr') (not_lt.mpr hid)
    · exact hr'
  obtain ⟨W₁, W₂, rfl⟩ := List.append_of_mem hrW
  have hW₁ : ∀ x ∈ W₁, x.id < r.id := fun x hx =>
    (List.pairwise_append.mp hp).2.2 x hx r List.mem_cons_self
  obtain ⟨hrid, -, hrj⟩ := hW r hrW
  set k := r.journalIndex - s.journal.length with hk
  have hdrop : t.journal.drop r.journalIndex = J.drop k := by
    rw [hjt, List.drop_append, List.drop_eq_nil_of_le (by omega), List.nil_append]
  have htake : t.journal.take r.journalIndex = s.journal ++ J.take k := by
    rw [hjt, List.take_append, List.take_of_length_le (by omega)]
  obtain ⟨u, hu, huw⟩ := Option.map_eq_some_iff.mp hJ
  rw [← List.take_append_drop k J] at hu
  obtain ⟨v, hv, hvu⟩ := UndoLog.undoAll_append_eq_some JournalEntry.undo hu
  have hvb := undoAll_bookkeeping hv
  simp only [bookkeeping, Prod.mk.injEq] at hvb
  have hidx := findIdx_revisions W₂ (fun x hx => hs x hx) hrid hW₁
  refine ⟨{ v with journal := t.journal.take r.journalIndex,
                   validRevisions := t.validRevisions.take (s.validRevisions.length + W₁.length) },
    ?_, ?_, rfl⟩
  · unfold StateDb.revertToSnapshot
    rw [hw, hidx]
    simp [hdrop, hv]
  · obtain ⟨-, hvv, hvn⟩ := hvb
    refine ⟨⟨J.take k, htake, undoAll_of_world (t := v) (by rw [hvu]; simp [huw]) rfl⟩,
      ⟨W₁, by rw [hw]; simp [List.take_append], (List.pairwise_append.mp hp).1, fun x hx => ?_⟩,
      hvn ▸ h.next_le⟩
    obtain ⟨h1, h2, h3⟩ := hW x (List.mem_append_left _ hx)
    exact ⟨h1, hvn ▸ h2, h3⟩

/-- Reverting to the snapshot taken at `s` gives back the world of `s`. -/
lemma revert_snapshot (hs : s.RevisionsBelow) (h : Within s.snapshot.1 t) :
    ∃ t', t.revertToSnapshot s.snapshot.2 = some t' ∧ Within s t' ∧ t'.world = s.world := by
  have hst : Within s t := (snapshot (refl s)).trans h
  obtain ⟨W, hw, -, -⟩ := h.revisions
  have hr : (⟨s.nextRevisionId, s.journal.length⟩ : Revision) ∈ t.validRevisions := by
    rw [hw]; simp [StateDb.snapshot]
  obtain ⟨t', ht', hwt, hj⟩ := hst.revertToSnapshot hs hr le_rfl
  obtain ⟨J, hjt, -⟩ := hst.journal
  refine ⟨t', ht', hwt, hwt.world_eq ?_⟩
  rw [hj, hjt]
  simp

end Within

section Ops

variable (K) (a : Address)

lemma Within.createObject (h : Within s t) : Within s (t.createObject K a).1 := by
  have hw := world_createObject K t a
  cases hp : t.getStateObject a with
  | none =>
    refine h.step (e := .createObjectChange a) (by simp [StateDb.createObject, hp]) ?_
    simp only [JournalEntry.undo, Option.map_some, world_removeObject, hw,
      World.setAccount_setAccount]
    rw [World.setAccount_of_eq _ (by simp [hp])]
  | some p =>
    refine h.step (e := .resetObjectChange a p) (by simp [StateDb.createObject, hp]) ?_
    simp only [JournalEntry.undo, Option.map_some, world_setStateObject,
      t.getStateObject_deleted hp, hw, World.setAccount_setAccount]
    rw [World.setAccount_of_eq _ (by simp [hp])]

lemma Within.getOrNewStateObject (h : Within s t) : Within s (t.getOrNewStateObject K a).1 := by
  unfold StateDb.getOrNewStateObject
  split
  · exact h
  · exact h.createObject K a

variable {a} {o : StateObject} (ho : t.getStateObject a = some o)
include ho

lemma Within.touch (h : Within s t) : Within s (t.touch a o) := by
  have hdel := t.getStateObject_deleted ho
  have hw : t.world.setAccount a (some o.account) = t.world :=
    World.setAccount_of_eq _ (by simp [ho])
  refine h.step (e := .touchChange a o.touched !o.onDirty) (by simp [StateDb.touch]) ?_
  simp only [JournalEntry.undo]
  split_ifs <;> simp [StateDb.touch, hdel, hw]

lemma Within.setBalanceJ (h : Within s t) (amount : ℤ) : Within s (t.setBalanceJ a o amount) := by
  have hdel := t.getStateObject_deleted ho
  have hw : t.world.setAccount a (some o.account) = t.world :=
    World.setAccount_of_eq _ (by simp [ho])
  refine h.step (e := .balanceChange a o.balance) (by simp [StateDb.setBalanceJ, StateDb.setBalance]) ?_
  simp [JournalEntry.undo, StateDb.setBalanceJ, StateDb.setBalance, hdel, hw]

lemma Within.setNonceJ (h : Within s t) (nonce : UInt64) :
    Within s ((t.append (.nonceChange a o.nonce)).setNonce a o nonce) := by
  have hdel := t.getStateObject_deleted ho
  have hw : t.world.setAccount a (some o.account) = t.world :=
    World.setAccount_of_eq _ (by simp [ho])
  refine h.step (e := .nonceChange a o.nonce) (by simp [StateDb.setNonce]) ?_
  simp [JournalEntry.undo, StateDb.setNonce, hdel, hw]

lemma Within.setCodeJ (h : Within s t) (codeHash code : List UInt8) :
    Within s ((t.append (.codeChange a o.code o.codeHash)).setCode a o codeHash code) := by
  have hdel := t.getStateObject_deleted ho
  have hw : t.world.setAccount a (some o.account) = t.world :=
    World.setAccount_of_eq _ (by simp [ho])
  refine h.step (e := .codeChange a o.code o.codeHash) (by simp [StateDb.setCode]) ?_
  simp [JournalEntry.undo, StateDb.setCode, hdel, hw]

lemma Within.setStateJ (h : Within s t) (key value : ℕ) :
    Within s ((t.append (.storageChange a key (o.storage key))).setState a o key value) := by
  have hdel := t.getStateObject_deleted ho
  have hw : t.world.setAccount a (some o.account) = t.world :=
    World.setAccount_of_eq _ (by simp [ho])
  refine h.step (e := .storageChange a key (o.storage key)) (by simp [StateDb.setState]) ?_
  simp [JournalEntry.undo, StateDb.setState, hdel, hw]

end Ops

section Api

variable (K) (a : Address)

/-- The object `getOrNewStateObject` hands back, in the state it leaves, `Within` the start. -/
lemma Within.getOrNew_eq (h : Within s t) {t₁ : StateDb} {o : StateObject}
    (hp : t.getOrNewStateObject K a = (t₁, o)) : Within s t₁ ∧ t₁.getStateObject a = some o :=
  ⟨by simpa [hp] using h.getOrNewStateObject K a, (getOrNewStateObject_eq K t a hp).1⟩

lemma Within.addBalance (h : Within s t) (amount : ℤ) : Within s (t.addBalance K a amount) := by
  unfold StateDb.addBalance
  rcases hp : t.getOrNewStateObject K a with ⟨t₁, o⟩
  obtain ⟨h₁, ho⟩ := h.getOrNew_eq K a hp
  dsimp only
  split_ifs
  · exact h₁.touch ho
  · exact h₁
  · exact h₁.setBalanceJ ho _

lemma Within.subBalance (h : Within s t) (amount : ℤ) : Within s (t.subBalance K a amount) := by
  unfold StateDb.subBalance
  rcases hp : t.getOrNewStateObject K a with ⟨t₁, o⟩
  obtain ⟨h₁, ho⟩ := h.getOrNew_eq K a hp
  dsimp only
  split_ifs
  · exact h₁
  · exact h₁.setBalanceJ ho _

lemma Within.setBalanceOf (h : Within s t) (amount : ℤ) :
    Within s (t.setBalanceOf K a amount) := by
  unfold StateDb.setBalanceOf
  rcases hp : t.getOrNewStateObject K a with ⟨t₁, o⟩
  obtain ⟨h₁, ho⟩ := h.getOrNew_eq K a hp
  exact h₁.setBalanceJ ho _

lemma Within.setNonceOf (h : Within s t) (nonce : UInt64) : Within s (t.setNonceOf K a nonce) := by
  unfold StateDb.setNonceOf
  rcases hp : t.getOrNewStateObject K a with ⟨t₁, o⟩
  obtain ⟨h₁, ho⟩ := h.getOrNew_eq K a hp
  exact h₁.setNonceJ ho _

lemma Within.setCodeOf (h : Within s t) (code : List UInt8) : Within s (t.setCodeOf K a code) := by
  unfold StateDb.setCodeOf
  rcases hp : t.getOrNewStateObject K a with ⟨t₁, o⟩
  obtain ⟨h₁, ho⟩ := h.getOrNew_eq K a hp
  exact h₁.setCodeJ ho _ _

lemma Within.setStateOf (h : Within s t) (key value : ℕ) :
    Within s (t.setStateOf K a key value) := by
  unfold StateDb.setStateOf
  rcases hp : t.getOrNewStateObject K a with ⟨t₁, o⟩
  obtain ⟨h₁, ho⟩ := h.getOrNew_eq K a hp
  exact h₁.setStateJ ho _ _

/-- `CreateAccount` over an existing account sets the new object's balance without a journal
entry; undoing the reset puts the whole old object back, so that write is undone as well. -/
lemma Within.createAccount (h : Within s t) : Within s (t.createAccount K a) := by
  unfold StateDb.createAccount
  cases hp : t.getStateObject a with
  | none => exact h.createObject K a
  | some prev =>
    dsimp only
    refine h.step (e := .resetObjectChange a prev)
      (by simp [StateDb.createObject, StateDb.setBalance, hp]) ?_
    have hdel := t.getStateObject_deleted hp
    simp only [JournalEntry.undo, Option.map_some, world_setStateObject, hdel,
      world_setBalance, world_createObject, World.setAccount_setAccount]
    rw [World.setAccount_of_eq _ (by simp [hp])]

lemma Within.suicide (h : Within s t) : Within s (t.suicide a).1 := by
  unfold StateDb.suicide
  cases hp : t.getStateObject a with
  | none => exact h
  | some o =>
    have hdel := t.getStateObject_deleted hp
    have hw : t.world.setAccount a (some o.account) = t.world :=
      World.setAccount_of_eq _ (by simp [hp])
    refine h.step (e := .suicideChange a o.suicided o.balance) (by simp) ?_
    simp [JournalEntry.undo, hdel, hw]

lemma Within.addLog (h : Within s t) (log : Log) : Within s (t.addLog log) := by
  refine h.step (e := .addLogChange t.thash) rfl ?_
  simp only [JournalEntry.undo, Option.map_some, Option.some_inj]
  ext1
  · rfl
  · rfl
  · funext n
    simp only [world, StateDb.addLog, append, Function.update_apply]
    split_ifs with hn
    · subst hn; simp
    · rfl
  · simp [world, StateDb.addLog, append]
  · rfl

lemma Within.addPreimage (h : Within s t) (hash : ℕ) (preimage : List UInt8) :
    Within s (t.addPreimage hash preimage) := by
  unfold StateDb.addPreimage
  cases hp : t.preimages hash with
  | some _ => exact h
  | none =>
    refine h.step (e := .addPreimageChange hash) rfl ?_
    simp only [JournalEntry.undo, Option.map_some, Option.some_inj]
    ext1
    all_goals try rfl
    funext n
    simp only [world, append, Function.update_apply]
    split_ifs with hn
    · subst hn; exact hp.symm
    · rfl

lemma Within.addRefund (h : Within s t) (gas : ℕ) : Within s (t.addRefund gas) :=
  h.step (e := .refundChange t.refund) rfl rfl

end Api

end StateDb

end GoXdn.State
