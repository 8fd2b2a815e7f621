import Mathlib
import GoXdn.State.StateDb

/-!
# What a reader of the state sees

The abstract state behind `StateDB`: every account as `getStateObject` shows it (a deleted
object is no account), the refund counter, the logs and the preimages. The journal, the valid
revisions, the dirty set, the dirty hooks and the touched flags are bookkeeping the getters never
show; two states with one `world` are alike to every getter of `statedb.go`.
-/

namespace GoXdn.State

open GoStd

structure Account where
  nonce : UInt64
  balance : ℤ
  codeHash : List UInt8
  code : List UInt8
  storage : ℕ → ℕ
  suicided : Bool

def StateObject.account (o : StateObject) : Account :=
  ⟨o.nonce, o.balance, o.codeHash, o.code, o.storage, o.suicided⟩

@[simp] lemma StateObject.account_mk (n : UInt64) (b : ℤ) (ch c : List UInt8) (st : ℕ → ℕ)
    (su t d od : Bool) :
    StateObject.account ⟨n, b, ch, c, st, su, t, d, od⟩ = ⟨n, b, ch, c, st, su⟩ := rfl

@[simp] lemma StateObject.account_eta (o : StateObject) :
    (⟨o.nonce, o.balance, o.codeHash, o.code, o.storage, o.suicided⟩ : Account) = o.account := rfl

@[simp] lemma StateObject.account_nonce (o : StateObject) : o.account.nonce = o.nonce := rfl
@[simp] lemma StateObject.account_balance (o : StateObject) : o.account.balance = o.balance := rfl
@[simp] lemma StateObject.account_codeHash (o : StateObject) :
    o.account.codeHash = o.codeHash := rfl
@[simp] lemma StateObject.account_code (o : StateObject) : o.account.code = o.code := rfl
@[simp] lemma StateObject.account_storage (o : StateObject) : o.account.storage = o.storage := rfl
@[simp] lemma StateObject.account_suicided (o : StateObject) :
    o.account.suicided = o.suicided := rfl

@[ext]
structure World where
  accounts : Address → Option Account
  refund : ℕ
  logs : ℕ → List Log
  logSize : ℕ
  preimages : ℕ → Option (List UInt8)

/-- The account `getOrNewStateObject` would create. -/
def emptyAccount (K : Hash256) : Account := (newObject K).account

namespace World

variable (K : Hash256) (w : World)

/-- The world with the account at `a` replaced. -/
def setAccount (a : Address) (acc : Option Account) : World :=
  { w with accounts := Function.update w.accounts a acc }

/-- The account at `a`, or the one `getOrNewStateObject` would create there. -/
def account (a : Address) : Account := (w.accounts a).getD (emptyAccount K)

/-! The operations of the abstract state. Each setter of `statedb.go` creates a missing account
first, so each writes `account` back with one field changed. -/

def addBalance (a : Address) (amount : ℤ) : World :=
  w.setAccount a (some { w.account K a with balance := (w.account K a).balance + amount })

def subBalance (a : Address) (amount : ℤ) : World :=
  w.setAccount a (some { w.account K a with balance := (w.account K a).balance - amount })

def setBalance (a : Address) (amount : ℤ) : World :=
  w.setAccount a (some { w.account K a with balance := amount })

def setNonce (a : Address) (nonce : UInt64) : World :=
  w.setAccount a (some { w.account K a with nonce := nonce })

def setCode (a : Address) (code : List UInt8) : World :=
  w.setAccount a (some { w.account K a with codeHash := K.sum code, code := code })

def setState (a : Address) (key value : ℕ) : World :=
  w.setAccount a (some { w.account K a with
    storage := Function.update (w.account K a).storage key value })

def createAccount (a : Address) : World :=
  w.setAccount a (some { emptyAccount K with
    balance := ((w.accounts a).map (·.balance)).getD 0 })

def suicide (a : Address) : World :=
  match w.accounts a with
  | none => w
  | some acc => w.setAccount a (some { acc with suicided := true, balance := 0 })

def addLog (thash : ℕ) (log : Log) : World :=
  { w with logs := Function.update w.logs thash (w.logs thash ++ [log]),
           logSize := w.logSize + 1 }

def addPreimage (hash : ℕ) (preimage : List UInt8) : World :=
  match w.preimages hash with
  | some _ => w
  | none => { w with preimages := Function.update w.preimages hash (some preimage) }

def addRefund (gas : ℕ) : World := { w with refund := w.refund + gas }

@[simp] lemma accounts_setAccount (a b : Address) (acc : Option Account) :
    (w.setAccount a acc).accounts b = if b = a then acc else w.accounts b := by
  simp [setAccount, Function.update_apply]

@[simp] lemma setAccount_setAccount (a : Address) (acc acc' : Option Account) :
    (w.setAccount a acc).setAccount a acc' = w.setAccount a acc' := by
  simp [setAccount]

lemma setAccount_of_eq {a : Address} {acc : Option Account} (h : w.accounts a = acc) :
    w.setAccount a acc = w := by
  subst h; simp [setAccount]

end World

namespace StateDb

def world (s : StateDb) : World :=
  ⟨fun a => (s.getStateObject a).map StateObject.account, s.refund, s.logs, s.logSize, s.preimages⟩

variable (K : Hash256) (s : StateDb)

section Getters

variable {s} {t : StateDb} (h : s.world = t.world) (a : Address)
include h

lemma getStateObject_map_account_of_world :
    (s.getStateObject a).map StateObject.account = (t.getStateObject a).map StateObject.account :=
  congrFun (congrArg World.accounts h) a

lemma exist_of_world : s.exist a = t.exist a := by
  have := getStateObject_map_account_of_world h a
  unfold exist
  cases hs : s.getStateObject a <;> cases ht : t.getStateObject a <;> simp_all

lemma getBalance_of_world : s.getBalance a = t.getBalance a := by
  have := congrArg (Option.map Account.balance) (getStateObject_map_account_of_world h a)
  simpa [getBalance, Option.map_map, Function.comp_def] using congrArg (·.getD 0) this

lemma getNonce_of_world : s.getNonce a = t.getNonce a := by
  have := congrArg (Option.map Account.nonce) (getStateObject_map_account_of_world h a)
  simpa [getNonce, Option.map_map, Function.comp_def] using congrArg (·.getD 0) this

lemma getCode_of_world : s.getCode a = t.getCode a := by
  have := congrArg (Option.map Account.code) (getStateObject_map_account_of_world h a)
  simpa [getCode, Option.map_map, Function.comp_def] using congrArg (·.getD []) this

lemma getCodeHash_of_world : s.getCodeHash a = t.getCodeHash a := by
  have := congrArg (Option.map Account.codeHash) (getStateObject_map_account_of_world h a)
  simpa [getCodeHash, Option.map_map, Function.comp_def] using
    congrArg (·.getD (List.replicate 32 0)) this

end Getters

@[simp] lemma getStateObject_setStateObject (a b : Address) (o : StateObject) :
    (s.setStateObject a o).getStateObject b =
      if b = a then (if o.deleted then none else some o) else s.getStateObject b := by
  unfold getStateObject setStateObject
  by_cases h : b = a
  · subst h; simp
  · simp [h]

lemma getStateObject_deleted {a : Address} {o : StateObject} (h : s.getStateObject a = some o) :
    o.deleted = false := by
  unfold getStateObject at h
  split at h
  · split at h
    · cases h
    · cases h; simpa using ‹¬o.deleted = true›
  · cases h

@[simp] lemma world_setStateObject (a : Address) (o : StateObject) :
    (s.setStateObject a o).world =
      s.world.setAccount a (if o.deleted then none else some o.account) := by
  ext1
  · funext b
    by_cases h : b = a
    · subst h; simp [world, World.setAccount]; split_ifs <;> rfl
    · simp [world, World.setAccount, h]
  all_goals rfl

@[simp] lemma world_append (e : JournalEntry) : (s.append e).world = s.world := rfl

@[simp] lemma world_markDirty (a : Address) (o : StateObject) :
    (s.markDirty a o).world = s.world := by
  unfold markDirty; split_ifs <;> rfl

@[simp] lemma world_deleteDirty (a : Address) : (s.deleteDirty a).world = s.world := rfl

/-- The setters of `state_object.go` write the object back with one field changed. -/
@[simp] lemma world_setBalance (a : Address) (o : StateObject) (amount : ℤ) :
    (s.setBalance a o amount).world = (s.setStateObject a { o with balance := amount }).world := by
  simp [setBalance]

@[simp] lemma world_setNonce (a : Address) (o : StateObject) (nonce : UInt64) :
    (s.setNonce a o nonce).world = (s.setStateObject a { o with nonce := nonce }).world := by
  simp [setNonce]

@[simp] lemma world_setCode (a : Address) (o : StateObject) (codeHash code : List UInt8) :
    (s.setCode a o codeHash code).world =
      (s.setStateObject a { o with codeHash := codeHash, code := code }).world := by
  simp [setCode]

@[simp] lemma world_setState (a : Address) (o : StateObject) (key value : ℕ) :
    (s.setState a o key value).world =
      (s.setStateObject a { o with storage := Function.update o.storage key value }).world := by
  simp [setState]

@[simp] lemma world_accounts (a : Address) :
    s.world.accounts a = (s.getStateObject a).map StateObject.account := rfl

@[simp] lemma world_touch (a : Address) (o : StateObject) :
    (s.touch a o).world = (s.setStateObject a o).world := by
  simp [touch]

@[simp] lemma world_setBalanceJ (a : Address) (o : StateObject) (amount : ℤ) :
    (s.setBalanceJ a o amount).world = (s.setStateObject a { o with balance := amount }).world := by
  simp [setBalanceJ]

lemma world_account_of_getStateObject {a : Address} {o : StateObject}
    (h : s.getStateObject a = some o) : s.world.account K a = o.account := by
  simp [World.account, h]

@[simp] lemma world_createObject (a : Address) :
    (s.createObject K a).1.world = s.world.setAccount a (some (emptyAccount K)) := by
  simp [createObject, emptyAccount, newObject]

lemma getOrNewStateObject_spec (a : Address) :
    (s.getOrNewStateObject K a).1.getStateObject a = some (s.getOrNewStateObject K a).2 ∧
      (s.getOrNewStateObject K a).2.account = s.world.account K a ∧
      (s.getOrNewStateObject K a).1.world = s.world.setAccount a (some (s.world.account K a)) := by
  unfold getOrNewStateObject
  cases h : s.getStateObject a with
  | none =>
    have hacc : s.world.account K a = emptyAccount K := by simp [World.account, h]
    refine ⟨?_, ?_, ?_⟩
    · simp [createObject, newObject]
    · simp [hacc, createObject, emptyAccount, newObject]
    · rw [world_createObject, hacc]
  | some o =>
    have hacc := world_account_of_getStateObject K s h
    dsimp only
    refine ⟨h, hacc.symm, ?_⟩
    rw [hacc, World.setAccount_of_eq]
    simp [h]

/-! Each operation of `statedb.go` changes the world as the abstract operation does. -/

section Refines

variable (a : Address)

/-- The pair `getOrNewStateObject` returns, named, with what the proofs below use of it. -/
lemma getOrNewStateObject_eq {t : StateDb} {o : StateObject}
    (hp : s.getOrNewStateObject K a = (t, o)) :
    t.getStateObject a = some o ∧ o.deleted = false ∧ o.account = s.world.account K a ∧
      t.world = s.world.setAccount a (some o.account) := by
  obtain ⟨h1, h2, h3⟩ := getOrNewStateObject_spec K s a
  rw [hp] at h1 h2 h3
  exact ⟨h1, t.getStateObject_deleted h1, h2, by rw [h3, h2]⟩

@[simp] lemma world_addBalance (amount : ℤ) :
    (s.addBalance K a amount).world = s.world.addBalance K a amount := by
  unfold addBalance World.addBalance
  rcases hp : s.getOrNewStateObject K a with ⟨t, o⟩
  obtain ⟨ho, hdel, hacc, hw⟩ := getOrNewStateObject_eq K s a hp
  rw [← hacc]
  dsimp only
  split_ifs with h0
  · simp [hw, hdel, h0]
  · simp [hw, h0]
  · simp [hw, hdel]

@[simp] lemma world_subBalance (amount : ℤ) :
    (s.subBalance K a amount).world = s.world.subBalance K a amount := by
  unfold subBalance World.subBalance
  rcases hp : s.getOrNewStateObject K a with ⟨t, o⟩
  obtain ⟨ho, hdel, hacc, hw⟩ := getOrNewStateObject_eq K s a hp
  rw [← hacc]
  dsimp only
  split_ifs with h0
  · simp [hw, h0]
  · simp [hw, hdel]

@[simp] lemma world_setBalanceOf (amount : ℤ) :
    (s.setBalanceOf K a amount).world = s.world.setBalance K a amount := by
  unfold setBalanceOf World.setBalance
  rcases hp : s.getOrNewStateObject K a with ⟨t, o⟩
  obtain ⟨ho, hdel, hacc, hw⟩ := getOrNewStateObject_eq K s a hp
  rw [← hacc]
  simp [hw, hdel]

@[simp] lemma world_setNonceOf (nonce : UInt64) :
    (s.setNonceOf K a nonce).world = s.world.setNonce K a nonce := by
  unfold setNonceOf World.setNonce
  rcases hp : s.getOrNewStateObject K a with ⟨t, o⟩
  obtain ⟨ho, hdel, hacc, hw⟩ := getOrNewStateObject_eq K s a hp
  rw [← hacc]
  simp [hw, hdel]

@[simp] lemma world_setCodeOf (code : List UInt8) :
    (s.setCodeOf K a code).world = s.world.setCode K a code := by
  unfold setCodeOf World.setCode
  rcases hp : s.getOrNewStateObject K a with ⟨t, o⟩
  obtain ⟨ho, hdel, hacc, hw⟩ := getOrNewStateObject_eq K s a hp
  rw [← hacc]
  simp [hw, hdel]

@[simp] lemma world_setStateOf (key value : ℕ) :
    (s.setStateOf K a key value).world = s.world.setState K a key value := by
  unfold setStateOf World.setState
  rcases hp : s.getOrNewStateObject K a with ⟨t, o⟩
  obtain ⟨ho, hdel, hacc, hw⟩ := getOrNewStateObject_eq K s a hp
  rw [← hacc]
  simp [hw, hdel]

@[simp] lemma world_createAccount :
    (s.createAccount K a).world = s.world.createAccount K a := by
  unfold createAccount World.createAccount
  cases h : s.getStateObject a with
  | none => simp [h, emptyAccount, newObject]
  | some prev =>
    simp [h, createObject, emptyAccount, newObject]

@[simp] lemma world_suicide : (s.suicide a).1.world = s.world.suicide a := by
  unfold suicide World.suicide
  cases h : s.getStateObject a with
  | none => simp [h]
  | some o =>
    have hdel := s.getStateObject_deleted h
    simp [h, hdel]

@[simp] lemma world_addLog (log : Log) :
    (s.addLog log).world = s.world.addLog s.thash
      { log with txHash := s.thash, blockHash := s.bhash, txIndex := s.txIndex,
                 index := s.logSize } := rfl

@[simp] lemma world_addPreimage (hash : ℕ) (preimage : List UInt8) :
    (s.addPreimage hash preimage).world = s.world.addPreimage hash preimage := by
  unfold addPreimage World.addPreimage
  have hp : s.world.preimages hash = s.preimages hash := rfl
  rw [hp]
  cases s.preimages hash <;> rfl

@[simp] lemma world_addRefund (gas : ℕ) : (s.addRefund gas).world = s.world.addRefund gas := rfl

@[simp] lemma world_snapshot : s.snapshot.1.world = s.world := rfl

end Refines

end StateDb

end GoXdn.State
