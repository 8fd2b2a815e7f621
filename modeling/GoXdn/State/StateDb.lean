import Mathlib
import GoXdn.Lib.GoStd
import GoXdn.Lib.UndoLog

/-!
# The state database and its journal

A model of `core/state`: the `StateDB` with its state objects, the dirty set, the refund counter,
the logs and the preimages, and the journal that `Snapshot` and `RevertToSnapshot` replay
(`statedb.go`, `state_object.go`, `journal.go`).

The objects the source keeps live and those it would load from the account trie are one map
here: `getStateObject` loading an account into the live set changes nothing a reader of the
state sees, so it is a pure lookup. A state object's storage is the map its cached and trie
entries make together. An address, a storage key and a storage value are natural numbers;
`onDirty` records whether the object's dirty hook is still set.
-/

namespace GoXdn.State

open GoStd

abbrev Address := ℕ

structure StateObject where
  nonce : UInt64
  balance : ℤ
  codeHash : List UInt8
  code : List UInt8
  storage : ℕ → ℕ
  suicided : Bool
  touched : Bool
  deleted : Bool
  onDirty : Bool

structure Log where
  address : Address
  topics : List ℕ
  data : List UInt8
  blockNumber : ℕ
  txHash : ℕ
  blockHash : ℕ
  txIndex : ℕ
  index : ℕ

/-- The journal entries of `journal.go`, each recording what its `undo` puts back. -/
inductive JournalEntry
  | createObjectChange (account : Address)
  | resetObjectChange (account : Address) (prev : StateObject)
  | suicideChange (account : Address) (prev : Bool) (prevbalance : ℤ)
  | balanceChange (account : Address) (prev : ℤ)
  | nonceChange (account : Address) (prev : UInt64)
  | storageChange (account : Address) (key prevalue : ℕ)
  | codeChange (account : Address) (prevcode prevhash : List UInt8)
  | refundChange (prev : ℕ)
  | addLogChange (txhash : ℕ)
  | addPreimageChange (hash : ℕ)
  | touchChange (account : Address) (prev prevDirty : Bool)

/-- A valid revision: its id and the journal length when it was taken. -/
structure Revision where
  id : ℕ
  journalIndex : ℕ
deriving DecidableEq, Repr

structure StateDb where
  stateObjects : Address → Option StateObject
  stateObjectsDirty : List Address
  refund : ℕ
  thash : ℕ
  bhash : ℕ
  txIndex : ℕ
  logs : ℕ → List Log
  logSize : ℕ
  preimages : ℕ → Option (List UInt8)
  journal : List JournalEntry
  validRevisions : List Revision
  nextRevisionId : ℕ

/-- The precompile whose touch `touchChange` never undoes. -/
def ripemd : Address := 3

variable (K : Hash256)

/-- `emptyCodeHash`, the Keccak-256 of no code. -/
def emptyCodeHash : List UInt8 := K.sum []

/-- `newObject` with an empty `Account`: its dirty hook is set. -/
def newObject : StateObject :=
  ⟨0, 0, emptyCodeHash K, [], fun _ => 0, false, false, false, true⟩

namespace StateObject

def empty (o : StateObject) : Bool :=
  o.nonce == 0 && o.balance == 0 && o.codeHash == emptyCodeHash K

end StateObject

namespace StateDb

variable (s : StateDb)

def getStateObject (a : Address) : Option StateObject :=
  match s.stateObjects a with
  | some o => if o.deleted then none else some o
  | none => none

def exist (a : Address) : Bool := (s.getStateObject a).isSome

def empty (a : Address) : Bool :=
  match s.getStateObject a with
  | some o => o.empty K
  | none => true

def getBalance (a : Address) : ℤ := ((s.getStateObject a).map (·.balance)).getD 0

def getNonce (a : Address) : UInt64 := ((s.getStateObject a).map (·.nonce)).getD 0

def getCode (a : Address) : List UInt8 := ((s.getStateObject a).map (·.code)).getD []

/-- `GetCodeHash`: the empty hash `common.Hash{}` (32 zero bytes) for a missing account. -/
def getCodeHash (a : Address) : List UInt8 :=
  ((s.getStateObject a).map (·.codeHash)).getD (List.replicate 32 0)

def getState (a : Address) (key : ℕ) : ℕ := ((s.getStateObject a).map (·.storage key)).getD 0

def hasSuicided (a : Address) : Bool := ((s.getStateObject a).map (·.suicided)).getD false

def setStateObject (a : Address) (o : StateObject) : StateDb :=
  { s with stateObjects := Function.update s.stateObjects a (some o) }

def append (e : JournalEntry) : StateDb := { s with journal := s.journal ++ [e] }

/-- The dirty hook of `o`, run by every setter of a state object: the first change marks the
address dirty; the setter then writes the object back with the hook cleared. -/
def markDirty (a : Address) (o : StateObject) : StateDb :=
  if o.onDirty then
    { s with stateObjectsDirty :=
        if a ∈ s.stateObjectsDirty then s.stateObjectsDirty else s.stateObjectsDirty ++ [a] }
  else s

/-- `delete(s.stateObjectsDirty, a)`. -/
def deleteDirty (a : Address) : StateDb :=
  { s with stateObjectsDirty := s.stateObjectsDirty.filter (· != a) }

/-- The unjournaled setters of `state_object.go`, which write the object back. -/
def setBalance (a : Address) (o : StateObject) (amount : ℤ) : StateDb :=
  (s.markDirty a o).setStateObject a { o with balance := amount, onDirty := false }

def setNonce (a : Address) (o : StateObject) (nonce : UInt64) : StateDb :=
  (s.markDirty a o).setStateObject a { o with nonce := nonce, onDirty := false }

def setCode (a : Address) (o : StateObject) (codeHash code : List UInt8) : StateDb :=
  (s.markDirty a o).setStateObject a { o with codeHash := codeHash, code := code, onDirty := false }

def setState (a : Address) (o : StateObject) (key value : ℕ) : StateDb :=
  (s.markDirty a o).setStateObject a
    { o with storage := Function.update o.storage key value, onDirty := false }

/-- `touch`: journaled with the touched flag and whether the hook had already fired. -/
def touch (a : Address) (o : StateObject) : StateDb :=
  ((s.append (.touchChange a o.touched (!o.onDirty))).markDirty a o).setStateObject a
    { o with touched := true, onDirty := false }

/-- `createObject`: a fresh object (its `setNonce(0)` fires the dirty hook), journaled as a
creation or as the reset of the object it replaces. -/
def createObject (a : Address) : StateDb × StateObject :=
  let prev := s.getStateObject a
  let o := { newObject K with onDirty := false }
  let s := (s.markDirty a (newObject K)).append (match prev with
    | none => .createObjectChange a
    | some p => .resetObjectChange a p)
  (s.setStateObject a o, o)

def getOrNewStateObject (a : Address) : StateDb × StateObject :=
  match s.getStateObject a with
  | some o => (s, o)
  | none => s.createObject K a

/-- `CreateAccount`: a replaced account's balance is carried over. -/
def createAccount (a : Address) : StateDb :=
  match s.getStateObject a with
  | none => (s.createObject K a).1
  | some prev =>
    let (s, o) := s.createObject K a
    s.setBalance a o prev.balance

/-- `stateObject.SetBalance`: journaled. -/
def setBalanceJ (a : Address) (o : StateObject) (amount : ℤ) : StateDb :=
  (s.append (.balanceChange a o.balance)).setBalance a o amount

def addBalance (a : Address) (amount : ℤ) : StateDb :=
  let (s, o) := s.getOrNewStateObject K a
  if amount = 0 then (if o.empty K then s.touch a o else s)
  else s.setBalanceJ a o (o.balance + amount)

def subBalance (a : Address) (amount : ℤ) : StateDb :=
  let (s, o) := s.getOrNewStateObject K a
  if amount = 0 then s else s.setBalanceJ a o (o.balance - amount)

def setBalanceOf (a : Address) (amount : ℤ) : StateDb :=
  let (s, o) := s.getOrNewStateObject K a
  s.setBalanceJ a o amount

def setNonceOf (a : Address) (nonce : UInt64) : StateDb :=
  let (s, o) := s.getOrNewStateObject K a
  (s.append (.nonceChange a o.nonce)).setNonce a o nonce

def setCodeOf (a : Address) (code : List UInt8) : StateDb :=
  let (s, o) := s.getOrNewStateObject K a
  (s.append (.codeChange a o.code o.codeHash)).setCode a o (K.sum code) code

def setStateOf (a : Address) (key value : ℕ) : StateDb :=
  let (s, o) := s.getOrNewStateObject K a
  (s.append (.storageChange a key (o.storage key))).setState a o key value

/-- `Suicide`: `false` and no change for a missing account. -/
def suicide (a : Address) : StateDb × Bool :=
  match s.getStateObject a with
  | none => (s, false)
  | some o =>
    (((s.append (.suicideChange a o.suicided o.balance)).markDirty a o).setStateObject a
      { o with suicided := true, balance := 0, onDirty := false }, true)

def addLog (log : Log) : StateDb :=
  let s := s.append (.addLogChange s.thash)
  let log := { log with txHash := s.thash, blockHash := s.bhash, txIndex := s.txIndex,
                        index := s.logSize }
  { s with logs := Function.update s.logs s.thash (s.logs s.thash ++ [log]),
           logSize := s.logSize + 1 }

def addPreimage (hash : ℕ) (preimage : List UInt8) : StateDb :=
  match s.preimages hash with
  | some _ => s
  | none =>
    let s := s.append (.addPreimageChange hash)
    { s with preimages := Function.update s.preimages hash (some preimage) }

def addRefund (gas : ℕ) : StateDb :=
  { s.append (.refundChange s.refund) with refund := s.refund + gas }

def snapshot : StateDb × ℕ :=
  ({ s with nextRevisionId := s.nextRevisionId + 1,
            validRevisions := s.validRevisions ++ [⟨s.nextRevisionId, s.journal.length⟩] },
    s.nextRevisionId)

end StateDb

/-- `undo` of each entry; `none` is the nil dereference of a missing state object. -/
def JournalEntry.undo : JournalEntry → StateDb → Option StateDb
  | .createObjectChange a, s =>
    some { s with stateObjects := Function.update s.stateObjects a none,
                  stateObjectsDirty := s.stateObjectsDirty.filter (· != a) }
  | .resetObjectChange a prev, s => some (s.setStateObject a prev)
  | .suicideChange a prev prevbalance, s =>
    match s.getStateObject a with
    | some o => some (s.setBalance a { o with suicided := prev } prevbalance)
    | none => some s
  | .balanceChange a prev, s => (s.getStateObject a).map fun o => s.setBalance a o prev
  | .nonceChange a prev, s => (s.getStateObject a).map fun o => s.setNonce a o prev
  | .storageChange a key prevalue, s =>
    (s.getStateObject a).map fun o => s.setState a o key prevalue
  | .codeChange a prevcode prevhash, s =>
    (s.getStateObject a).map fun o => s.setCode a o prevhash prevcode
  | .refundChange prev, s => some { s with refund := prev }
  | .addLogChange txhash, s =>
    some { s with logs := Function.update s.logs txhash (s.logs txhash).dropLast,
                  logSize := s.logSize - 1 }
  | .addPreimageChange hash, s =>
    some { s with preimages := Function.update s.preimages hash none }
  | .touchChange a prev prevDirty, s =>
    if !prev && a != ripemd then
      (s.getStateObject a).map fun o =>
        let s := s.setStateObject a { o with touched := prev }
        if !prevDirty then s.deleteDirty a else s
    else some s

namespace StateDb

/-- `RevertToSnapshot`: `sort.Search` over the ascending ids finds the first revision whose id
is at least `revid`; `none` is the panic for an id that is not valid, or a failed undo. -/
def revertToSnapshot (s : StateDb) (revid : ℕ) : Option StateDb :=
  let idx := s.validRevisions.findIdx (fun r => decide (revid ≤ r.id))
  match s.validRevisions[idx]? with
  | none => none
  | some r =>
    if r.id ≠ revid then none
    else
      (UndoLog.undoAll JournalEntry.undo (s.journal.drop r.journalIndex) s).map fun t =>
        { t with journal := s.journal.take r.journalIndex,
                 validRevisions := s.validRevisions.take idx }

/-- `Finalise`: suicided objects, and with `deleteEmptyObjects` empty ones, among the dirty
addresses are deleted; the journal and the refund are cleared. `none` is the nil dereference of
a dirty address without an object. -/
def finalise (s : StateDb) (deleteEmptyObjects : Bool) : Option StateDb :=
  let step (t : Option StateDb) (a : Address) : Option StateDb := do
    let t ← t
    let o ← t.stateObjects a
    if o.suicided || (deleteEmptyObjects && o.empty K) then
      pure (t.setStateObject a { o with deleted := true })
    else pure t
  (s.stateObjectsDirty.foldl step (some s)).map fun t => { t with journal := [], validRevisions := [], refund := 0 }

end StateDb

end GoXdn.State
