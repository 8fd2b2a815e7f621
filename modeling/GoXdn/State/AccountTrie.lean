import Mathlib
import GoXdn.Proofs.Revert

/-!
# The state database over its account trie

`StateDb` keeps the live state objects only. A `StateDB` also holds its account `trie`: an
object that is not live is loaded from it by `getStateObject`, and `Finalise` writes every dirty
object back into it (`updateStateObject`, `deleteStateObject`). The trie is an interface value,
so two `StateDB`s holding the same one see each other's writes: the tries in memory are
`AccountTries`, from a trie's identity to the accounts it holds, and a `TrieStateDb` holds the
identity of its trie. `Copy` gives the new `StateDB` the one it holds itself
(`trie: self.trie`).

An account trie is the map from addresses to accounts that `TryGet` reads after `TryUpdate` and
`TryDelete`, and an account's `Root` and `CodeHash` stand for the storage and the code they
name in the database.
-/

namespace GoXdn.State

open GoStd

/-- The `Account` record under an address in the account trie. -/
structure StoredAccount where
  nonce : UInt64
  balance : ℤ
  codeHash : List UInt8
  code : List UInt8
  storage : ℕ → ℕ

namespace StateObject

/-- `data`: the account `updateStateObject` encodes into the trie. -/
def data (o : StateObject) : StoredAccount := ⟨o.nonce, o.balance, o.codeHash, o.code, o.storage⟩

/-- `newObject(self, addr, data, self.MarkStateObjectDirty)` for an account read from the trie:
no flag set, and the dirty hook set. -/
def ofData (d : StoredAccount) : StateObject :=
  ⟨d.nonce, d.balance, d.codeHash, d.code, d.storage, false, false, false, true⟩

/-- `deepCopy`: the same data, storage and flags, with the copy's dirty hook set; `touched` is
not copied. -/
def deepCopy (o : StateObject) : StateObject := { o with touched := false, onDirty := true }

end StateObject

/-- The account tries in memory, by identity. -/
abbrev AccountTries := ℕ → Address → Option StoredAccount

/-- `TryUpdate(addr, data)` (with `some data`) or `TryDelete(addr)` (with `none`) on the trie
named `tr`. -/
def AccountTries.write (tries : AccountTries) (tr : ℕ) (a : Address) (v : Option StoredAccount) :
    AccountTries :=
  Function.update tries tr (Function.update (tries tr) a v)

/-- A `StateDB`: the identity of its account trie, and its in-memory part. -/
structure TrieStateDb where
  trie : ℕ
  mem : StateDb

/-- The account a call of `StateOp` reads first, by `getStateObject` or `GetOrNewStateObject`. -/
def StateOp.account? : StateOp → Option Address
  | .addBalance a _ | .subBalance a _ | .setBalance a _ | .setNonce a _ | .setCode a _
  | .setState a _ _ | .suicide a | .createAccount a => some a
  | _ => none

namespace TrieStateDb

variable (K : Hash256) (tries : AccountTries) (s : TrieStateDb)

/-- `getStateObject`: the live object (none once deleted), else the account the trie holds,
put into the live set. -/
def getStateObject (a : Address) : TrieStateDb × Option StateObject :=
  match s.mem.stateObjects a with
  | some o => (s, if o.deleted then none else some o)
  | none =>
    match tries s.trie a with
    | none => (s, none)
    | some d => ({ s with mem := s.mem.setStateObject a (.ofData d) }, some (.ofData d))

/-- The state once `getStateObject` has looked at `a`. -/
def load (a : Address) : TrieStateDb := (s.getStateObject tries a).1

/-- A getter of `statedb.go` at `a` (`GetBalance`, `GetNonce`, `Exist`, ...): it reads the object
`getStateObject` returns, as the `StateDb` getter reads it once `a` is loaded. -/
def read {α : Type} (getter : StateDb → Address → α) (a : Address) : α :=
  getter (s.load tries a).mem a

/-- A call of `StateOp`: the account it reads is loaded first, then the call runs on the live
objects as `StateDb` models it. -/
def call (op : StateOp) : Option TrieStateDb :=
  let s := match op.account? with
    | some a => s.load tries a
    | none => s
  (op.run K s.mem).map fun m => { s with mem := m }

/-- One pass of `Finalise`'s loop, over the dirty address `a`: the object is deleted from the
trie `tr` and marked deleted (`deleteStateObject`) if it is suicided or, with
`deleteEmptyObjects`, empty, and written to it otherwise (`updateStateObject`). `none` is the
nil dereference of a dirty address without an object. -/
def finaliseStep (tr : ℕ) (deleteEmptyObjects : Bool) (acc : Option (AccountTries × StateDb))
    (a : Address) : Option (AccountTries × StateDb) := do
  let (tries, t) ← acc
  let o ← t.stateObjects a
  if o.suicided || (deleteEmptyObjects && o.empty K) then
    pure (tries.write tr a none, t.setStateObject a { o with deleted := true })
  else pure (tries.write tr a (some o.data), t)

/-- `Finalise`: the loop over the dirty addresses, then the journal and the refund cleared. -/
def finalise (deleteEmptyObjects : Bool) : Option (AccountTries × TrieStateDb) :=
  let loop := s.mem.stateObjectsDirty.foldl (finaliseStep K s.trie deleteEmptyObjects)
    (some (tries, s.mem))
  loop.map fun (tries, t) =>
    (tries, { s with mem := { t with journal := [], validRevisions := [], refund := 0 } })

/-- `Copy`: the dirty objects deep-copied, the refund, the logs and the preimages copied, the
journal, the revisions and the transaction context left empty, and the same account trie. A
dirty address always has a live object; the source would dereference nil otherwise. -/
def copy : TrieStateDb :=
  { trie := s.trie
    mem :=
      { stateObjects := fun a =>
          if a ∈ s.mem.stateObjectsDirty then (s.mem.stateObjects a).map StateObject.deepCopy
          else none
        stateObjectsDirty := s.mem.stateObjectsDirty
        refund := s.mem.refund
        thash := 0
        bhash := 0
        txIndex := 0
        logs := s.mem.logs
        logSize := s.mem.logSize
        preimages := s.mem.preimages
        journal := []
        validRevisions := []
        nextRevisionId := 0 } }

end TrieStateDb

/-- What a caller does with a `StateDB` and the tries in memory: a call of `StateOp`, or
`Finalise` (which `IntermediateRoot` runs before hashing the trie). -/
inductive TrieOp
  | call (op : StateOp)
  | finalise (deleteEmptyObjects : Bool)

namespace TrieOp

variable (K : Hash256)

/-- One operation; `none` where the source panics. -/
def run : TrieOp → AccountTries × TrieStateDb → Option (AccountTries × TrieStateDb)
  | call op, (tries, s) => (s.call K tries op).map fun s => (tries, s)
  | finalise d, (tries, s) => s.finalise K tries d

/-- A sequence of operations, stopping at a panic. -/
def runAll : List TrieOp → AccountTries × TrieStateDb → Option (AccountTries × TrieStateDb)
  | [], st => some st
  | op :: ops, st => (op.run K st).bind (runAll ops)

end TrieOp

end GoXdn.State
