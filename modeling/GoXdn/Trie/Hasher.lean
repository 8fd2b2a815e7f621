import Mathlib
import GoXdn.Trie.Trie

/-!
# Hashing and committing

`trie/hasher.go` and `Trie.Hash`, `Trie.CommitTo`. `hash` collapses a node: each child is
replaced by its hash, or kept in place if its encoding is shorter than 32 bytes, and a short
node's key is put in compact form. The collapsed node is stored under its Keccak-256 (when there
is a database to write) and the copy kept in memory caches the hash. A node whose hash is cached
is not walked again, unless it is dirty and a database is being written; a clean one whose
generation is old enough is unloaded, replaced by its hash.

`hashChildren` calls `hash` on each child. Here the walk over the children is part of `hash`'s
own recursion (`hashList` and the calls on a short node's child), and `hashChildren` below gives
the same walk for one node; `hash_eq` in the proofs says that `hash` is the source's composition
of the cache check, `hashChildren` and `store`.
-/

namespace GoXdn.Mpt

open GoStd

variable (K : Hash256)

/-- `store`: a node whose encoding is at least a hash long, or the root (`force`), is replaced by
its hash (the cached one if there is one) and written to the database if there is one; others
stay in place, as do nil and hash nodes. -/
def store (n : Node) (db : Option Database) (force : Bool) : Node × Option Database :=
  match n with
  | .nil | .hashNode _ => (n, db)
  | n =>
    let enc := encodeNode n
    if enc.length < 32 ∧ force = false then (n, db)
    else
      let hash := match n.cache.1 with
        | some h => h
        | none => K.sum enc
      (.hashNode hash, db.map fun d => d.put hash enc)

/-- `hasher`: the trie's cache generations, for the unloading. -/
structure Hasher where
  cachegen : UInt16
  cachelimit : UInt16

variable (h : Hasher)

/-- The check at the start of `hash`: a cached hash is the answer when only hashing, an old clean
node is unloaded, a clean node is kept; otherwise `walk` collapses and stores it. -/
def hashCached (n : Node) (db : Option Database) (walk : Unit → Node × Node × Option Database) :
    Node × Node × Option Database :=
  match n.cache with
  | (some hash, dirty) =>
    if db.isNone then (.hashNode hash, n, db)
    else if n.canUnload h.cachegen h.cachelimit then (.hashNode hash, .hashNode hash, db)
    else if !dirty then (.hashNode hash, n, db)
    else walk ()
  | (none, _) => walk ()

/-- The end of `hash`: the collapsed node stored, and the hash cached in the copy kept in memory,
which is clean once written to a database. -/
def hashStore (db : Option Database) (force : Bool) (r : Node × Node × Option Database) :
    Node × Node × Option Database :=
  let (collapsed, cached, db₁) := r
  let (hashed, db₂) := store K collapsed db₁ force
  let cachedHash := match hashed with
    | .hashNode hh => some hh
    | _ => none
  let setFlags (f : NodeFlag) : NodeFlag :=
    { f with hash := cachedHash, dirty := if db.isSome then false else f.dirty }
  let cached := match cached with
    | .shortNode k v f => .shortNode k v (setFlags f)
    | .fullNode cs f => .fullNode cs (setFlags f)
    | c => c
  (hashed, cached, db₂)

/-- `hashChildren` of a short node, given the hash of its child (none for a value, which stays):
the key in compact form in the collapsed node, the hex key in the copy. A nil child is encoded as
the empty string. -/
def shortChildren (k : List UInt8) (v : Node) (flags : NodeFlag) (db : Option Database)
    (hv : Option (Node × Node × Option Database)) : Node × Node × Option Database :=
  match hv with
  | none =>
    (.shortNode (hexToCompact k) (if v.isNil then .valueNode [] else v) flags, .shortNode k v flags, db)
  | some (cv, chv, db) =>
    (.shortNode (hexToCompact k) (if cv.isNil then .valueNode [] else cv) flags,
      .shortNode k chv flags, db)

/-- Whether `hashChildren` leaves a short node's child as it is: a value. -/
def Node.isValue : Node → Bool
  | .valueNode _ => true
  | _ => false

mutual
/-- `hash`: the node collapsed to its hash (or kept in place), the copy to keep in memory, and
the database after the writes. -/
def hash : Node → Option Database → Bool → Node × Node × Option Database
  | .shortNode k v flags, db, force =>
    hashCached h (.shortNode k v flags) db fun _ =>
      hashStore K db force
        (shortChildren k v flags db (if v.isValue then none else some (hash v db false)))
  | .fullNode cs flags, db, force =>
    hashCached h (.fullNode cs flags) db fun _ =>
      hashStore K db force
        (let (c₁, c₂, db) := hashList 0 cs db; (.fullNode c₁ flags, .fullNode c₂ flags, db))
  | n, db, force => hashCached h n db fun _ => hashStore K db force (n, n, db)
/-- The loop of `hashChildren` over a full node's children from index `i`: the first sixteen are
hashed (a nil one is encoded as the empty string), the value is kept. -/
def hashList : ℕ → List Node → Option Database → List Node × List Node × Option Database
  | _, [], db => ([], [], db)
  | i, c :: cs, db =>
    let (collapsed, cached, db) :=
      if i < 16 then
        if c.isNil then (.valueNode [], c, db) else hash c db false
      else (if c.isNil then .valueNode [] else c, c, db)
    let (cs₁, cs₂, db) := hashList (i + 1) cs db
    (collapsed :: cs₁, cached :: cs₂, db)
end

/-- `hashChildren`: the node with its children hashed, and the copy with their cached forms. -/
def hashChildren (original : Node) (db : Option Database) : Node × Node × Option Database :=
  match original with
  | .shortNode k v flags =>
    shortChildren k v flags db (if v.isValue then none else some (hash K h v db false))
  | .fullNode cs flags =>
    let (c₁, c₂, db) := hashList K h 0 cs db
    (.fullNode c₁ flags, .fullNode c₂ flags, db)
  | n => (n, n, db)

namespace Trie

variable (t : Trie)

/-- `hashRoot`: `emptyRoot` for an empty trie, the root hashed by force otherwise. -/
def hashRoot (db : Option Database) : Node × Node × Option Database :=
  match t.root with
  | .nil => (.hashNode (emptyRoot K), .nil, db)
  | root => hash K ⟨t.cachegen, t.cachelimit⟩ root db true

/-- The bytes of the root hash: `hashRoot` always gives a hash node. -/
def rootHash (hashed : Node) : List UInt8 :=
  match hashed with
  | .hashNode hh => hh
  | _ => []

/-- `Hash`: the root hash, with the hashes cached in the nodes kept. Nothing is written. -/
def Hash : List UInt8 × Trie :=
  let (hashed, cached, _) := t.hashRoot K none
  (rootHash hashed, { t with root := cached })

/-- `CommitTo`: every dirty node written to `db` under its hash, old clean nodes unloaded, and a
new cache generation. -/
def CommitTo (db : Database) : List UInt8 × Trie × Database :=
  let (hashed, cached, db') := t.hashRoot K (some db)
  (rootHash hashed, { t with root := cached, cachegen := t.cachegen + 1 }, db'.getD db)

end Trie

end GoXdn.Mpt
