import Mathlib
import GoXdn.Trie.Node

/-!
# The trie

`trie/trie.go`: lookup, insertion and deletion on a trie whose nodes are in memory or, as hash
nodes, in the database. An operation that meets a hash node resolves it (`resolveHash`) and goes
on in the node stored under it.

Each walk goes down the key, and a stored node that refers to itself makes the source's
recursion go on for ever; here each walk has a budget (`fuel`), one call per node, and the
public operations give it `budget k` for the hex key `k`: every node on the path of a key in a
trie `TryUpdate` builds takes at least one nibble of it, after at most one hash node resolved in
its place.
-/

namespace GoXdn.Mpt

open GoStd

/-- The key-value store under the trie (`Database`), as the puts made to it, the latest first:
`Get` finds the latest value put under a key. The puts a later one overwrote stay in the list,
so that a statement can speak of every node ever written. -/
structure Database where
  puts : List (List UInt8 × List UInt8)

namespace Database

/-- The empty database. -/
def empty : Database := ⟨[]⟩

/-- `Get`: the latest value put under `key`. -/
def get (db : Database) (key : List UInt8) : Option (List UInt8) :=
  (db.puts.find? (fun p => p.1 == key)).map Prod.snd

/-- `Put`. -/
def put (db : Database) (key value : List UInt8) : Database := ⟨(key, value) :: db.puts⟩

end Database

/-- `Trie`: the root node and the cache generations. The database is passed alongside. -/
structure Trie where
  root : Node
  originalRoot : List UInt8
  cachegen : UInt16
  cachelimit : UInt16

/-- The recursion budget of one walk down the hex key `k`. -/
def budget (k : List UInt8) : ℕ := 2 * k.length + 2

namespace Trie

variable (db : Database) (t : Trie)

/-- `newFlag`: a new node is dirty and of the current generation. -/
def newFlag : NodeFlag := ⟨none, t.cachegen, true⟩

/-- `resolveHash`: the node stored under `n`, decoded with its hash as its cached hash.
`mustDecodeNode` panics on an encoding it cannot decode. -/
def resolveHash (n pre : List UInt8) : Except TrieError Node :=
  match db.get n with
  | none => .error (.missingNode n pre)
  | some enc =>
    match decodeNode (enc.length + 1) (some n) enc t.cachegen with
    | .ok dec => .ok dec
    | .error _ => .error (.badStoredNode n)

/-- `resolve`: a hash node resolved, any other node as it is. -/
def resolve (n : Node) (pre : List UInt8) : Except TrieError Node :=
  match n with
  | .hashNode h => t.resolveHash db h pre
  | n => .ok n

/-- `tryGet`: the value under `key` from position `pos`, the node with the hash nodes it
resolved put in place, and whether it resolved any. -/
def tryGet : ℕ → Node → List UInt8 → ℕ → Except TrieError (List UInt8 × Node × Bool)
  | 0, _, _, _ => .error .outOfFuel
  | fuel + 1, origNode, key, pos =>
    match origNode with
    | .nil => .ok ([], .nil, false)
    | .valueNode v => .ok (v, .valueNode v, false)
    | .shortNode nk nv flags =>
      if key.length - pos < nk.length ∨ nk ≠ (key.drop pos).take nk.length then
        -- key not found in trie
        .ok ([], origNode, false)
      else do
        let (value, newnode, didResolve) ← tryGet fuel nv key (pos + nk.length)
        if didResolve then
          pure (value, .shortNode nk newnode { flags with gen := t.cachegen }, true)
        else pure (value, origNode, false)
    | .fullNode children flags => do
      let i ← nibbleAt key pos
      let child ← childAt children i
      let (value, newnode, didResolve) ← tryGet fuel child key (pos + 1)
      if didResolve then
        let children ← setChild children i newnode
        pure (value, .fullNode children { flags with gen := t.cachegen }, true)
      else pure (value, origNode, false)
    | .hashNode h => do
      let child ← t.resolveHash db h (key.take pos)
      let (value, newnode, _) ← tryGet fuel child key pos
      pure (value, newnode, true)

/-- `insert`: the node with `value` put under `key`, and whether anything changed. -/
def insert : ℕ → Node → List UInt8 → List UInt8 → Node → Except TrieError (Bool × Node)
  | 0, _, _, _, _ => .error .outOfFuel
  | fuel + 1, n, pre, key, value =>
    if key = [] then
      match n, value with
      | .valueNode v, .valueNode v' => .ok (v ≠ v', value)
      | _, _ => .ok (true, value)
    else
      match n with
      | .shortNode nk nv _ =>
        let matchlen := prefixLen key nk
        -- the whole key of the short node matches: keep it, update below it
        if matchlen = nk.length then do
          let (dirty, nn) ← insert fuel nv (pre ++ key.take matchlen) (key.drop matchlen) value
          if !dirty then pure (false, n)
          else pure (true, .shortNode nk nn t.newFlag)
        else do
          -- branch out where the keys differ
          let (_, c₁) ← insert fuel .nil (pre ++ nk.take (matchlen + 1)) (nk.drop (matchlen + 1)) nv
          let i₁ ← nibbleAt nk matchlen
          let branch ← setChild (List.replicate 17 .nil) i₁ c₁
          let (_, c₂) ← insert fuel .nil (pre ++ key.take (matchlen + 1)) (key.drop (matchlen + 1))
            value
          let i₂ ← nibbleAt key matchlen
          let branch ← setChild branch i₂ c₂
          let branch := Node.fullNode branch t.newFlag
          if matchlen = 0 then pure (true, branch)
          else pure (true, .shortNode (key.take matchlen) branch t.newFlag)
      | .fullNode children _ => do
        let i ← nibbleAt key 0
        let child ← childAt children i
        let (dirty, nn) ← insert fuel child (pre ++ [i]) key.tail value
        if !dirty then pure (false, n)
        else
          let children ← setChild children i nn
          pure (true, .fullNode children t.newFlag)
      | .nil => .ok (true, .shortNode key value t.newFlag)
      | .hashNode h => do
        -- a part of the trie not loaded yet: load it and insert into it
        let rn ← t.resolveHash db h pre
        let (dirty, nn) ← insert fuel rn pre key value
        if !dirty then pure (false, rn) else pure (true, nn)
      | .valueNode _ => .error .invalidNode

/-- The loop of `delete` over a full node's children: the index of the one child left, `-1` if
there is none and `-2` if there are at least two. -/
def remainingPos : List Node → ℕ → ℤ → ℤ
  | [], _, pos => pos
  | c :: cs, i, pos =>
    if c.isNil then remainingPos cs (i + 1) pos
    else if pos = -1 then remainingPos cs (i + 1) i
    else -2

/-- `delete`: the node with `key` deleted, reduced to the minimal form on the way up, and
whether anything changed. -/
def delete : ℕ → Node → List UInt8 → List UInt8 → Except TrieError (Bool × Node)
  | 0, _, _, _ => .error .outOfFuel
  | fuel + 1, n, pre, key =>
    match n with
    | .shortNode nk nv _ =>
      let matchlen := prefixLen key nk
      if matchlen < nk.length then .ok (false, n)
      else if matchlen = key.length then .ok (true, .nil)
      else do
        let (dirty, child) ← delete fuel nv (pre ++ key.take nk.length) (key.drop nk.length)
        if !dirty then pure (false, n)
        else
          match child with
          -- merge the two short nodes
          | .shortNode ck cv _ => pure (true, .shortNode (nk ++ ck) cv t.newFlag)
          | child => pure (true, .shortNode nk child t.newFlag)
    | .fullNode children _ => do
      let i ← nibbleAt key 0
      let child ← childAt children i
      let (dirty, nn) ← delete fuel child (pre ++ [i]) key.tail
      if !dirty then pure (false, n)
      else
        let children ← setChild children i nn
        let pos := remainingPos children 0 (-1)
        if 0 ≤ pos then
          let p : UInt8 := UInt8.ofNat pos.toNat
          let cp ← childAt children p
          if pos ≠ 16 then do
            -- a short node left alone takes the full node's place, the nibble put in front
            let cnode ← t.resolve db cp pre
            match cnode with
            | .shortNode ck cv _ => pure (true, .shortNode (p :: ck) cv t.newFlag)
            | _ => pure (true, .shortNode [p] cp t.newFlag)
          else pure (true, .shortNode [p] cp t.newFlag)
        else pure (true, .fullNode children t.newFlag)
    | .valueNode _ => .ok (true, .nil)
    | .nil => .ok (false, .nil)
    | .hashNode h => do
      let rn ← t.resolveHash db h pre
      let (dirty, nn) ← delete fuel rn pre key
      if !dirty then pure (false, rn) else pure (true, nn)

/-- `TryGet`: the value under the key (empty if there is none), and the trie with the nodes the
lookup resolved kept in memory. -/
def TryGet (key : List UInt8) : Except TrieError (List UInt8 × Trie) := do
  let key := keybytesToHex key
  let (value, newroot, didResolve) ← t.tryGet db (budget key) t.root key 0
  pure (value, if didResolve then { t with root := newroot } else t)

/-- `TryUpdate`: a non-empty value is inserted, an empty one deletes the key. -/
def TryUpdate (key value : List UInt8) : Except TrieError Trie := do
  let k := keybytesToHex key
  if value.length ≠ 0 then
    let (_, n) ← t.insert db (budget k) t.root [] k (.valueNode value)
    pure { t with root := n }
  else
    let (_, n) ← t.delete db (budget k) t.root [] k
    pure { t with root := n }

/-- `TryDelete`. -/
def TryDelete (key : List UInt8) : Except TrieError Trie := do
  let k := keybytesToHex key
  let (_, n) ← t.delete db (budget k) t.root [] k
  pure { t with root := n }

end Trie

/-- `emptyRoot`, the hash of the empty trie: the Keccak-256 of the encoding of the empty string. -/
def emptyRoot (K : Hash256) : List UInt8 := K.sum [0x80]

/-- `New(root, db)`: the zero hash and `emptyRoot` make an empty trie; any other root is
resolved from the database. -/
def New (K : Hash256) (root : List UInt8) (db : Database) : Except TrieError Trie :=
  let t : Trie := ⟨.nil, root, 0, 0⟩
  if root ≠ List.replicate 32 0 ∧ root ≠ emptyRoot K then do
    let rootnode ← t.resolveHash db root []
    pure { t with root := rootnode }
  else pure t

end GoXdn.Mpt
