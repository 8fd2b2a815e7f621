import Mathlib
import GoXdn.Trie.Hasher

/-!
# Merkle proofs

`trie/proof.go`, and the node set of `light/nodeset.go` a proof travels in. `Prove` writes, for
every node on the path of a key, the encoding of the node collapsed as it is hashed, keyed by its
hash: the root and every node that is referred to by hash. `VerifyProof` walks from the root hash
down the key through the nodes it finds under each hash, decoding each, until it meets a value or
no child.

A `VerifyProof` over nodes a peer supplied can go round for ever (a node that refers to itself
through a short node of empty key); it is given one round per nibble of the key and one more,
which a proof of a trie `TryUpdate` builds never exceeds.
-/

namespace GoXdn.Mpt

open GoStd

namespace Trie

variable (db : Database) (t : Trie)

/-- The loop of `Prove` collecting the nodes on the path to `key`; a hash node is resolved in
place and is not one of them. -/
def proveNodes : ℕ → Node → List UInt8 → Except TrieError (List Node)
  | 0, _, _ => .error .outOfFuel
  | fuel + 1, tn, key =>
    if key = [] ∨ tn.isNil then .ok []
    else
      match tn with
      | .shortNode nk nv _ =>
        if key.length < nk.length ∨ nk ≠ key.take nk.length then
          -- the trie does not have the key: the walk ends at this node
          .ok [tn]
        else (tn :: ·) <$> proveNodes fuel nv (key.drop nk.length)
      | .fullNode children _ => do
        let i ← nibbleAt key 0
        let child ← childAt children i
        (tn :: ·) <$> proveNodes fuel child key.tail
      | .hashNode h => do
        let n ← t.resolveHash db h []
        proveNodes fuel n key
      | _ => .error .invalidNode

end Trie

variable (K : Hash256)

/-- The second loop of `Prove`, over the nodes collected with their index `i`: a node whose
collapsed form is replaced by its hash, and the root, is written to `proofDb` under that hash,
once the first `fromLevel` of them are skipped. -/
def proveWrite : List Node → ℕ → ℕ → Database → Database
  | [], _, _, proofDb => proofDb
  | n :: ns, i, fromLevel, proofDb =>
    let (n, _, _) := hashChildren K ⟨0, 0⟩ n none
    let (hn, _) := store K n none false
    match hn with
    | .hashNode hash =>
      if 0 < fromLevel then proveWrite ns (i + 1) (fromLevel - 1) proofDb
      else proveWrite ns (i + 1) fromLevel (proofDb.put hash (encodeNode n))
    | _ =>
      if i = 0 then
        if 0 < fromLevel then proveWrite ns (i + 1) (fromLevel - 1) proofDb
        else
          let enc := encodeNode n
          proveWrite ns (i + 1) fromLevel (proofDb.put (K.sum enc) enc)
      else proveWrite ns (i + 1) fromLevel proofDb

/-- `Prove(key, fromLevel, proofDb)`. -/
def Trie.Prove (db : Database) (t : Trie) (key : List UInt8) (fromLevel : ℕ) (proofDb : Database) :
    Except TrieError Database := do
  let key := keybytesToHex key
  let nodes ← t.proveNodes db (budget key) t.root key
  pure (proveWrite K nodes 0 fromLevel proofDb)

mutual
/-- `get`: down a decoded node along the key, to a hash reference (with the key left), a value,
or no child (with the key left for nil, none for a mismatch). -/
def get : Node → List UInt8 → Except TrieError (Option (List UInt8) × Node)
  | .shortNode nk nv _, key =>
    if key.length < nk.length ∨ nk ≠ key.take nk.length then .ok (none, .nil)
    else get nv (key.drop nk.length)
  | .fullNode children _, key =>
    match key with
    | [] => .error .indexOutOfRange
    | i :: key => getChild children i.toNat key
  | .hashNode h, key => .ok (some key, .hashNode h)
  | .nil, key => .ok (some key, .nil)
  | .valueNode v, _ => .ok (none, .valueNode v)
/-- `get` in `n.Children[i]`. -/
def getChild : List Node → ℕ → List UInt8 → Except TrieError (Option (List UInt8) × Node)
  | [], _, _ => .error .indexOutOfRange
  | c :: _, 0, key => get c key
  | _ :: cs, i + 1, key => getChild cs i key
end

/-- The loop of `VerifyProof` from round `i`, looking for the node under `wantHash`: the value
found (empty if the trie has no value under the key), or the error, and the nodes read. -/
def verifyLoop (proofDb : Database) : ℕ → ℕ → List UInt8 → List UInt8 →
    Except TrieError (List UInt8) × ℕ
  | 0, i, _, _ => (.error .outOfFuel, i)
  | fuel + 1, i, wantHash, key =>
    match proofDb.get wantHash with
    | none => (.error (.proofNodeMissing i wantHash), i)
    | some buf =>
      match decodeNode (buf.length + 1) (some wantHash) buf 0 with
      | .error e => (.error (.badProofNode i e), i)
      | .ok n =>
        match get n key with
        | .error e => (.error e, i)
        | .ok (keyrest, cld) =>
          match cld with
          | .nil => (.ok [], i)
          | .hashNode h => verifyLoop proofDb fuel (i + 1) h (keyrest.getD [])
          | .valueNode v => (.ok v, i + 1)
          | _ => verifyLoop proofDb fuel (i + 1) wantHash key

/-- `VerifyProof(rootHash, key, proofDb)`. -/
def VerifyProof (rootHash key : List UInt8) (proofDb : Database) : Except TrieError (List UInt8) × ℕ :=
  let key := keybytesToHex key
  verifyLoop proofDb (key.length + 1) 0 rootHash key

/-- `NodeList.NodeSet()`: each node of the list put under its Keccak-256, in order; the node
set's `Put` keeps the first node under a key. -/
def nodeSet (nodes : List (List UInt8)) : Database :=
  nodes.foldl (fun db node =>
    if (db.get (K.sum node)).isSome then db else db.put (K.sum node) node) Database.empty

end GoXdn.Mpt
