import Mathlib
import GoXdn.Rlp.Encode
import GoXdn.Rlp.Raw
import GoXdn.Trie.Encoding

/-!
# Trie nodes

`trie/node.go`: the four kinds of node, their cache flags, their RLP encoding and `decodeNode`.

A full node has seventeen children, the last holding the value of a key that ends there; a short
node holds a key (in hex form in memory, in compact form once collapsed for encoding) and one
child. A hash node refers to a node stored under its hash, a value node is a stored value.
`nil` is Go's nil `node`. An encoded node is a list: of its seventeen children, or of its key and
child; a child is written in place (embedded) when its own encoding is shorter than a hash, and
as its hash otherwise.
-/

namespace GoXdn.Mpt

open GoStd Rlp

/-- `nodeFlag`: the cached hash (none for Go's nil), the cache generation and whether the node
has changes not yet written. -/
structure NodeFlag where
  hash : Option (List UInt8)
  gen : UInt16
  dirty : Bool
  deriving DecidableEq, Repr

/-- `node`. -/
inductive Node
  | fullNode (children : List Node) (flags : NodeFlag)
  | shortNode (key : List UInt8) (val : Node) (flags : NodeFlag)
  | hashNode (h : List UInt8)
  | valueNode (v : List UInt8)
  | nil
  deriving Repr

namespace Node

/-- `n == nil`. -/
def isNil : Node → Bool
  | nil => true
  | _ => false

/-- `cache`: the cached hash and the dirty flag. A hash or value node is always dirty; a nil
node is never asked. -/
def cache : Node → Option (List UInt8) × Bool
  | fullNode _ flags | shortNode _ _ flags => (flags.hash, flags.dirty)
  | _ => (none, true)

/-- `canUnload`: a clean node of a generation at least `cachelimit` old. The generations are
`uint16`, and their difference wraps. -/
def canUnload (cachegen cachelimit : UInt16) : Node → Bool
  | fullNode _ flags | shortNode _ _ flags => !flags.dirty && cachelimit ≤ cachegen - flags.gen
  | _ => false

mutual
/-- What `rlp.Encode` writes for a node: a full node's children as a list, a short node as the
list of its key and its child, a hash or value node as a string, and nil as the empty list
(`writeInterface` of a nil interface). -/
def toValue : Node → Value
  | fullNode children _ => .list (toValues children)
  | shortNode key val _ => .list [.str key, toValue val]
  | hashNode h => .str h
  | valueNode v => .str v
  | nil => .list []
/-- The children of a full node, encoded one by one. -/
def toValues : List Node → List Value
  | [] => []
  | n :: ns => toValue n :: toValues ns
end

end Node

/-- `rlp.Encode` of a node. -/
def encodeNode (n : Node) : List UInt8 := encodeToBytes writeInterface n.toValue

/-- The errors of the trie, and Go's panics on the paths modelled. -/
inductive TrieError
  /-- `MissingNodeError`: no node stored under the hash, met at the path. -/
  | missingNode (nodeHash path : List UInt8)
  /-- An error of `rlp/raw.go` while decoding a node, or its index panic. -/
  | decode (e : RawError)
  | invalidListElements (c : ℕ)
  | oversizedEmbedded (size : ℕ)
  | invalidStringSize (size : ℕ)
  /-- `decodeNode` failed where the source panics (`mustDecodeNode`). -/
  | badStoredNode (nodeHash : List UInt8)
  /-- The panic of a type switch that meets a node it does not expect. -/
  | invalidNode
  /-- A Go index panic. -/
  | indexOutOfRange
  | proofNodeMissing (i : ℕ) (nodeHash : List UInt8)
  | badProofNode (i : ℕ) (e : TrieError)
  /-- The model's own: a recursion ran out of its budget. -/
  | outOfFuel
  deriving Repr

/-- `key[i]`, with the index panic. -/
def nibbleAt (key : List UInt8) (i : ℕ) : Except TrieError UInt8 :=
  match key[i]? with
  | some x => .ok x
  | none => .error .indexOutOfRange

/-- `n.Children[i]`, with the index panic. -/
def childAt (children : List Node) (i : UInt8) : Except TrieError Node :=
  match children[i.toNat]? with
  | some c => .ok c
  | none => .error .indexOutOfRange

/-- `n.Children[i] = c`, with the index panic. -/
def setChild (children : List Node) (i : UInt8) (c : Node) : Except TrieError (List Node) :=
  if i.toNat < children.length then .ok (children.set i.toNat c) else .error .indexOutOfRange

/-! ### Decoding -/

section Decode

variable (dec : List UInt8 → Except TrieError Node)

/-- `decodeRef`: a child in place (a list, at most a hash long), nothing (the empty string) or a
hash (a string of 32 bytes). `dec` decodes an embedded node. -/
def decodeRef (buf : List UInt8) : Except TrieError (Node × List UInt8) := do
  let (kind, val, rest) ← (split buf).mapError .decode
  match kind with
  | .list =>
    let size := buf.length - rest.length
    if 32 < size then throw (.oversizedEmbedded size)
    else
      let n ← dec buf
      pure (n, rest)
  | _ =>
    if kind = .string ∧ val.length = 0 then pure (.nil, rest)
    else if kind = .string ∧ val.length = 32 then pure (.hashNode val, rest)
    else throw (.invalidStringSize val.length)

/-- The loop of `decodeFull` over the first `i` children. -/
def decodeRefs : ℕ → List UInt8 → Except TrieError (List Node × List UInt8)
  | 0, elems => pure ([], elems)
  | i + 1, elems => do
    let (cld, rest) ← decodeRef dec elems
    let (cs, rest) ← decodeRefs i rest
    pure (cld :: cs, rest)

/-- `decodeShort`: the compact key, then the value if the key has the terminator, a reference
otherwise. -/
def decodeShort (hash : Option (List UInt8)) (elems : List UInt8) (cachegen : UInt16) :
    Except TrieError Node := do
  let (kbuf, rest) ← (splitString elems).mapError .decode
  let flag : NodeFlag := ⟨hash, cachegen, false⟩
  let key ← match compactToHex kbuf with
    | some key => pure key
    | none => throw .indexOutOfRange
  if hasTerm key then
    let (val, _) ← (splitString rest).mapError .decode
    pure (.shortNode key (.valueNode val) flag)
  else
    let (r, _) ← decodeRef dec rest
    pure (.shortNode key r flag)

/-- `decodeFull`: sixteen references, then the value, which is no child when empty. -/
def decodeFull (hash : Option (List UInt8)) (elems : List UInt8) (cachegen : UInt16) :
    Except TrieError Node := do
  let (cs, elems) ← decodeRefs dec 16 elems
  let (val, _) ← (splitString elems).mapError .decode
  pure (.fullNode (cs ++ [if 0 < val.length then .valueNode val else .nil]) ⟨hash, cachegen, false⟩)

end Decode

/-- `decodeNode`: a list of two values is a short node, of seventeen a full node. An embedded
node is decoded inside its parent's encoding, so `len(buf)` nested calls are enough; `fuel`
counts them. -/
def decodeNode : ℕ → Option (List UInt8) → List UInt8 → UInt16 → Except TrieError Node
  | 0, _, _, _ => .error .outOfFuel
  | fuel + 1, hash, buf, cachegen =>
    if buf = [] then .error (.decode (.rlp .unexpectedEOF))
    else do
      let (elems, _) ← (splitList buf).mapError .decode
      let dec := fun b => decodeNode fuel none b cachegen
      match countValues elems with
      -- a panic in `CountValues` is not an error it returns
      | .error .indexOutOfRange => throw (.decode .indexOutOfRange)
      | r =>
        -- `c, _ := rlp.CountValues(elems)`: an error counts no values
        match r.toOption.getD 0 with
        | 2 => decodeShort dec hash elems cachegen
        | 17 => decodeFull dec hash elems cachegen
        | c => throw (.invalidListElements c)

end GoXdn.Mpt
