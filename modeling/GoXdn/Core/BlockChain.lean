import Mathlib

/-!
# Block insertion and fork choice

A model of the fork choice of `core/blockchain.go` (`insert`, `reorg`, `WriteBlockAndState`,
`insertChain`, `GetBlockByNumber`) and of `HeaderChain.WriteHeader` in `core/headerchain.go`.

These functions read of a block its hash, parent hash, number and difficulty only, so a block is
modelled by a `Header` with these four fields; transactions, receipts, logs and state are left
out. A hash is a natural number, and `0` is the empty hash `common.Hash{}` that
`GetCanonicalHash` returns for a number with no entry. The draw `mrand.Float64() < 0.5` that
breaks a tie of total difficulties is an argument of the functions that make it.
-/

namespace GoXdn.Core

structure Header where
  hash : ℕ
  parentHash : ℕ
  number : ℕ
  difficulty : ℕ
deriving DecidableEq, Repr

/-- The tables of the chain database that the fork choice reads and writes: total difficulties
and headers keyed by (hash, number), which (hash, number) pairs have a body, the canonical
number → hash entries, and the three head pointers. -/
structure ChainDb where
  td : ℕ → ℕ → Option ℕ
  header : ℕ → ℕ → Option Header
  hasBody : ℕ → ℕ → Bool
  canonical : List (ℕ × ℕ)
  headHeaderHash : ℕ
  headBlockHash : ℕ
  headFastBlockHash : ℕ

namespace ChainDb

def empty : ChainDb :=
  ⟨fun _ _ => none, fun _ _ => none, fun _ _ => false, [], 0, 0, 0⟩

def getTd (db : ChainDb) (hash number : ℕ) : Option ℕ := db.td hash number

def writeTd (db : ChainDb) (hash number td : ℕ) : ChainDb :=
  { db with td := fun h n => if h = hash ∧ n = number then some td else db.td h n }

def writeHeader (db : ChainDb) (header : Header) : ChainDb :=
  { db with header := fun h n =>
      if h = header.hash ∧ n = header.number then some header else db.header h n }

/-- `WriteBlock`: the body and the header of the block. -/
def writeBlock (db : ChainDb) (block : Header) : ChainDb :=
  { db.writeHeader block with
    hasBody := fun h n => decide (h = block.hash ∧ n = block.number) || db.hasBody h n }

/-- `GetBlock`: `nil` unless both the body and the header are stored. -/
def getBlock (db : ChainDb) (hash number : ℕ) : Option Header :=
  if db.hasBody hash number then db.header hash number else none

def getCanonicalHash (db : ChainDb) (number : ℕ) : ℕ :=
  (db.canonical.lookup number).getD 0

def writeCanonicalHash (db : ChainDb) (hash number : ℕ) : ChainDb :=
  { db with canonical := (number, hash) :: db.canonical.filter (fun e => e.1 != number) }

def deleteCanonicalHash (db : ChainDb) (number : ℕ) : ChainDb :=
  { db with canonical := db.canonical.filter (fun e => e.1 != number) }

end ChainDb

/-- The `HeaderChain`: its database and `currentHeader` (the source keeps `currentHeaderHash`
beside it, always set together with it to its hash). -/
structure HeaderChain where
  db : ChainDb
  currentHeader : Header

/-- The `BlockChain`, sharing the header chain's database. -/
structure BlockChain where
  hc : HeaderChain
  currentBlock : Header
  currentFastBlock : Header

inductive WriteStatus
  | nonStatTy
  | canonStatTy
  | sideStatTy
deriving DecidableEq, Repr

inductive ReorgError
  | invalidOldChain
  | invalidNewChain
deriving DecidableEq, Repr

def ReorgError.text : ReorgError → String
  | .invalidOldChain => "Invalid old chain"
  | .invalidNewChain => "Invalid new chain"

/-- The errors of the insertion paths: `consensus.ErrUnknownAncestor`, a failed `reorg`, the
`non contiguous insert` of `insertChain`, a block the checks before `WriteBlockAndState`
reject, and a nil dereference (a missing total difficulty or header). -/
inductive ChainError
  | unknownAncestor
  | reorg (e : ReorgError)
  | nonContiguousInsert
  | rejected
  | panic
deriving DecidableEq, Repr

namespace HeaderChain

def setCurrentHeader (hc : HeaderChain) (head : Header) : HeaderChain :=
  { db := { hc.db with headHeaderHash := head.hash }, currentHeader := head }

/-- The loop `for i := number + 1; ; i++` of `WriteHeader` deleting canonical entries up to the
first missing one; each pass deletes a stored entry, so `fuel` at the number of entries is
never used up. -/
def deleteCanonicalFrom : ℕ → ChainDb → ℕ → ChainDb
  | 0, db, _ => db
  | fuel + 1, db, i =>
    if db.getCanonicalHash i = 0 then db
    else deleteCanonicalFrom fuel (db.deleteCanonicalHash i) (i + 1)

/-- The loop of `WriteHeader` overwriting stale canonical entries below the new header, walking
its ancestors until one is canonical; `none` is the nil dereference of a missing ancestor
header. -/
def overwriteStale : ℕ → ChainDb → ℕ → ℕ → Option ChainDb
  | 0, _, _, _ => none
  | fuel + 1, db, headHash, headNumber =>
    if db.getCanonicalHash headNumber = headHash then some db
    else
      match db.header headHash headNumber with
      | none => none
      | some headHeader =>
        overwriteStale fuel (db.writeCanonicalHash headHash headNumber) headHeader.parentHash
          (headHeader.number - 1)

/-- `HeaderChain.WriteHeader`, with `coin` the draw `mrand.Float64() < 0.5`. -/
def writeHeader (hc : HeaderChain) (header : Header) (coin : Bool) :
    HeaderChain × Except ChainError WriteStatus :=
  match hc.db.getTd header.parentHash (header.number - 1),
      hc.db.getTd hc.currentHeader.hash hc.currentHeader.number with
  | none, _ => (hc, .error .unknownAncestor)
  | some _, none => (hc, .error .panic)
  | some ptd, some localTd =>
    let externTd := header.difficulty + ptd
    let db := (hc.db.writeTd header.hash header.number externTd).writeHeader header
    if localTd < externTd ∨ (externTd = localTd ∧ coin) then
      let db := deleteCanonicalFrom (db.canonical.length + 1) db (header.number + 1)
      match overwriteStale (header.number + 1) db header.parentHash (header.number - 1) with
      | none => ({ hc with db := db }, .error .panic)
      | some db =>
        ({ db := { db.writeCanonicalHash header.hash header.number with
                   headHeaderHash := header.hash },
           currentHeader := header }, .ok .canonStatTy)
    else ({ hc with db := db }, .ok .sideStatTy)

end HeaderChain

/-- What the checks before `WriteBlockAndState` in `insertChain` (header verification,
`ValidateBody`, `Process`, `ValidateState`) make of a block. -/
inductive Verdict
  | pass
  | known
  | queued
  | reject
deriving DecidableEq, Repr

namespace BlockChain

def db (bc : BlockChain) : ChainDb := bc.hc.db

def setDb (bc : BlockChain) (db : ChainDb) : BlockChain := { bc with hc := { bc.hc with db := db } }

/-- `insert`: make the block the head; the head header and head fast block follow only when the
block was not already canonical at its number. -/
def insert (bc : BlockChain) (block : Header) : BlockChain :=
  let updateHeads := bc.db.getCanonicalHash block.number ≠ block.hash
  let bc := { bc.setDb { bc.db.writeCanonicalHash block.hash block.number with
                         headBlockHash := block.hash } with currentBlock := block }
  if updateHeads then
    let hc := bc.hc.setCurrentHeader block
    { bc with hc := { hc with db := { hc.db with headFastBlockHash := block.hash } },
              currentFastBlock := block }
  else bc

/-- The loops of `reorg` that bring the higher of its two blocks down to the other's height,
with the blocks they leave behind; `none` is the `nil` they end on when a parent is missing.
Each pass lowers the number by one, so `fuel` past the height difference is never used up. -/
def reduce (db : ChainDb) (target : ℕ) : ℕ → Header → List Header × Option Header
  | 0, _ => ([], none)
  | fuel + 1, b =>
    if b.number = target then ([], some b)
    else
      match db.getBlock b.parentHash (b.number - 1) with
      | none => ([b], none)
      | some p =>
        let r := reduce db target fuel p
        (b :: r.1, r.2)

/-- The loop of `reorg` that walks both blocks down together to their common ancestor, with the
blocks of the new branch it passes, highest first. -/
def collectNew (db : ChainDb) : ℕ → Header → Header → Except ReorgError (List Header)
  | 0, _, _ => .error .invalidOldChain
  | fuel + 1, oldBlock, newBlock =>
    if oldBlock.hash = newBlock.hash then .ok []
    else
      match db.getBlock oldBlock.parentHash (oldBlock.number - 1),
          db.getBlock newBlock.parentHash (newBlock.number - 1) with
      | none, _ => .error .invalidOldChain
      | some _, none => .error .invalidNewChain
      | some o, some n => (newBlock :: ·) <$> collectNew db fuel o n

/-- The blocks `reorg` inserts: the new branch down to the common ancestor, highest first. The
higher of the two blocks is first brought down to the other's height; the `nil` checks come in
the source's order. -/
def newChain (db : ChainDb) (oldBlock newBlock : Header) : Except ReorgError (List Header) :=
  if newBlock.number < oldBlock.number then
    match (reduce db newBlock.number (oldBlock.number + 1) oldBlock).2 with
    | none => .error .invalidOldChain
    | some o => collectNew db (o.number + 1) o newBlock
  else
    let r := reduce db oldBlock.number (newBlock.number + 1) newBlock
    match r.2 with
    | none => .error .invalidNewChain
    | some n => (r.1 ++ ·) <$> collectNew db (oldBlock.number + 1) oldBlock n

/-- `reorg`: the new branch inserted highest block first (the source's comment: "Order does not
matter"). No canonical entry is deleted. -/
def reorg (bc : BlockChain) (oldBlock newBlock : Header) : Except ReorgError BlockChain :=
  (·.foldl insert bc) <$> newChain bc.db oldBlock newBlock

/-- The fork choice of `WriteBlockAndState`: a higher total difficulty wins; a tie goes to the
lower number, and at equal numbers to the draw `coin`. -/
def takesOver (externTd localTd block current : ℕ) (coin : Bool) : Bool :=
  decide (localTd < externTd) || (externTd == localTd && (decide (block < current) ||
    (block == current && coin)))

/-- `WriteBlockAndState`. The total difficulty goes to the database first; the block itself is
in the batch written after `reorg`, which writes straight to the database. -/
def writeBlockAndState (bc : BlockChain) (block : Header) (coin : Bool) :
    BlockChain × Except ChainError WriteStatus :=
  match bc.db.getTd block.parentHash (block.number - 1),
      bc.db.getTd bc.currentBlock.hash bc.currentBlock.number with
  | none, _ => (bc, .error .unknownAncestor)
  | some _, none => (bc, .error .panic)
  | some ptd, some localTd =>
    let externTd := block.difficulty + ptd
    let bc := bc.setDb (bc.db.writeTd block.hash block.number externTd)
    if takesOver externTd localTd block.number bc.currentBlock.number coin then
      let r := if block.parentHash ≠ bc.currentBlock.hash then reorg bc bc.currentBlock block
        else .ok bc
      match r with
      | .error e => (bc, .error (.reorg e))
      | .ok bc => ((bc.setDb (bc.db.writeBlock block)).insert block, .ok .canonStatTy)
    else (bc.setDb (bc.db.writeBlock block), .ok .sideStatTy)

/-- The sanity check of `insertChain`: each block is the child of the one before. -/
def contiguous : List Header → Bool
  | a :: b :: rest => (b.number == a.number + 1 && b.parentHash == a.hash) && contiguous (b :: rest)
  | _ => true

/-- The block loop of `insertChain`: blocks the checks pass are written; known and queued
blocks are skipped; the first failure ends the loop with its index. -/
def insertBlocks (verdict : BlockChain → Header → Verdict) (coin : ℕ → Bool) :
    ℕ → List Header → BlockChain → BlockChain × Except (ℕ × ChainError) Unit
  | _, [], bc => (bc, .ok ())
  | i, block :: rest, bc =>
    match verdict bc block with
    | .known | .queued => insertBlocks verdict coin (i + 1) rest bc
    | .reject => (bc, .error (i, .rejected))
    | .pass =>
      match writeBlockAndState bc block (coin i) with
      | (bc, .error e) => (bc, .error (i, e))
      | (bc, .ok _) => insertBlocks verdict coin (i + 1) rest bc

/-- `InsertChain`, with `coin i` the tie draw made for the `i`-th block. -/
def insertChain (verdict : BlockChain → Header → Verdict) (coin : ℕ → Bool) (bc : BlockChain)
    (chain : List Header) : BlockChain × Except (ℕ × ChainError) Unit :=
  if contiguous chain then insertBlocks verdict coin 0 chain bc
  else (bc, .error (0, .nonContiguousInsert))

/-- `GetBlockByNumber`: the block at the canonical hash of that number. -/
def getBlockByNumber (bc : BlockChain) (number : ℕ) : Option Header :=
  let hash := bc.db.getCanonicalHash number
  if hash = 0 then none else bc.db.getBlock hash number

/-- The chain right after `Genesis.Commit` and the loading of the last state in
`NewBlockChain`. -/
def genesis (g : Header) : BlockChain :=
  let db := ((ChainDb.empty.writeTd g.hash g.number g.difficulty).writeBlock g).writeCanonicalHash
    g.hash g.number
  ⟨⟨{ db with headBlockHash := g.hash, headHeaderHash := g.hash }, g⟩, g, g⟩

end BlockChain

/-- The calls that change a chain's fork choice: `BlockChain.InsertChain` with its draws, and
`HeaderChain.WriteHeader` with its draw. -/
inductive ChainOp
  | insertChain (chain : List Header) (coin : ℕ → Bool)
  | writeHeader (header : Header) (coin : Bool)

namespace ChainOp

def apply (verdict : BlockChain → Header → Verdict) (bc : BlockChain) : ChainOp → BlockChain
  | insertChain chain coin => (bc.insertChain verdict coin chain).1
  | writeHeader header coin => { bc with hc := (bc.hc.writeHeader header coin).1 }

def run (verdict : BlockChain → Header → Verdict) (bc : BlockChain) (ops : List ChainOp) :
    BlockChain :=
  ops.foldl (apply verdict) bc

end ChainOp

end GoXdn.Core
