import GoXdn.Consensus.Dnpoc
import GoXdn.Lib.Strconv

/-!
# The miner's plot scan

The loop `LABEL_INNER_FOR` of `Dnpoc.mine` in `consensus/xdnoc/dnpoc.go`, which scans one plot
file, for a search that is not aborted: its `select` always takes the `default` branch. While
`total` is zero a pass reads the file name `<plotID>_<nonce>_<total>`, any failure breaking the
loop, and loads the file's scoops into `data`; otherwise a pass judges the nonce `nonce + index`
if the node may mine it, and moves on to the next index, breaking after the last. A nonce whose
deadline has passed seals the block, and `mine` returns.

Shabal-256 is the parameter `H` and the clock the function `clock` of how many times it has been
read. A file is its bytes, or `none` where `os.Open` fails; a name is its characters.
-/

namespace GoXdn.Consensus

open GoStd Buffer Poc

/-- What `mine` has set up before it scans the plots. -/
structure MineEnv where
  gensig : List UInt8
  baseTarget : ℤ
  lastTime : ℤ
  addrPlotID : UInt64
  /-- `node.MinNonce` and `node.MaxNonce`, the nonces the node may mine -/
  minNonce : UInt64
  maxNonce : UInt64
  scoopID : ℕ
  /-- `time.Now().Unix()` at each read -/
  clock : ℕ → ℕ

/-- The best deadline so far, over every file scanned, and the clock reads so far. -/
structure Search where
  minDeadLine : ℤ
  minPubID : UInt64
  minNonce : UInt64
  reads : ℕ

/-- The variables of the loop over one file. -/
structure FileScan where
  total : ℤ
  index : ℤ
  pubID : UInt64
  nonce : UInt64
  data : List UInt8
  search : Search

/-- The variables as the loop over `rd` declares them for each file. -/
def FileScan.start (search : Search) : FileScan := ⟨0, 0, 0, 0, [], search⟩

/-- How a pass of the loop ends. -/
inductive Pass
  | next (s : FileScan)
  /-- `break LABEL_INNER_FOR`, on to the next file -/
  | done (search : Search)
  /-- a nonce met its deadline: the block is sealed and `mine` returns -/
  | found (search : Search)
  | panic

/-- The name `<plotID>_<nonce>_<total>` of a file of the miner's own plot ID. -/
def parseName (addrPlotID : UInt64) (name : List Char) : Option (UInt64 × UInt64 × ℤ) :=
  match split name '_' with
  | [id, nonce, total] => do
    let pubID ← parseUint id
    if pubID ≠ addrPlotID then none
    else do
      let nonce ← parseUint nonce
      let total ← atoi total
      pure (pubID, nonce, total)
  | _ => none

/-- The closure that loads the scoops: `data` is kept where the file does not open, and
`make([]byte, 64 * total)` panics on a negative length. -/
def loadData (file : Option (List UInt8)) (scoopID : ℕ) (total : ℤ) (data : List UInt8) :
    Option (List UInt8) :=
  match file with
  | none => some data
  | some bytes =>
    let len := wrapInt64 (64 * total)
    if len < 0 then none
    else some (readAt bytes (wrapInt64 (scoopID * 64 * total)) (List.replicate len.toNat 0))

variable (H : Hash256) (env : MineEnv)

/-- The deadline of a nonce from its two scoops, kept if it is the best so far, and whether the
best has passed: `none` where `CalcDeadLine` divides by a zero base target. -/
def judge (pubID nonce : UInt64) (scoop1 scoop2 : List UInt8) (m : Search) : Option (Search × Bool) :=
  match calcDeadLine (beNat ((calcTarget H scoop1 scoop2 env.gensig).drop 24)) env.baseTarget with
  | none => none
  | some deadline =>
    let m := if deadline < m.minDeadLine then
      { m with minDeadLine := deadline, minPubID := pubID, minNonce := nonce } else m
    let now := env.clock m.reads
    some ({ m with reads := m.reads + 1 }, decide (m.minDeadLine + env.lastTime < now))

/-- `index++; if index == total { break }`. -/
def advance (s : FileScan) : Pass :=
  if s.index + 1 = s.total then .done s.search else .next { s with index := s.index + 1 }

/-- One pass of the loop over the file `name`, whose bytes are `file`. -/
def scanStep (file : Option (List UInt8)) (name : List Char) (s : FileScan) : Pass :=
  if s.total = 0 then
    match parseName env.addrPlotID name with
    | none => .done s.search
    | some (pubID, nonce, total) =>
      match loadData file env.scoopID total s.data with
      | none => .panic
      | some data => .next { s with total := total, index := 0, pubID := pubID, nonce := nonce, data := data }
  else
    let n := s.nonce + uint64OfInt s.index
    if env.minNonce ≤ n ∧ n ≤ env.maxNonce then
      -- `data[64 * index + k]` for `k < 64`
      let off := wrapInt64 (64 * s.index)
      if off < 0 ∨ s.data.length < off.toNat + 64 then .panic
      else
        match judge H env s.pubID n (slice s.data off.toNat (off.toNat + 32))
            (slice s.data (off.toNat + 32) (off.toNat + 64)) s.search with
        | none => .panic
        | some (m, true) => .found m
        | some (m, false) => advance { s with search := m }
    else advance s

/-- The loop over one file, for at most `fuel` passes: `none` if it has not ended by then. -/
def scanFile (file : Option (List UInt8)) (name : List Char) : ℕ → FileScan → Option Pass
  | 0, _ => none
  | fuel + 1, s =>
    match scanStep H env file name s with
    | .next s' => scanFile file name fuel s'
    | p => some p

end GoXdn.Consensus
