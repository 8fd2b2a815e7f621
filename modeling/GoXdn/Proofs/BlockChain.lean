import Mathlib
import GoXdn.Core.BlockChain
import GoXdn.Lib.GoStd

/-!
# The canonical index under fork choice

`WriteBlockAndState` writes canonical entries only at the heights of the blocks it inserts: the
new block and, through `reorg`, the new branch below it. Nothing deletes an entry above the new
block, so after a reorganisation onto a lower block the entries of the longer old branch stay,
and `GetBlockByNumber` still returns its blocks. `WriteHeader`, on the same data, deletes them.
-/

namespace GoXdn.Core

open GoStd

namespace ChainDb

lemma lookup_filter_ne (l : List (ℕ × ℕ)) {n m : ℕ} (h : n ≠ m) :
    (l.filter (fun e => e.1 != m)).lookup n = l.lookup n := by
  induction l with
  | nil => rfl
  | cons e l ih =>
    obtain ⟨a, b⟩ := e
    by_cases ha : a = m
    · subst ha
      have hna : (n == a) = false := beq_false_of_ne h
      simp [List.filter, List.lookup_cons, hna, ih]
    · have ham : (a != m) = true := bne_iff_ne.mpr ha
      simp only [List.filter, ham, List.lookup_cons, ih]

lemma lookup_filter_self (l : List (ℕ × ℕ)) (m : ℕ) :
    (l.filter (fun e => e.1 != m)).lookup m = none := by
  induction l with
  | nil => rfl
  | cons e l ih =>
    obtain ⟨a, b⟩ := e
    by_cases ha : a = m
    · simp [List.filter, ha, ih]
    · have ham : (a != m) = true := bne_iff_ne.mpr ha
      have hma : (m == a) = false := beq_false_of_ne (Ne.symm ha)
      simp only [List.filter, ham, List.lookup_cons, hma, ih]

@[simp] lemma getCanonicalHash_writeCanonicalHash (db : ChainDb) (hash number n : ℕ) :
    (db.writeCanonicalHash hash number).getCanonicalHash n =
      if n = number then hash else db.getCanonicalHash n := by
  unfold getCanonicalHash writeCanonicalHash
  split_ifs with h
  · simp [h]
  · have hb : (n == number) = false := beq_false_of_ne h
    simp [List.lookup_cons, hb, lookup_filter_ne _ h]

@[simp] lemma getCanonicalHash_deleteCanonicalHash (db : ChainDb) (number n : ℕ) :
    (db.deleteCanonicalHash number).getCanonicalHash n =
      if n = number then 0 else db.getCanonicalHash n := by
  unfold getCanonicalHash deleteCanonicalHash
  split_ifs with h
  · simp [h, lookup_filter_self]
  · simp [lookup_filter_ne _ h]

@[simp] lemma canonical_writeTd (db : ChainDb) (hash number td : ℕ) :
    (db.writeTd hash number td).canonical = db.canonical := rfl

@[simp] lemma canonical_writeBlock (db : ChainDb) (block : Header) :
    (db.writeBlock block).canonical = db.canonical := rfl

@[simp] lemma getCanonicalHash_writeTd (db : ChainDb) (hash number td n : ℕ) :
    (db.writeTd hash number td).getCanonicalHash n = db.getCanonicalHash n := rfl

@[simp] lemma getCanonicalHash_writeBlock (db : ChainDb) (block : Header) (n : ℕ) :
    (db.writeBlock block).getCanonicalHash n = db.getCanonicalHash n := rfl

/-- Every header is stored under its own number, as the writes of the source store it. -/
def Consistent (db : ChainDb) : Prop :=
  ∀ h n b, db.header h n = some b → b.number = n

lemma Consistent.getBlock {db : ChainDb} (hc : db.Consistent) {h n : ℕ} {b : Header}
    (hb : db.getBlock h n = some b) : b.number = n := by
  unfold ChainDb.getBlock at hb
  split at hb
  · exact hc h n b hb
  · cases hb

lemma Consistent.writeTd {db : ChainDb} (hc : db.Consistent) (hash number td : ℕ) :
    (db.writeTd hash number td).Consistent := hc

lemma Consistent.of_header_eq {db db' : ChainDb} (hc : db.Consistent)
    (h : db'.header = db.header) : db'.Consistent := by
  intro x n b hb
  rw [h] at hb
  exact hc x n b hb

lemma Consistent.writeHeader {db : ChainDb} (hc : db.Consistent) (header : Header) :
    (db.writeHeader header).Consistent := by
  intro x n b hb
  dsimp only [ChainDb.writeHeader] at hb
  split_ifs at hb with hx
  · cases hb
    exact hx.2.symm
  · exact hc x n b hb

lemma Consistent.writeBlock {db : ChainDb} (hc : db.Consistent) (block : Header) :
    (db.writeBlock block).Consistent :=
  hc.writeHeader block

end ChainDb

namespace HeaderChain

lemma header_deleteCanonicalFrom :
    ∀ (fuel : ℕ) (db : ChainDb) (i : ℕ), (deleteCanonicalFrom fuel db i).header = db.header
  | 0, _, _ => rfl
  | fuel + 1, db, i => by
    unfold deleteCanonicalFrom
    split_ifs
    · rfl
    · exact header_deleteCanonicalFrom fuel _ _

lemma header_overwriteStale : ∀ (fuel : ℕ) (db : ChainDb) (hash number : ℕ) (db' : ChainDb),
    overwriteStale fuel db hash number = some db' → db'.header = db.header
  | 0, _, _, _, _, h => by cases h
  | fuel + 1, db, hash, number, db', h => by
    unfold overwriteStale at h
    split_ifs at h
    · cases h
      rfl
    · split at h
      · cases h
      · exact (header_overwriteStale fuel _ _ _ _ h :)

/-- `WriteHeader` stores the header under its own number and writes no other header. -/
lemma consistent_writeHeader {hc : HeaderChain} (hcon : hc.db.Consistent) (header : Header)
    (coin : Bool) : (hc.writeHeader header coin).1.db.Consistent := by
  have hw : ∀ td, ((hc.db.writeTd header.hash header.number td).writeHeader header).Consistent :=
    fun td => (hcon.writeTd _ _ td).writeHeader header
  unfold writeHeader
  split
  · exact hcon
  · exact hcon
  · dsimp only
    split_ifs
    · split
      · exact (hw _).of_header_eq (header_deleteCanonicalFrom _ _ _)
      · rename_i db' hdb'
        exact (hw _).of_header_eq
          ((header_overwriteStale _ _ _ _ _ hdb').trans (header_deleteCanonicalFrom _ _ _))
    · exact hw _

end HeaderChain

namespace BlockChain

@[simp] lemma db_setDb (bc : BlockChain) (db : ChainDb) : (bc.setDb db).db = db := rfl

@[simp] lemma currentBlock_setDb (bc : BlockChain) (db : ChainDb) :
    (bc.setDb db).currentBlock = bc.currentBlock := rfl

lemma canonical_insert (bc : BlockChain) (block : Header) :
    (bc.insert block).db.canonical = (bc.db.writeCanonicalHash block.hash block.number).canonical := by
  unfold insert
  dsimp only
  split_ifs <;> rfl

lemma header_insert (bc : BlockChain) (block : Header) :
    (bc.insert block).db.header = bc.db.header := by
  unfold insert
  dsimp only
  split_ifs <;> rfl

lemma header_foldl_insert :
    ∀ (l : List Header) (bc : BlockChain), (l.foldl insert bc).db.header = bc.db.header
  | [], _ => rfl
  | b :: l, bc => (header_foldl_insert l (bc.insert b)).trans (header_insert bc b)

lemma insert_canonical (bc : BlockChain) (block : Header) (n : ℕ) :
    (bc.insert block).db.getCanonicalHash n =
      if n = block.number then block.hash else bc.db.getCanonicalHash n := by
  rw [← ChainDb.getCanonicalHash_writeCanonicalHash]
  unfold ChainDb.getCanonicalHash
  rw [canonical_insert]

/-- Inserting blocks of other heights leaves a canonical entry as it is. -/
lemma foldl_insert_canonical (n : ℕ) :
    ∀ (l : List Header) (bc : BlockChain), (∀ b ∈ l, b.number ≠ n) →
      (l.foldl insert bc).db.getCanonicalHash n = bc.db.getCanonicalHash n := by
  intro l
  induction l with
  | nil => intro bc _; rfl
  | cons b l ih =>
    intro bc hl
    rw [List.foldl_cons, ih _ (fun x hx => hl x (List.mem_cons_of_mem _ hx)), insert_canonical,
      if_neg (Ne.symm (hl b List.mem_cons_self))]

section Walks

variable {db : ChainDb} (hc : db.Consistent)
include hc

/-- The walk down to `target` passes and ends on blocks no higher than where it starts. -/
lemma reduce_le (target : ℕ) :
    ∀ fuel b, (∀ x ∈ (reduce db target fuel b).1, x.number ≤ b.number) ∧
      ∀ o, (reduce db target fuel b).2 = some o → o.number ≤ b.number := by
  intro fuel
  induction fuel with
  | zero => intro b; simp [reduce]
  | succ fuel ih =>
    intro b
    simp only [reduce]
    split_ifs with h
    · simp
    · split
      · simp
      · rename_i p hp
        have hpn : p.number = b.number - 1 := hc.getBlock hp
        obtain ⟨h1, h2⟩ := ih p
        refine ⟨?_, fun o ho => (h2 o ho).trans (by omega)⟩
        intro x hx
        rcases List.mem_cons.mp hx with rfl | hx
        · exact le_refl _
        · exact (h1 x hx).trans (by omega)

/-- The walk to the common ancestor passes new-branch blocks no higher than where it starts. -/
lemma collectNew_le :
    ∀ fuel oldBlock newBlock l, collectNew db fuel oldBlock newBlock = .ok l →
      ∀ x ∈ l, x.number ≤ newBlock.number := by
  intro fuel
  induction fuel with
  | zero => intro o n l h; cases h
  | succ fuel ih =>
    intro o n l h
    simp only [collectNew] at h
    split_ifs at h
    · cases h; simp
    · split at h
      · cases h
      · cases h
      · rename_i o' n' _ hn'
        have hnum : n'.number = n.number - 1 := hc.getBlock hn'
        obtain ⟨rest, hrest, rfl⟩ := map_eq_ok.mp h
        intro x hx
        rcases List.mem_cons.mp hx with rfl | hx
        · exact le_refl _
        · exact (ih o' n' rest hrest x hx).trans (by omega)

/-- Every block `reorg` inserts is no higher than the new block. -/
lemma newChain_le {oldBlock newBlock : Header} {l : List Header}
    (h : newChain db oldBlock newBlock = .ok l) : ∀ x ∈ l, x.number ≤ newBlock.number := by
  unfold newChain at h
  split_ifs at h
  · split at h
    · cases h
    · exact collectNew_le hc _ _ _ _ h
  · dsimp only at h
    split at h
    · cases h
    · rename_i n hn
      have hn_le := (reduce_le hc oldBlock.number (newBlock.number + 1) newBlock).2 n hn
      have htop := (reduce_le hc oldBlock.number (newBlock.number + 1) newBlock).1
      obtain ⟨rest, hrest, rfl⟩ := map_eq_ok.mp h
      intro x hx
      rcases List.mem_append.mp hx with hx | hx
      · exact htop x hx
      · exact (collectNew_le hc _ _ _ _ hrest x hx).trans hn_le

end Walks

/-- `reorg` leaves every canonical entry above the new block as it is. -/
lemma reorg_canonical_above {bc bc' : BlockChain} {oldBlock newBlock : Header}
    (hc : bc.db.Consistent) (h : bc.reorg oldBlock newBlock = .ok bc') {m : ℕ}
    (hm : newBlock.number < m) : bc'.db.getCanonicalHash m = bc.db.getCanonicalHash m := by
  obtain ⟨l, hl, rfl⟩ := map_eq_ok.mp h
  exact foldl_insert_canonical m l bc fun x hx => by
    have := newChain_le hc hl x hx
    omega

/-- `WriteBlockAndState` leaves every canonical entry above the block it writes as it is,
whatever it decides. -/
theorem writeBlockAndState_canonical_above (bc : BlockChain) (block : Header) (coin : Bool)
    (hc : bc.db.Consistent) {m : ℕ} (hm : block.number < m) :
    (bc.writeBlockAndState block coin).1.db.getCanonicalHash m = bc.db.getCanonicalHash m := by
  unfold writeBlockAndState
  split
  · rfl
  · rfl
  · rename_i ptd localTd _ _
    dsimp only
    split_ifs with htake hpar
    · split
      · rfl
      · rename_i bc' hr
        have hc' : (bc.setDb (bc.db.writeTd block.hash block.number (block.difficulty + ptd))).db.Consistent :=
          hc.writeTd _ _ _
        rw [insert_canonical, if_neg (by omega), db_setDb, ChainDb.getCanonicalHash_writeBlock,
          reorg_canonical_above hc' hr hm]
        rfl
    · split
      · rfl
      · rename_i bc' hr
        cases hr
        rw [insert_canonical, if_neg (by omega)]
        rfl
    · rfl

lemma header_reorg {bc bc' : BlockChain} {oldBlock newBlock : Header}
    (h : bc.reorg oldBlock newBlock = .ok bc') : bc'.db.header = bc.db.header := by
  obtain ⟨l, -, rfl⟩ := map_eq_ok.mp h
  exact header_foldl_insert l bc

/-- `WriteBlockAndState` writes the block under its own number; `reorg` and `insert` write no
header. -/
lemma consistent_writeBlockAndState {bc : BlockChain} (hc : bc.db.Consistent) (block : Header)
    (coin : Bool) : (bc.writeBlockAndState block coin).1.db.Consistent := by
  unfold writeBlockAndState
  split
  · exact hc
  · exact hc
  · dsimp only
    split_ifs
    · split
      · exact hc.writeTd _ _ _
      · rename_i bc' hr
        have hbc' := header_reorg hr
        exact (((hc.writeTd _ _ _).of_header_eq hbc').writeBlock block).of_header_eq
          (header_insert _ _)
    · split
      · exact hc.writeTd _ _ _
      · rename_i bc' hr
        cases hr
        exact ((hc.writeTd _ _ _).writeBlock block).of_header_eq (header_insert _ _)
    · exact (hc.writeTd _ _ _).writeBlock block

section Runs

variable (verdict : BlockChain → Header → Verdict) (coin : ℕ → Bool)

lemma consistent_insertBlocks : ∀ (i : ℕ) (l : List Header) (bc : BlockChain),
    bc.db.Consistent → (insertBlocks verdict coin i l bc).1.db.Consistent
  | _, [], _, hc => hc
  | i, block :: rest, bc, hc => by
    unfold insertBlocks
    split
    · exact consistent_insertBlocks (i + 1) rest bc hc
    · exact consistent_insertBlocks (i + 1) rest bc hc
    · exact hc
    · have hw := consistent_writeBlockAndState hc block (coin i)
      split
      · rename_i hwr
        rw [hwr] at hw
        exact hw
      · rename_i hwr
        rw [hwr] at hw
        exact consistent_insertBlocks (i + 1) rest _ hw

lemma consistent_insertChain {bc : BlockChain} (hc : bc.db.Consistent) (chain : List Header) :
    (bc.insertChain verdict coin chain).1.db.Consistent := by
  unfold insertChain
  split_ifs
  · exact consistent_insertBlocks verdict coin 0 chain bc hc
  · exact hc

/-- By induction on the blocks: each one written leaves the entries above it, and the chain it
leaves still stores every header under its own number. -/
lemma insertBlocks_canonical_above {m : ℕ} : ∀ (i : ℕ) (l : List Header) (bc : BlockChain),
    bc.db.Consistent → (∀ b ∈ l, b.number < m) →
      (insertBlocks verdict coin i l bc).1.db.getCanonicalHash m = bc.db.getCanonicalHash m
  | _, [], _, _, _ => rfl
  | i, block :: rest, bc, hc, hm => by
    have hrest : ∀ b ∈ rest, b.number < m := fun b hb => hm b (List.mem_cons_of_mem _ hb)
    have hcan := writeBlockAndState_canonical_above bc block (coin i) hc (hm block List.mem_cons_self)
    have hw := consistent_writeBlockAndState hc block (coin i)
    unfold insertBlocks
    split
    · exact insertBlocks_canonical_above (i + 1) rest bc hc hrest
    · exact insertBlocks_canonical_above (i + 1) rest bc hc hrest
    · rfl
    · split
      · rename_i hwr
        rw [hwr] at hcan
        exact hcan
      · rename_i hwr
        rw [hwr] at hcan hw
        exact (insertBlocks_canonical_above (i + 1) rest _ hw hrest).trans hcan

lemma consistent_genesis (g : Header) : (genesis g).db.Consistent :=
  ((ChainDb.Consistent.writeTd (fun _ _ _ hb => by cases hb) _ _ _).writeBlock g).of_header_eq rfl

/-- Every call keeps every header stored under its own number, so every chain the calls reach
from a genesis does. -/
lemma consistent_run (g : Header) :
    ∀ (ops : List ChainOp), (ChainOp.run verdict (genesis g) ops).db.Consistent := by
  suffices h : ∀ (ops : List ChainOp) (bc : BlockChain), bc.db.Consistent →
      (ops.foldl (ChainOp.apply verdict) bc).db.Consistent from
    fun ops => h ops _ (consistent_genesis g)
  intro ops
  induction ops with
  | nil => exact fun _ hc => hc
  | cons op ops ih =>
    intro bc hc
    refine ih _ ?_
    cases op with
    | insertChain chain coin => exact consistent_insertChain verdict coin hc chain
    | writeHeader header coin => exact HeaderChain.consistent_writeHeader hc header coin

end Runs

/-- On every chain the calls reach from a genesis, `InsertChain` leaves the canonical entry of
every height above the blocks it is given as it is, whatever the checks, total difficulties
and draws decide. -/
theorem insertChain_keeps_canonical_above (verdict : BlockChain → Header → Verdict)
    (coin : ℕ → Bool) (g : Header) (ops : List ChainOp) (chain : List Header) {m : ℕ}
    (hm : ∀ b ∈ chain, b.number < m) :
    ((ChainOp.run verdict (genesis g) ops).insertChain verdict coin chain).1.db.getCanonicalHash m =
      (ChainOp.run verdict (genesis g) ops).db.getCanonicalHash m := by
  unfold insertChain
  split_ifs
  · exact insertBlocks_canonical_above verdict coin 0 chain _ (consistent_run verdict g ops) hm
  · rfl

/-- After `A1` and `A2` on the genesis, `InsertChain [B1]` leaves `A2` canonical at height 2. -/
theorem insertChain_keeps_canonical_above_fork :
    (∀ b ∈ [(⟨4, 1, 1, 2⟩ : Header)], b.number < 2) ∧
      ((ChainOp.run (fun _ _ => .pass) (genesis ⟨1, 0, 0, 1⟩)
          [.insertChain [⟨2, 1, 1, 1⟩, ⟨3, 2, 2, 1⟩] (fun _ => false)]).insertChain
          (fun _ _ => .pass) (fun _ => false) [⟨4, 1, 1, 2⟩]).1.db.getCanonicalHash 2 =
        (ChainOp.run (fun _ _ => .pass) (genesis ⟨1, 0, 0, 1⟩)
          [.insertChain [⟨2, 1, 1, 1⟩, ⟨3, 2, 2, 1⟩] (fun _ => false)]).db.getCanonicalHash 2 :=
  ⟨by decide, insertChain_keeps_canonical_above _ _ _ _ _ (by decide)⟩

/-- The genesis `G` (hash 1), then `A1` and `A2` (hashes 2 and 3, difficulty 1) on it, then `B1`
(hash 4), a child of `G` of difficulty 2: its total difficulty ties with `A2`'s and the number
rule makes it the head, but the canonical entry of `A2` at height 2 stays above the head header,
and `GetBlockByNumber 2` returns `A2`, which is not on the chain of the head `B1`. -/
theorem insertChain_keeps_stale_canonical :
    ∃ bc, ChainOp.run (fun _ _ => .pass) (genesis ⟨1, 0, 0, 1⟩)
        [.insertChain [⟨2, 1, 1, 1⟩, ⟨3, 2, 2, 1⟩] (fun _ => false),
          .insertChain [⟨4, 1, 1, 2⟩] (fun _ => false)] = bc ∧
      bc.hc.currentHeader = ⟨4, 1, 1, 2⟩ ∧ bc.currentBlock = ⟨4, 1, 1, 2⟩ ∧
      bc.db.getCanonicalHash 2 = 3 ∧ bc.getBlockByNumber 2 = some ⟨3, 2, 2, 1⟩ :=
  ⟨_, rfl, by decide⟩

end BlockChain

end GoXdn.Core
