import Mathlib

/-!
# Weighted random selection

`les/randselect.go`. A `weightedRandomSelect` keeps its items in a tree of `wrsNode`s of
`wrsBranches = 8` slots: a node of level 0 holds items, one of level `l + 1` holds nodes of level
`l`, and every node keeps the weight of each slot and their sum. An item's place is one number,
the index `insert` returns and `setWeight` walks down again: at a node of `maxItems` places the
branch is the index divided by `maxItems / wrsBranches`. A full root gets a new root above it; the
tree never shrinks, and a removed item only empties its leaf slot.

The weights are Go's `int64` and wrap around. `rand.Int63n` and an item's `Weight()` are inputs:
`choose` takes the values the random source returned and the items' weights at the call.
-/

namespace GoXdn.Les

/-- `wrsBranches`. -/
def wrsBranches : ℕ := 8

instance : NeZero wrsBranches := ⟨by decide⟩

/-- How the code panics: `panic(nil)`, a failed type assertion, an index out of range, an
integer division by zero, and `rand.Int63n` of a bound that is not positive. -/
inductive WrsPanic
  | panicNil
  | typeAssertion
  | indexOutOfRange
  | divideByZero
  | invalidArgument
  deriving DecidableEq, Repr

mutual
/-- A value of a node's `items` array, an `interface{}`: `nil`, a `wrsItem` or a `*wrsNode`. -/
inductive Entry (α : Type) where
  | nil
  | item (a : α)
  | node (n : WrsNode α)
/-- `wrsNode`. -/
structure WrsNode (α : Type) where
  items : Fin wrsBranches → Entry α
  weights : Fin wrsBranches → Int64
  sumWeight : Int64
  level : ℕ
  itemCnt : ℕ
  maxItems : ℕ
end

variable {α : Type}

mutual
/-- The measure the walks down the tree decrease: above the node's level and above the rank of
every child. -/
def WrsNode.rank : WrsNode α → ℕ
  | ⟨items, _, _, level, _, _⟩ => max (level + 1) (Finset.univ.sup (fun i => (items i).rank) + 1)
/-- The rank of a node in a slot, and 0 for the other values. -/
def Entry.rank : Entry α → ℕ
  | .node n => n.rank
  | _ => 0
end

theorem WrsNode.rank_items_lt (n : WrsNode α) (i : Fin wrsBranches) : (n.items i).rank < n.rank := by
  obtain ⟨items, _, _, level, _, _⟩ := n
  have := Finset.le_sup (f := fun i => (items i).rank) (Finset.mem_univ i)
  simp only [WrsNode.rank]
  omega

theorem WrsNode.level_lt_rank (n : WrsNode α) : n.level < n.rank := by
  obtain ⟨items, _, _, level, _, _⟩ := n
  simp only [WrsNode.rank]
  omega

/-- `&wrsNode{maxItems: maxItems, level: level}`. -/
def WrsNode.empty (level maxItems : ℕ) : WrsNode α :=
  ⟨fun _ => .nil, fun _ => 0, 0, level, 0, maxItems⟩

theorem WrsNode.rank_empty (level maxItems : ℕ) : (WrsNode.empty level maxItems : WrsNode α).rank = level + 1 := by
  simp [WrsNode.empty, WrsNode.rank, Entry.rank]

/-- The node `insert` descends into at a slot: a new node for `nil`, the node in the slot, and a
failed type assertion for an item. -/
def Entry.subNode (e : Entry α) (level maxItems : ℕ) : Except WrsPanic (WrsNode α) :=
  match e with
  | .nil => pure (WrsNode.empty level maxItems)
  | .node c => pure c
  | .item _ => throw .typeAssertion

theorem Entry.rank_subNode {e : Entry α} {level maxItems : ℕ} {c : WrsNode α}
    (h : e.subNode level maxItems = .ok c) : c.rank ≤ max e.rank (level + 1) := by
  cases e with
  | nil =>
    cases h
    rw [WrsNode.rank_empty]
    omega
  | node c' =>
    cases h
    exact le_max_left _ _
  | item _ => cases h

/-- The loop at the head of `insert`: the first branch whose slot is empty or, above level 0,
holds a node that is not full; `panic(nil)` when there is none. -/
def insertBranch (items : Fin wrsBranches → Entry α) (level : ℕ) :
    List (Fin wrsBranches) → Except WrsPanic (Fin wrsBranches)
  | [] => throw .panicNil
  | b :: bs =>
    match items b with
    | .nil => pure b
    -- the type assertion `.(*wrsNode)` is only reached above level 0
    | .item _ => if level = 0 then insertBranch items level bs else throw .typeAssertion
    | .node c => if level = 0 ∨ c.itemCnt = c.maxItems then insertBranch items level bs else pure b

/-- `insert(item, weight)`: the item's index and the node after it. -/
def WrsNode.insert (n : WrsNode α) (item : α) (weight : Int64) : Except WrsPanic (ℕ × WrsNode α) := do
  let branch ← insertBranch n.items n.level (List.finRange wrsBranches)
  let n' : WrsNode α :=
    { n with
      itemCnt := n.itemCnt + 1
      sumWeight := n.sumWeight + weight
      weights := Function.update n.weights branch (n.weights branch + weight) }
  if _hlevel : n.level = 0 then
    pure (branch, { n' with items := Function.update n.items branch (.item item) })
  else
    match _hsub : (n.items branch).subNode (n.level - 1) (n.maxItems / wrsBranches) with
    | .error e => throw e
    | .ok subNode =>
      let (subIdx, subNode) ← subNode.insert item weight
      pure (subNode.maxItems * branch + subIdx,
        { n' with items := Function.update n.items branch (.node subNode) })
termination_by n.rank
decreasing_by
  have := Entry.rank_subNode _hsub
  have := n.rank_items_lt branch
  have := n.level_lt_rank
  omega

/-- `setWeight(idx, weight)`: the change of the stored weight, and the node after it. -/
def WrsNode.setWeight (n : WrsNode α) (idx : ℕ) (weight : Int64) : Except WrsPanic (Int64 × WrsNode α) :=
  if n.level = 0 then
    if h : idx < wrsBranches then
      let i : Fin wrsBranches := ⟨idx, h⟩
      let oldWeight := n.weights i
      let diff := weight - oldWeight
      let n : WrsNode α :=
        { n with
          weights := Function.update n.weights i weight
          sumWeight := n.sumWeight + diff }
      if weight = 0 then
        pure (diff, { n with items := Function.update n.items i .nil, itemCnt := n.itemCnt - 1 })
      else pure (diff, n)
    else throw .indexOutOfRange
  else
    let branchItems := n.maxItems / wrsBranches
    if branchItems = 0 then throw .divideByZero
    else
      let branch := idx / branchItems
      if h : branch < wrsBranches then
        let b : Fin wrsBranches := ⟨branch, h⟩
        match _hc : n.items b with
        | .node c => do
          let (diff, c) ← c.setWeight (idx - branch * branchItems) weight
          pure (diff,
            { n with
              items := Function.update n.items b (.node c)
              weights := Function.update n.weights b (n.weights b + diff)
              sumWeight := n.sumWeight + diff
              itemCnt := if weight = 0 then n.itemCnt - 1 else n.itemCnt })
        | _ => throw .typeAssertion
      else throw .indexOutOfRange
termination_by n.rank
decreasing_by
  have := n.rank_items_lt b
  rw [_hc] at this
  exact this

/-- The loop of `choose` over the weights: the first branch whose weight exceeds what is left of
`val`, with what is left. -/
def chooseBranch (weights : Fin wrsBranches → Int64) :
    List (Fin wrsBranches) → Int64 → Option (Fin wrsBranches × Int64)
  | [], _ => none
  | i :: is, val => if val < weights i then some (i, val) else chooseBranch weights is (val - weights i)

/-- `choose(val)`: the item and its stored weight. -/
def WrsNode.choose (n : WrsNode α) (val : Int64) : Except WrsPanic (α × Int64) :=
  match chooseBranch n.weights (List.finRange wrsBranches) val with
  | none => throw .panicNil
  | some (i, val) =>
    if n.level = 0 then
      -- `n.items[i].(wrsItem)`
      match n.items i with
      | .item a => pure (a, n.weights i)
      | _ => throw .typeAssertion
    else
      match _hc : n.items i with
      | .node c => c.choose val
      | _ => throw .typeAssertion
termination_by n.rank
decreasing_by
  have := n.rank_items_lt i
  rw [_hc] at this
  exact this

/-- The new root that `setWeight` puts over a full root: one level up, the old root in its first
slot. -/
def WrsNode.addLevel (root : WrsNode α) : WrsNode α :=
  { items := Function.update (fun _ => .nil) 0 (.node root),
    weights := Function.update (fun _ => 0) 0 root.sumWeight,
    sumWeight := root.sumWeight, level := root.level + 1, itemCnt := root.itemCnt,
    maxItems := root.maxItems * wrsBranches }

/-- `weightedRandomSelect`: the root, and the index of each item in the tree (Go's `idx` map). -/
structure WeightedRandomSelect (α : Type) where
  root : WrsNode α
  idx : α → Option ℕ

/-- `newWeightedRandomSelect()`. -/
def newWeightedRandomSelect : WeightedRandomSelect α :=
  ⟨WrsNode.empty 0 wrsBranches, fun _ => none⟩

namespace WeightedRandomSelect

variable [DecidableEq α]

/-- `setWeight(item, weight)`: a known item takes the weight and is dropped from the index at 0; an
unknown one with a weight is inserted, under a new root if the root is full. -/
def setWeight (w : WeightedRandomSelect α) (item : α) (weight : Int64) :
    Except WrsPanic (WeightedRandomSelect α) :=
  match w.idx item with
  | some idx => do
    let (_, root) ← w.root.setWeight idx weight
    pure ⟨root, if weight = 0 then Function.update w.idx item none else w.idx⟩
  | none =>
    if weight ≠ 0 then do
      let root := if w.root.itemCnt = w.root.maxItems then w.root.addLevel else w.root
      let (i, root) ← root.insert item weight
      pure ⟨root, Function.update w.idx item (some i)⟩
    else pure w

/-- `update(item)`, where `weight` is what `item.Weight()` returns at the call. -/
def update (w : WeightedRandomSelect α) (item : α) (weight : Int64) :
    Except WrsPanic (WeightedRandomSelect α) :=
  w.setWeight item weight

/-- `remove(item)`. -/
def remove (w : WeightedRandomSelect α) (item : α) : Except WrsPanic (WeightedRandomSelect α) :=
  w.setWeight item 0

/-- `choose()`. Each pass of the loop reads a pair of `draws`, the values `rand.Int63n` returns:
the first drawn below the root's sum, the second below the chosen item's last weight (read only
when its weight has dropped). `weight` gives each item's `Weight()`. The result is `none` if the
loop runs past the draws, and otherwise what `choose` returns, `nil` for an empty set. -/
def choose (weight : α → Int64) :
    WeightedRandomSelect α → List (Int64 × Int64) →
      Except WrsPanic (Option (Option α) × WeightedRandomSelect α)
  | w, [] => pure (none, w)
  | w, (val, coin) :: draws =>
    if w.root.sumWeight = 0 then pure (some none, w)
    else if w.root.sumWeight < 0 then throw .invalidArgument
    else do
      let (choice, lastWeight) ← w.root.choose val
      let wt := weight choice
      let w ← if wt ≠ lastWeight then w.setWeight choice wt else pure w
      if wt ≥ lastWeight then pure (some (some choice), w)
      else if lastWeight ≤ 0 then throw .invalidArgument
      else if coin < wt then pure (some (some choice), w)
      else choose weight w draws

end WeightedRandomSelect

end GoXdn.Les
