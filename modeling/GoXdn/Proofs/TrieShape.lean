import Mathlib
import GoXdn.Trie.Hasher

/-!
# The shape of a trie in memory

What a trie stores is read off its nodes as the value at the end of each path of nibbles
(`Node.valueAt`): a short node passes on the rest of a path that starts with its key, a full
node the rest after the nibble that picks its child, and a value node ends a path. A trie that
`insert` and `delete` build from the empty one has a shape (`Node.Wf`): every full node has its
seventeen slots and at least two children, a value only in the last; every short node a
non-empty key and a child that is neither a short node nor nil, a value exactly when the key ends
with the terminator; and no hash node.

Below a node the paths that end at values are the rests of keys in nibbles (`HexSuffix`): no
such path is a proper prefix of another, so a key walks down to its own slot. On a subtrie that
fits the key (`Node.Compatible`) and with a budget longer than the key, `insert` succeeds, keeps
the shape and sets the value at the key and nowhere else (`insert_spec`).
-/

namespace GoXdn.Mpt

namespace Node

/-- A short node. -/
def isShort : Node → Bool
  | shortNode .. => true
  | _ => false

/-- A full node. -/
def isFull : Node → Bool
  | fullNode .. => true
  | _ => false

mutual
/-- The value at the end of the path `p` of nibbles below a node. -/
def valueAt : Node → List UInt8 → Option (List UInt8)
  | valueNode v, [] => some v
  | shortNode k c _, p => if k <+: p then valueAt c (p.drop k.length) else none
  | fullNode cs _, i :: p => valueAtChild cs i.toNat p
  | _, _ => none
/-- The value at the end of `p` below child `i`. -/
def valueAtChild : List Node → ℕ → List UInt8 → Option (List UInt8)
  | [], _, _ => none
  | c :: _, 0, p => valueAt c p
  | _ :: cs, i + 1, p => valueAtChild cs i p
end

@[simp]
theorem valueAt_nil (p : List UInt8) : nil.valueAt p = none := by
  cases p <;> rfl

@[simp]
theorem valueAt_hashNode (h p : List UInt8) : (hashNode h).valueAt p = none := by
  cases p <;> rfl

theorem valueAt_valueNode (v p : List UInt8) :
    (valueNode v).valueAt p = if p = [] then some v else none := by
  cases p with
  | nil => rfl
  | cons x p => exact (if_neg (List.cons_ne_nil x p)).symm

theorem valueAt_shortNode (k : List UInt8) (c : Node) (f : NodeFlag) (p : List UInt8) :
    (shortNode k c f).valueAt p = if k <+: p then c.valueAt (p.drop k.length) else none :=
  rfl

theorem valueAtChild_eq : ∀ (cs : List Node) (i : ℕ) (p : List UInt8),
    valueAtChild cs i p = cs[i]?.bind (·.valueAt p)
  | [], _, _ => rfl
  | c :: _, 0, p => rfl
  | _ :: cs, i + 1, p => by
    rw [List.getElem?_cons_succ]
    exact valueAtChild_eq cs i p

@[simp]
theorem valueAt_fullNode_nil (cs : List Node) (f : NodeFlag) : (fullNode cs f).valueAt [] = none :=
  rfl

theorem valueAt_fullNode_cons (cs : List Node) (f : NodeFlag) (i : UInt8) (p : List UInt8) :
    (fullNode cs f).valueAt (i :: p) = cs[i.toNat]?.bind (·.valueAt p) :=
  valueAtChild_eq cs i.toNat p

theorem valueAt_shortNode_append (k : List UInt8) (c : Node) (f : NodeFlag) (q : List UInt8) :
    (shortNode k c f).valueAt (k ++ q) = c.valueAt q := by
  simp [valueAt_shortNode]

theorem valueAt_shortNode_eq_none {k p : List UInt8} (c : Node) (f : NodeFlag)
    (h : ¬ k <+: p) : (shortNode k c f).valueAt p = none := by
  simp [valueAt_shortNode, h]

/-- A key of two parts is a short node of the first above a short node of the second. -/
theorem valueAt_shortNode_shortNode (a b : List UInt8) (c : Node) (f g h : NodeFlag) :
    (shortNode (a ++ b) c f).valueAt = (shortNode a (shortNode b c g) h).valueAt := by
  funext p
  by_cases ha : a <+: p
  · obtain ⟨q, rfl⟩ := ha
    rw [valueAt_shortNode_append]
    by_cases hb : b <+: q
    · obtain ⟨r, rfl⟩ := hb
      rw [← List.append_assoc, valueAt_shortNode_append, valueAt_shortNode_append]
    · rw [valueAt_shortNode_eq_none _ _ hb, valueAt_shortNode_eq_none]
      rwa [List.prefix_append_right_inj]
  · rw [valueAt_shortNode_eq_none _ _ ha, valueAt_shortNode_eq_none]
    exact fun hab => ha ((List.prefix_append a b).trans hab)

theorem valueAt_shortNode_cons (x : UInt8) (k : List UInt8) (c : Node) (f g : NodeFlag)
    (q : List UInt8) : (shortNode (x :: k) c f).valueAt (x :: q) = (shortNode k c g).valueAt q := by
  simp [valueAt_shortNode, List.cons_prefix_cons]

/-- A short node that holds a value has that value at its key and nowhere else. -/
theorem valueAt_leaf (k v : List UInt8) (f : NodeFlag) (p : List UInt8) :
    (shortNode k (valueNode v) f).valueAt p = if p = k then some v else none := by
  by_cases hk : k <+: p
  · obtain ⟨q, rfl⟩ := hk
    rw [valueAt_shortNode_append, valueAt_valueNode]
    simp
  · rw [valueAt_shortNode_eq_none _ _ hk, if_neg]
    rintro rfl
    exact hk (List.prefix_refl p)

/-- Setting the value at `k ++ key` below a short node of key `k` is setting it at `key` below
its child. -/
theorem valueAt_shortNode_update {c c' : Node} {k key : List UInt8} {o : Option (List UInt8)}
    (f g : NodeFlag) (h : c'.valueAt = Function.update c.valueAt key o) :
    (shortNode k c' g).valueAt = Function.update (shortNode k c f).valueAt (k ++ key) o := by
  funext p
  by_cases hk : k <+: p
  · obtain ⟨q, rfl⟩ := hk
    rw [valueAt_shortNode_append, h]
    by_cases hq : q = key
    · subst hq
      simp
    · rw [Function.update_of_ne hq, Function.update_of_ne (by simpa using hq),
        valueAt_shortNode_append]
  · rw [valueAt_shortNode_eq_none _ _ hk, Function.update_of_ne, valueAt_shortNode_eq_none _ _ hk]
    rintro rfl
    exact hk (List.prefix_append k key)

/-- Setting the value at `i :: key` below a full node is setting it at `key` below child `i`. -/
theorem valueAt_fullNode_update {cs : List Node} {i : UInt8} {c c' : Node} {key : List UInt8}
    {o : Option (List UInt8)} (f g : NodeFlag) (hc : cs[i.toNat]? = some c)
    (h : c'.valueAt = Function.update c.valueAt key o) :
    (fullNode (cs.set i.toNat c') g).valueAt = Function.update (fullNode cs f).valueAt (i :: key) o := by
  funext p
  cases p with
  | nil => simp
  | cons j q =>
    rw [valueAt_fullNode_cons, List.getElem?_set]
    by_cases hj : i.toNat = j.toNat
    · obtain rfl : i = j := UInt8.toNat_inj.mp hj
      have hlt : i.toNat < cs.length := (List.getElem?_eq_some_iff.mp hc).1
      rw [if_pos rfl, if_pos hlt, Option.bind_some, h]
      by_cases hq : q = key
      · subst hq
        simp
      · rw [Function.update_of_ne hq, Function.update_of_ne (by simpa using hq), valueAt_fullNode_cons, hc,
          Option.bind_some]
    · have hne : j :: q ≠ i :: key := fun he => hj (by rw [(List.cons.inj he).1])
      rw [if_neg hj, Function.update_of_ne hne, valueAt_fullNode_cons]

end Node

/-! ### Rests of keys -/

/-- The rest of a key in nibbles: nibbles below 16 and the terminator, or nothing. -/
def HexSuffix (p : List UInt8) : Prop := p = [] ∨ ∃ a, (∀ x ∈ a, x < 16) ∧ p = a ++ [16]

theorem hexSuffix_keybytesToHex (str : List UInt8) : HexSuffix (keybytesToHex str) := by
  have hnib : ∀ b : UInt8, b / 16 < 16 ∧ b % 16 < 16 := fun b => by
    simp only [UInt8.lt_iff_toNat_lt, UInt8.toNat_div, UInt8.toNat_mod]
    have := b.toNat_lt
    constructor <;> simp <;> omega
  refine .inr ⟨_, fun x hx => ?_, rfl⟩
  obtain ⟨b, -, hb⟩ := List.mem_flatMap.mp hx
  rcases List.mem_pair.mp hb with rfl | rfl
  · exact (hnib b).1
  · exact (hnib b).2

namespace HexSuffix

theorem drop {p : List UInt8} (h : HexSuffix p) (n : ℕ) : HexSuffix (p.drop n) := by
  rcases h with rfl | ⟨a, ha, rfl⟩
  · simp [HexSuffix]
  rw [List.drop_append]
  rcases Nat.lt_or_ge a.length n with hn | hn
  · left
    simp [List.drop_eq_nil_of_le hn.le, show 1 ≤ n - a.length by omega]
  · right
    exact ⟨a.drop n, fun x hx => ha x (List.mem_of_mem_drop hx), by simp [show n - a.length = 0 by omega]⟩

theorem of_append {a b : List UInt8} (h : HexSuffix (a ++ b)) : HexSuffix b := by
  simpa using h.drop a.length

theorem le_sixteen {p : List UInt8} (h : HexSuffix p) {x : UInt8} (hx : x ∈ p) : x ≤ 16 := by
  rcases h with rfl | ⟨a, ha, rfl⟩
  · simp at hx
  rcases List.mem_append.mp hx with hx | hx
  · exact UInt8.le_of_lt (ha x hx)
  · simp [List.mem_singleton.mp hx]

/-- A nibble with more after it is no terminator. -/
theorem lt_of_ne_nil {a r : List UInt8} {x : UInt8} (h : HexSuffix (a ++ x :: r)) (hr : r ≠ []) :
    x < 16 := by
  rcases h with h | ⟨b, hb, heq⟩
  · simp at h
  have hlen := congrArg List.length heq
  simp only [List.length_append, List.length_cons, List.length_nil] at hlen
  have hlt : a.length < b.length := by
    have := List.length_pos_of_ne_nil hr
    omega
  have hget : (a ++ x :: r)[a.length]? = (b ++ [16])[a.length]? := by rw [heq]
  rw [List.getElem?_append_right le_rfl, Nat.sub_self, List.getElem?_cons_zero,
    List.getElem?_append_left hlt] at hget
  exact hb x (List.mem_of_getElem? hget.symm)

theorem head_eq_sixteen_iff {x : UInt8} {r : List UInt8} (h : HexSuffix (x :: r)) :
    x = 16 ↔ r = [] := by
  constructor
  · intro hx
    by_contra hr
    have := lt_of_ne_nil (a := []) h hr
    rw [hx] at this
    exact absurd this (by decide)
  · rintro rfl
    rcases h with h | ⟨a, -, heq⟩
    · simp at h
    obtain ⟨rfl, rfl⟩ : a = [] ∧ x = 16 := by
      cases a with
      | nil => simpa using heq
      | cons y a => simp at heq
    rfl

/-- No rest of a key is a proper prefix of another. -/
theorem eq_of_prefix {p q : List UInt8} (hp : HexSuffix p) (hq : HexSuffix q) (hne : p ≠ [])
    (hpq : p <+: q) : p = q := by
  obtain ⟨r, rfl⟩ := hpq
  rcases hp with h | ⟨a, -, rfl⟩
  · exact absurd h hne
  cases r with
  | nil => simp
  | cons y r =>
    have h16 := lt_of_ne_nil (a := a) (r := y :: r) (by simpa using hq) (List.cons_ne_nil y r)
    exact absurd h16 (by decide)

theorem hasTerm_eq_true {p : List UInt8} (h : HexSuffix p) (hne : p ≠ []) : hasTerm p = true := by
  rcases h with h | ⟨a, -, rfl⟩
  · exact absurd h hne
  simp [hasTerm]

/-- A non-empty part of a rest that has more after it does not end with the terminator. -/
theorem hasTerm_eq_false {a b : List UInt8} (h : HexSuffix (a ++ b)) (hb : b ≠ []) :
    hasTerm a = false := by
  rcases List.eq_nil_or_concat' a with rfl | ⟨a', y, rfl⟩
  · rfl
  obtain ⟨z, b', rfl⟩ := List.exists_cons_of_ne_nil hb
  have hy := lt_of_ne_nil (a := a') (x := y) (r := z :: b') (by simpa using h) (List.cons_ne_nil z b')
  have hy' : y ≠ 16 := fun h => absurd (h ▸ hy) (by decide)
  simp [hasTerm, hy']

end HexSuffix

/-! ### The shape -/

/-- Slot `i` of a full node holds a child. -/
def Occupied (cs : List Node) (i : ℕ) : Prop := ∃ c, cs[i]? = some c ∧ c.isNil = false

namespace Node

/-- The shape `insert` and `delete` keep. -/
inductive Wf : Node → Prop
  | valueNode (v : List UInt8) : Wf (valueNode v)
  | shortNode {k : List UInt8} {c : Node} {flags : NodeFlag} (hk : k ≠ [])
      (hshort : c.isShort = false) (hvalue : c.isValue = hasTerm k) (hc : Wf c) :
      Wf (shortNode k c flags)
  | fullNode {cs : List Node} {flags : NodeFlag} (hlen : cs.length = 17)
      (htwo : ∃ i j, i ≠ j ∧ Occupied cs i ∧ Occupied cs j)
      (hvalue : ∀ i c, cs[i]? = some c → c.isNil = false → (c.isValue = true ↔ i = 16))
      (hcs : ∀ c ∈ cs, c.isNil = false → Wf c) : Wf (fullNode cs flags)

theorem Wf.isNil_eq_false {n : Node} (h : n.Wf) : n.isNil = false := by
  cases h <;> rfl

theorem Wf.isFull_eq_true {n : Node} (h : n.Wf) (hs : n.isShort = false) (hv : n.isValue = false) :
    n.isFull = true := by
  cases h <;> simp_all [isShort, isValue, isFull]

/-- Below every node of the shape some path ends at a value. -/
theorem Wf.exists_value {n : Node} (h : n.Wf) : ∃ p v, n.valueAt p = some v := by
  induction h with
  | valueNode v => exact ⟨[], v, by simp [valueAt_valueNode]⟩
  | shortNode _ _ _ _ ih =>
    obtain ⟨p, v, hp⟩ := ih
    exact ⟨_ ++ p, v, by rw [valueAt_shortNode_append, hp]⟩
  | @fullNode cs _ hlen htwo _ _ ih =>
    obtain ⟨i, -, -, ⟨c, hc, hnil⟩, -⟩ := htwo
    have hi : i < 17 := hlen ▸ (List.getElem?_eq_some_iff.mp hc).1
    obtain ⟨p, v, hp⟩ := ih c (List.mem_of_getElem? hc) hnil
    refine ⟨i.toUInt8 :: p, v, ?_⟩
    have hsize : (17 : ℕ) ≤ UInt8.size := by decide
    rw [valueAt_fullNode_cons, Nat.toUInt8, UInt8.toNat_ofNat_of_lt' (by omega), hc, Option.bind_some, hp]

/-- A subtrie and the rest of a key that `insert` or `delete` walk down it with: the subtrie has
the shape or is empty, its paths and the key are rests of keys, and it is a value exactly when
the key has run out. -/
structure Compatible (n : Node) (key : List UInt8) : Prop where
  shape : n.isNil = true ∨ n.Wf
  paths : ∀ p v, n.valueAt p = some v → HexSuffix p
  keyHex : HexSuffix key
  value : n.isNil = false → (n.isValue = true ↔ key = [])

theorem Compatible.wf {n : Node} {key : List UInt8} (h : n.Compatible key) (hn : n.isNil = false) :
    n.Wf :=
  h.shape.resolve_left (by simp [hn])

theorem Compatible.shortNode_child {nk key : List UInt8} {nv : Node} {f : NodeFlag}
    (h : (shortNode nk nv f).Compatible (nk ++ key)) : nv.Compatible key := by
  obtain ⟨hk, -, hvalue, hwf⟩ : nk ≠ [] ∧ nv.isShort = false ∧ nv.isValue = hasTerm nk ∧ nv.Wf := by
    cases h.wf rfl with
    | shortNode hk hshort hvalue hc => exact ⟨hk, hshort, hvalue, hc⟩
  refine ⟨.inr hwf, fun p w hp => ?_, h.keyHex.of_append, fun _ => ?_⟩
  · exact (h.paths (nk ++ p) w (by rw [valueAt_shortNode_append, hp])).of_append
  · rw [hvalue]
    by_cases hkey : key = []
    · subst hkey
      simp only [List.append_nil] at h
      simp [h.keyHex.hasTerm_eq_true hk]
    · simp [h.keyHex.hasTerm_eq_false hkey, hkey]

theorem Compatible.fullNode_child {cs : List Node} {f : NodeFlag} {i : UInt8} {key : List UInt8}
    {c : Node} (h : (fullNode cs f).Compatible (i :: key)) (hc : cs[i.toNat]? = some c) :
    c.Compatible key := by
  obtain ⟨-, -, hvalue, hcs⟩ : _ ∧ _ ∧ _ ∧ _ := by
    cases h.wf rfl with
    | fullNode hlen htwo hvalue hcs => exact ⟨hlen, htwo, hvalue, hcs⟩
  refine ⟨?_, fun p w hp => ?_, h.keyHex.of_append (a := [i]), fun hnil => ?_⟩
  · cases hnil : c.isNil
    · exact .inr (hcs c (List.mem_of_getElem? hc) hnil)
    · exact .inl rfl
  · refine (h.paths (i :: p) w ?_).of_append (a := [i])
    rw [valueAt_fullNode_cons, hc, Option.bind_some, hp]
  · rw [hvalue _ c hc hnil, ← h.keyHex.head_eq_sixteen_iff]
    exact ⟨fun hi => UInt8.toNat_inj.mp (by simpa using hi), fun hi => by rw [hi]; rfl⟩

end Node

/-! ### Common prefixes -/

theorem prefixLen_append_self : ∀ (a b : List UInt8), prefixLen (a ++ b) a = a.length
  | [], b => by cases b <;> rfl
  | x :: a, b => by simp [prefixLen, prefixLen_append_self a b]

theorem prefixLen_append_cons {x y : UInt8} (hxy : y ≠ x) (r s : List UInt8) :
    ∀ a : List UInt8, prefixLen (a ++ y :: s) (a ++ x :: r) = a.length
  | [] => by simp [prefixLen, hxy]
  | z :: a => by simp [prefixLen, prefixLen_append_cons hxy r s a]

theorem prefixLen_le : ∀ (a b : List UInt8), prefixLen a b ≤ a.length ∧ prefixLen a b ≤ b.length
  | [], _ => by simp [prefixLen]
  | _ :: _, [] => by simp [prefixLen]
  | x :: a, y :: b => by
    have := prefixLen_le a b
    unfold prefixLen
    split_ifs
    · simp only [List.length_cons, Nat.add_le_add_iff_right]
      exact this
    · simp

theorem prefix_of_prefixLen_eq_right : ∀ {a b : List UInt8}, prefixLen a b = b.length → b <+: a
  | _, [], _ => List.nil_prefix
  | [], _ :: _, h => by simp [prefixLen] at h
  | x :: a, y :: b, h => by
    unfold prefixLen at h
    split_ifs at h with hxy
    · subst hxy
      exact (List.cons_prefix_cons).mpr ⟨rfl, prefix_of_prefixLen_eq_right (by simpa using h)⟩

theorem prefix_of_prefixLen_eq_left : ∀ {a b : List UInt8}, prefixLen a b = a.length → a <+: b
  | [], _, _ => List.nil_prefix
  | _ :: _, [], h => by simp [prefixLen] at h
  | x :: a, y :: b, h => by
    unfold prefixLen at h
    split_ifs at h with hxy
    · subst hxy
      exact (List.cons_prefix_cons).mpr ⟨rfl, prefix_of_prefixLen_eq_left (by simpa using h)⟩

/-- Below the lengths of both, the common prefix ends where the two differ. -/
theorem prefixLen_split : ∀ {a b : List UInt8}, prefixLen a b < a.length → prefixLen a b < b.length →
    ∃ c x y r s, b = c ++ x :: r ∧ a = c ++ y :: s ∧ y ≠ x
  | [], _, h, _ => by simp at h
  | _ :: _, [], _, h => by simp [prefixLen] at h
  | y :: a, x :: b, ha, hb => by
    unfold prefixLen at ha hb
    split_ifs at ha hb with hxy
    · subst hxy
      obtain ⟨c, x', y', r, s, rfl, rfl, hne⟩ :=
        prefixLen_split (a := a) (b := b) (by simp at ha; omega) (by simp at hb; omega)
      exact ⟨y :: c, x', y', r, s, rfl, rfl, hne⟩
    · exact ⟨[], x, y, b, a, rfl, rfl, hxy⟩

namespace Node

/-- What `insert` leaves in an empty slot for the rest `k` of a key: the node itself where the
key has run out, else a short node of the rest above it. -/
def leafOrShort (flag : NodeFlag) (k : List UInt8) (c : Node) : Node :=
  if k = [] then c else shortNode k c flag

theorem valueAt_leafOrShort (flag f : NodeFlag) (k : List UInt8) (c : Node) :
    (leafOrShort flag k c).valueAt = (shortNode k c f).valueAt := by
  unfold leafOrShort
  split_ifs with hk
  · subst hk
    funext p
    simp [valueAt_shortNode]
  · rfl

end Node


namespace Node

theorem isShort_eq_false_of_isValue {n : Node} (h : n.isValue = true) : n.isShort = false := by
  cases n <;> simp_all [isValue, isShort]

theorem isShort_eq_false_of_isFull {n : Node} (h : n.isFull = true) : n.isShort = false := by
  cases n <;> simp_all [isFull, isShort]

theorem hasTerm_append {a b : List UInt8} (hb : b ≠ []) : hasTerm (a ++ b) = hasTerm b := by
  simp [hasTerm, List.getLast?_append, List.getLast?_eq_none_iff.not.mpr hb]

/-- A value node in place of a subtrie that is a value or empty: the value at the empty path. -/
theorem valueAt_valueNode_eq_update {n : Node} (v : List UInt8) (h : ∀ p, p ≠ [] → n.valueAt p = none) :
    (valueNode v).valueAt = Function.update n.valueAt [] (some v) := by
  funext p
  by_cases hp : p = []
  · subst hp
    simp [valueAt_valueNode]
  · rw [valueAt_valueNode, if_neg hp, Function.update_of_ne hp, h p hp]

theorem occupied_set {cs : List Node} {i j : ℕ} {c : Node} (hj : Occupied cs j) (hc : c.isNil = false) :
    Occupied (cs.set i c) j := by
  obtain ⟨c', hc', hnil⟩ := hj
  rw [Occupied, List.getElem?_set]
  by_cases hij : i = j
  · subst hij
    exact ⟨c, by rw [if_pos rfl, if_pos (List.getElem?_eq_some_iff.mp hc').1], hc⟩
  · exact ⟨c', by rw [if_neg hij, hc'], hnil⟩

/-- A full node with child `i` replaced by a child that has the shape, a value exactly at the
terminator, keeps the shape. -/
theorem Wf.fullNode_set {cs : List Node} {f g : NodeFlag} {i : ℕ} {c : Node}
    (h : (Node.fullNode cs f).Wf) (hc : c.Wf) (hvalue : c.isValue = true ↔ i = 16) :
    (Node.fullNode (cs.set i c) g).Wf := by
  cases h with
  | fullNode hlen htwo hvalues hcs =>
    obtain ⟨j, k, hjk, hj, hk⟩ := htwo
    refine .fullNode (by rw [List.length_set, hlen])
      ⟨j, k, hjk, occupied_set hj hc.isNil_eq_false, occupied_set hk hc.isNil_eq_false⟩ ?_ ?_
    · intro j c' hc' hnil
      rw [List.getElem?_set] at hc'
      by_cases hij : i = j
      · subst hij
        rw [if_pos rfl] at hc'
        split_ifs at hc'
        cases hc'
        exact hvalue
      · rw [if_neg hij] at hc'
        exact hvalues j c' hc' hnil
    · intro c' hc' hnil
      rcases List.mem_or_eq_of_mem_set hc' with hc' | rfl
      · exact hcs c' hc' hnil
      · exact hc

theorem toNat_eq_sixteen_iff (x : UInt8) : x.toNat = 16 ↔ x = 16 :=
  ⟨fun h => UInt8.toNat_inj.mp (by simpa using h), fun h => by rw [h]; rfl⟩

theorem toNat_lt_of_hexSuffix {p : List UInt8} (h : HexSuffix p) {x : UInt8} (hx : x ∈ p) :
    x.toNat < 17 := by
  have := UInt8.le_iff_toNat_le.mp (h.le_sixteen hx)
  simp only [UInt8.toNat_ofNat] at this
  omega

theorem valueAt_shortNode_cons_ne {x j : UInt8} (hxj : x ≠ j) (r : List UInt8) (c : Node) (f : NodeFlag)
    (q : List UInt8) : (shortNode (x :: r) c f).valueAt (j :: q) = none :=
  valueAt_shortNode_eq_none c f fun h => hxj (List.cons_prefix_cons.mp h).1

/-- The branch `insert` makes where a new key leaves the key of a short node: the rest of the
short node below its nibble `x`, the new value below the new key's nibble `y`, and the part the
two keys share above them. -/
theorem valueAt_branch {a r s : List UInt8} {x y : UInt8} (hxy : y ≠ x) (hx : x.toNat < 17)
    (hy : y.toNat < 17) (nv : Node) (v : List UInt8) (f g : NodeFlag) :
    (leafOrShort g a (fullNode (((List.replicate 17 nil).set x.toNat (leafOrShort g r nv)).set y.toNat
        (leafOrShort g s (valueNode v))) g)).valueAt =
      Function.update (shortNode (a ++ x :: r) nv f).valueAt (a ++ y :: s) (some v) := by
  rw [valueAt_leafOrShort g f, valueAt_shortNode_shortNode a (x :: r) nv f f f]
  refine valueAt_shortNode_update f f ?_
  funext p
  cases p with
  | nil =>
    rw [valueAt_fullNode_nil, Function.update_of_ne (List.cons_ne_nil _ _).symm]
    exact (valueAt_shortNode_eq_none _ _ (by simp)).symm
  | cons j q =>
    have hyx : y.toNat ≠ x.toNat := fun h => hxy (UInt8.toNat_inj.mp h)
    rw [valueAt_fullNode_cons]
    by_cases hjy : j = y
    · subst hjy
      rw [List.getElem?_set_self (l := (List.replicate 17 nil).set x.toNat (leafOrShort g r nv))
        (by simpa using hy), Option.bind_some, valueAt_leafOrShort g f, valueAt_leaf]
      by_cases hq : q = s
      · subst hq
        simp
      · rw [if_neg hq, Function.update_of_ne (by simpa using hq), valueAt_shortNode_cons_ne hxy.symm]
    · have hne : j :: q ≠ y :: s := fun h => hjy (List.cons.inj h).1
      rw [Function.update_of_ne hne, List.getElem?_set_ne (fun h => hjy (UInt8.toNat_inj.mp h).symm)]
      by_cases hjx : j = x
      · subst hjx
        rw [List.getElem?_set_self (l := List.replicate 17 nil) (by simpa using hx), Option.bind_some,
          valueAt_leafOrShort g f]
        exact (valueAt_shortNode_cons j r nv f f q).symm
      · rw [List.getElem?_set_ne (fun h => hjx (UInt8.toNat_inj.mp h).symm),
          valueAt_shortNode_cons_ne (Ne.symm hjx)]
        rw [List.getElem?_replicate]
        split_ifs
        · rw [Option.bind_some, valueAt_nil]
        · rfl

/-- The branch has the shape when its two children do, each a value exactly in the last slot,
and the shared part does not end with the terminator. -/
theorem Wf.branch {a : List UInt8} {x y : UInt8} (hxy : y ≠ x) (hx : x.toNat < 17) (hy : y.toNat < 17)
    {c₁ c₂ : Node} (g : NodeFlag) (h₁ : c₁.Wf) (hv₁ : c₁.isValue = true ↔ x.toNat = 16) (h₂ : c₂.Wf)
    (hv₂ : c₂.isValue = true ↔ y.toNat = 16) (ha : a ≠ [] → hasTerm a = false) :
    (leafOrShort g a (Node.fullNode (((List.replicate 17 nil).set x.toNat c₁).set y.toNat c₂) g)).Wf := by
  have hyx : y.toNat ≠ x.toNat := fun h => hxy (UInt8.toNat_inj.mp h)
  have hx' : x.toNat < (List.replicate 17 nil).length := by simpa using hx
  have hy' : y.toNat < ((List.replicate 17 nil).set x.toNat c₁).length := by simpa using hy
  have hget : ∀ i c, (((List.replicate 17 nil).set x.toNat c₁).set y.toNat c₂)[i]? = some c →
      c.isNil = false → (i = x.toNat ∧ c = c₁) ∨ (i = y.toNat ∧ c = c₂) := by
    intro i c hc hnil
    by_cases hiy : y.toNat = i
    · subst hiy
      rw [List.getElem?_set_self hy'] at hc
      exact .inr ⟨rfl, (Option.some.inj hc).symm⟩
    · rw [List.getElem?_set_ne hiy] at hc
      by_cases hix : x.toNat = i
      · subst hix
        rw [List.getElem?_set_self hx'] at hc
        exact .inl ⟨rfl, (Option.some.inj hc).symm⟩
      · rw [List.getElem?_set_ne hix, List.getElem?_replicate] at hc
        split_ifs at hc
        cases hc
        simp [isNil] at hnil
  have hfull : (Node.fullNode (((List.replicate 17 nil).set x.toNat c₁).set y.toNat c₂) g).Wf := by
    refine .fullNode (by simp) ⟨x.toNat, y.toNat, hyx.symm, ⟨c₁, ?_, h₁.isNil_eq_false⟩,
      ⟨c₂, ?_, h₂.isNil_eq_false⟩⟩ ?_ ?_
    · rw [List.getElem?_set_ne hyx, List.getElem?_set_self hx']
    · rw [List.getElem?_set_self hy']
    · intro i c hc hnil
      rcases hget i c hc hnil with ⟨rfl, rfl⟩ | ⟨rfl, rfl⟩
      · exact hv₁
      · exact hv₂
    · intro c hc hnil
      obtain ⟨i, hi⟩ := List.getElem?_of_mem hc
      rcases hget i c hi hnil with ⟨-, rfl⟩ | ⟨-, rfl⟩
      · exact h₁
      · exact h₂
  unfold leafOrShort
  split_ifs with ha'
  · exact hfull
  · exact .shortNode ha' rfl (by simp [isValue, ha ha']) hfull

end Node

open Node

/-- What `insert` of the value `v` at the rest `key` of a key does to a subtrie `n`: it returns,
its result has the shape and holds `v` at `key` and elsewhere what `n` held, it reports no
change only where `n` held `v` at `key` already, it is a value exactly when the key has run out,
and a full node stays full. -/
def InsertSpec (n : Node) (key v : List UInt8) (r : Except TrieError (Bool × Node)) : Prop :=
  ∃ d n', r = .ok (d, n') ∧ n'.Wf ∧ n'.valueAt = Function.update n.valueAt key (some v) ∧
    (d = false → n.valueAt key = some v) ∧ (n'.isValue = true ↔ key = []) ∧
    (n.isFull = true → n'.isFull = true)

namespace Trie

variable (db : Database) (t : Trie)

theorem insert_nil_node (fuel : ℕ) (pre key : List UInt8) (value : Node) :
    t.insert db (fuel + 1) .nil pre key value = .ok (true, leafOrShort t.newFlag key value) := by
  unfold leafOrShort
  by_cases hkey : key = []
  · subst hkey
    simp [insert]
  · simp [insert, hkey]

/-- Where the key runs out the subtrie is a value or empty, and the value takes its place. -/
theorem insertSpec_end (fuel : ℕ) {n : Node} (pre v : List UInt8) (hc : n.Compatible []) :
    InsertSpec n [] v (t.insert db (fuel + 1) n pre [] (.valueNode v)) := by
  have hfull : (valueNode v).isFull = true → False := by simp [isFull]
  cases n with
  | valueNode w =>
    have hupd := valueAt_valueNode_eq_update (n := valueNode w) v fun p hp => by
      rw [valueAt_valueNode, if_neg hp]
    refine ⟨decide (w ≠ v), .valueNode v, by simp [insert], .valueNode v, hupd, fun hd => ?_,
      by simp [isValue], fun h => absurd h (by simp [isFull])⟩
    simp only [decide_eq_false_iff_not, not_not] at hd
    simp [valueAt_valueNode, hd]
  | nil =>
    refine ⟨true, .valueNode v, by simp [insert], .valueNode v,
      valueAt_valueNode_eq_update v fun p _ => valueAt_nil p, by simp, by simp [isValue],
      fun h => absurd h (by simp [isFull])⟩
  | shortNode | fullNode | hashNode => exact absurd ((hc.value rfl).mpr rfl) (by simp [isValue])

theorem insertSpec_nil (fuel : ℕ) {key : List UInt8} (pre v : List UInt8) (hkey : key ≠ [])
    (hhex : HexSuffix key) : InsertSpec .nil key v (t.insert db (fuel + 1) .nil pre key (.valueNode v)) := by
  refine ⟨true, .shortNode key (.valueNode v) t.newFlag, by simp [insert, hkey], ?_, ?_, by simp,
    by simp [isValue, hkey], by simp [isFull]⟩
  · exact .shortNode hkey rfl (by simp [isValue, hhex.hasTerm_eq_true hkey]) (.valueNode v)
  · funext p
    rw [valueAt_leaf]
    by_cases hp : p = key <;> simp [hp]

end Trie


/-- The parts of a short node of the shape. -/
theorem Node.Wf.shortNode_inv {k : List UInt8} {c : Node} {f : NodeFlag} (h : (Node.shortNode k c f).Wf) :
    k ≠ [] ∧ c.isShort = false ∧ c.isValue = hasTerm k ∧ c.Wf := by
  cases h with
  | shortNode hk hshort hvalue hc => exact ⟨hk, hshort, hvalue, hc⟩

/-- The parts of a full node of the shape. -/
theorem Node.Wf.fullNode_inv {cs : List Node} {f : NodeFlag} (h : (Node.fullNode cs f).Wf) :
    cs.length = 17 ∧ (∃ i j, i ≠ j ∧ Occupied cs i ∧ Occupied cs j) ∧
      (∀ i c, cs[i]? = some c → c.isNil = false → (c.isValue = true ↔ i = 16)) ∧
      (∀ c ∈ cs, c.isNil = false → c.Wf) := by
  cases h with
  | fullNode hlen htwo hvalue hcs => exact ⟨hlen, htwo, hvalue, hcs⟩

namespace Trie

variable (db : Database) (t : Trie)

/-- A key that runs through the whole key of a short node goes on below it. -/
theorem insertSpec_shortNode_match {fuel : ℕ} {nk key : List UInt8} {nv : Node} {f : NodeFlag}
    {pre v : List UInt8} (hkey : nk ++ key ≠ []) (hc : (shortNode nk nv f).Compatible (nk ++ key))
    (ih : InsertSpec nv key v (t.insert db fuel nv (pre ++ nk) key (.valueNode v))) :
    InsertSpec (shortNode nk nv f) (nk ++ key) v
      (t.insert db (fuel + 1) (shortNode nk nv f) pre (nk ++ key) (.valueNode v)) := by
  obtain ⟨d, nn, hr, hwf, hval, hd, hisv, hfull⟩ := ih
  obtain ⟨hk, hshort, hvalue, hnv⟩ := (hc.wf rfl).shortNode_inv
  have hcomp := hc.shortNode_child
  have heq : t.insert db (fuel + 1) (shortNode nk nv f) pre (nk ++ key) (.valueNode v) =
      if !d then .ok (false, shortNode nk nv f) else .ok (true, shortNode nk nn t.newFlag) := by
    rw [insert, if_neg hkey]
    simp only [prefixLen_append_self, if_true, List.take_left', List.drop_left', hr]
    cases d <;> rfl
  have hnk : (shortNode nk nv f).valueAt (nk ++ key) = nv.valueAt key := valueAt_shortNode_append _ _ _ _
  cases d with
  | false =>
    have hheld : (shortNode nk nv f).valueAt (nk ++ key) = some v := hnk.trans (hd rfl)
    refine ⟨false, shortNode nk nv f, by rw [heq]; rfl, hc.wf rfl, ?_, fun _ => hheld,
      by simp [isValue, hkey], by simp [isFull]⟩
    exact (Function.update_eq_self_iff.mpr hheld.symm).symm
  | true =>
    refine ⟨true, shortNode nk nn t.newFlag, by rw [heq]; rfl, .shortNode hk ?_ ?_ hwf,
      valueAt_shortNode_update f _ hval,
      by simp, by simp [isValue, hkey], by simp [isFull]⟩
    · by_cases hkey' : key = []
      · exact isShort_eq_false_of_isValue (hisv.mpr hkey')
      · have hnotv : nv.isValue = false := by
          simpa [hkey'] using hcomp.value hnv.isNil_eq_false
        exact isShort_eq_false_of_isFull (hfull (hnv.isFull_eq_true hshort hnotv))
    · rw [← hvalue, Bool.eq_iff_iff, hisv, hcomp.value hnv.isNil_eq_false]


/-- A key that leaves the key of a short node part way branches out there: a full node with the
short node's rest and the new value in the slots of the two nibbles that differ, below the
common part. -/
theorem insert_shortNode_split (fuel : ℕ) {a r s : List UInt8} {x y : UInt8} (nv : Node) (f : NodeFlag)
    (pre : List UInt8) (value : Node) (hxy : y ≠ x) (hx : x.toNat < 17) (hy : y.toNat < 17) :
    t.insert db (fuel + 2) (shortNode (a ++ x :: r) nv f) pre (a ++ y :: s) value =
      .ok (true, leafOrShort t.newFlag a (.fullNode
        (((List.replicate 17 .nil).set x.toNat (leafOrShort t.newFlag r nv)).set y.toNat
          (leafOrShort t.newFlag s value)) t.newFlag)) := by
  rw [insert, if_neg (by simp)]
  simp [prefixLen_append_cons hxy, insert_nil_node, nibbleAt, setChild, hx, hy, bind, Except.bind, pure,
    Except.pure]
  by_cases ha : a = [] <;> simp [ha, leafOrShort]


theorem insertSpec_shortNode_split {fuel : ℕ} {a r s : List UInt8} {x y : UInt8} {nv : Node} {f : NodeFlag}
    {pre v : List UInt8} (hxy : y ≠ x) (hc : (shortNode (a ++ x :: r) nv f).Compatible (a ++ y :: s)) :
    InsertSpec (shortNode (a ++ x :: r) nv f) (a ++ y :: s) v
      (t.insert db (fuel + 2) (shortNode (a ++ x :: r) nv f) pre (a ++ y :: s) (.valueNode v)) := by
  obtain ⟨-, hshort, hvalue, hnv⟩ := (hc.wf rfl).shortNode_inv
  obtain ⟨p, w, hp⟩ := hnv.exists_value
  have hpath : HexSuffix (a ++ x :: (r ++ p)) := by
    simpa using hc.paths ((a ++ x :: r) ++ p) w (by rw [valueAt_shortNode_append, hp])
  have hkey := hc.keyHex
  have hs' : HexSuffix s := HexSuffix.of_append (a := a ++ [y]) (by simpa using hkey)
  have hx : x.toNat < 17 := toNat_lt_of_hexSuffix hpath (by simp)
  have hy : y.toNat < 17 := toNat_lt_of_hexSuffix hkey (by simp)
  rw [insert_shortNode_split db t fuel nv f pre _ hxy hx hy]
  refine ⟨true, _, rfl, Wf.branch hxy hx hy _ ?_ ?_ ?_ ?_ ?_, valueAt_branch hxy hx hy nv v f _, by simp, ?_,
    by simp [isFull]⟩
  · unfold leafOrShort
    split_ifs with hr
    · exact hnv
    · exact .shortNode hr hshort (by rw [hvalue, List.append_cons, hasTerm_append hr]) hnv
  · unfold leafOrShort
    split_ifs with hr
    · subst hr
      rw [hvalue, hasTerm_append (List.cons_ne_nil x []), toNat_eq_sixteen_iff]
      simp [hasTerm]
    · have hx16 := HexSuffix.lt_of_ne_nil hpath (by simp [hr])
      simp only [isValue, Bool.false_eq_true, false_iff, toNat_eq_sixteen_iff]
      rintro rfl
      exact absurd hx16 (by decide)
  · unfold leafOrShort
    split_ifs with hs
    · exact .valueNode v
    · exact .shortNode hs rfl (by simp [isValue, hs'.hasTerm_eq_true hs]) (.valueNode v)
  · unfold leafOrShort
    rw [toNat_eq_sixteen_iff]
    split_ifs with hs
    · subst hs
      simp only [isValue, true_iff]
      exact ((hkey.of_append (a := a)).head_eq_sixteen_iff).mpr rfl
    · simp only [isValue, Bool.false_eq_true, false_iff]
      rintro rfl
      exact absurd (HexSuffix.lt_of_ne_nil hkey hs) (by decide)
  · exact fun _ => hkey.hasTerm_eq_false (List.cons_ne_nil y s)
  · simp only [leafOrShort]
    split_ifs <;> simp [isValue]

theorem insertSpec_fullNode {fuel : ℕ} {cs : List Node} {f : NodeFlag} {pre : List UInt8} {i : UInt8}
    {key v : List UInt8} {c : Node} (hc : (fullNode cs f).Compatible (i :: key)) (hci : cs[i.toNat]? = some c)
    (ih : InsertSpec c key v (t.insert db fuel c (pre ++ [i]) key (.valueNode v))) :
    InsertSpec (fullNode cs f) (i :: key) v
      (t.insert db (fuel + 1) (fullNode cs f) pre (i :: key) (.valueNode v)) := by
  obtain ⟨d, nn, hr, hwf, hval, hd, hisv, -⟩ := ih
  have hlt : i.toNat < cs.length := (List.getElem?_eq_some_iff.mp hci).1
  have heq : t.insert db (fuel + 1) (fullNode cs f) pre (i :: key) (.valueNode v) =
      if !d then .ok (false, fullNode cs f) else .ok (true, fullNode (cs.set i.toNat nn) t.newFlag) := by
    rw [insert, if_neg (List.cons_ne_nil _ _)]
    simp only [nibbleAt, childAt, List.getElem?_cons_zero, hci, List.tail_cons, hr, bind, Except.bind]
    cases d <;> simp [setChild, hlt, pure, Except.pure]
  have hheld : (fullNode cs f).valueAt (i :: key) = c.valueAt key := by
    rw [valueAt_fullNode_cons, hci, Option.bind_some]
  cases d with
  | false =>
    have hheld' : (fullNode cs f).valueAt (i :: key) = some v := hheld.trans (hd rfl)
    refine ⟨false, fullNode cs f, by rw [heq]; rfl, hc.wf rfl, ?_, fun _ => hheld', by simp [isValue],
      fun _ => rfl⟩
    exact (Function.update_eq_self_iff.mpr hheld'.symm).symm
  | true =>
    refine ⟨true, _, by rw [heq]; rfl, (hc.wf rfl).fullNode_set hwf ?_, valueAt_fullNode_update f _ hci hval,
      by simp, by simp [isValue], fun _ => rfl⟩
    rw [hisv, ← hc.keyHex.head_eq_sixteen_iff, toNat_eq_sixteen_iff]

/-- `insert` of a value at the rest of a key, with a budget longer than the key, into a subtrie
that fits it. By induction on the budget, one case for each kind of node. -/
theorem insert_spec (v : List UInt8) : ∀ (fuel : ℕ) (n : Node) (pre key : List UInt8),
    key.length < fuel → n.Compatible key → InsertSpec n key v (t.insert db fuel n pre key (.valueNode v))
  | 0, _, _, _, hfuel, _ => absurd hfuel (Nat.not_lt_zero _)
  | fuel + 1, n, pre, key, hfuel, hc => by
    by_cases hkey : key = []
    · subst hkey
      exact insertSpec_end db t fuel pre v hc
    cases n with
    | nil => exact insertSpec_nil db t fuel pre v hkey hc.keyHex
    | valueNode w => exact absurd ((hc.value rfl).mp rfl) hkey
    | hashNode h => exact absurd (hc.wf rfl) (by rintro ⟨⟩)
    | shortNode nk nv f =>
      have hle := prefixLen_le key nk
      obtain ⟨hk, -, -, hnv⟩ := (hc.wf rfl).shortNode_inv
      by_cases hm : prefixLen key nk = nk.length
      · obtain ⟨key', rfl⟩ := prefix_of_prefixLen_eq_right hm
        have hlen : key'.length < fuel := by
          have := List.length_pos_of_ne_nil hk
          simp only [List.length_append] at hfuel
          omega
        exact insertSpec_shortNode_match db t hkey hc
          (insert_spec v fuel nv (pre ++ nk) key' hlen hc.shortNode_child)
      · have hmk : prefixLen key nk < key.length := by
          by_contra hge
          have hpre := prefix_of_prefixLen_eq_left (show prefixLen key nk = key.length by omega)
          obtain ⟨p, w, hp⟩ := hnv.exists_value
          have hpath := hc.paths (nk ++ p) w (by rw [valueAt_shortNode_append, hp])
          have heq := hc.keyHex.eq_of_prefix hpath hkey (hpre.trans (List.prefix_append nk p))
          rw [heq, prefixLen_append_self] at hm
          exact hm rfl
        obtain ⟨a, x, y, r, s, rfl, rfl, hxy⟩ := prefixLen_split hmk (by omega)
        obtain ⟨fuel, rfl⟩ : ∃ k, fuel = k + 1 := ⟨fuel - 1, by simp at hfuel; omega⟩
        exact insertSpec_shortNode_split db t hxy hc
    | fullNode cs f =>
      obtain ⟨i, key', rfl⟩ := List.exists_cons_of_ne_nil hkey
      obtain ⟨hlen, -, -, -⟩ := (hc.wf rfl).fullNode_inv
      have hi : i.toNat < cs.length := hlen ▸ toNat_lt_of_hexSuffix hc.keyHex (by simp)
      obtain ⟨c, hci⟩ : ∃ c, cs[i.toNat]? = some c := ⟨cs[i.toNat], List.getElem?_eq_getElem hi⟩
      exact insertSpec_fullNode db t hc hci
        (insert_spec v fuel c (pre ++ [i]) key' (by simpa using hfuel) (hc.fullNode_child hci))

end Trie

end GoXdn.Mpt
