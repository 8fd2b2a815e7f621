import Mathlib
import GoXdn.Proofs.TrieShape

/-!
# Deletion keeps the shape

`delete` takes the value off the end of a key and reduces the nodes on the way up to the
shape: a short node whose child became a short node takes in that child's key, and a full node
left with one child becomes a short node of that child's nibble, merged with the child where it
is a short node. `remainingPos` finds whether one child is left and which (`remainingPos_spec`).
On a subtrie that fits the key and with a budget longer than the key, `delete` succeeds, keeps
the shape and clears the value at the key and nowhere else (`delete_spec`); its result is never
a value, and below a full node never empty, which is why the source's comments can say that the
child of a short node "can never be nil here".
-/

namespace GoXdn.Mpt

open Node

namespace Trie

/-! ### The children left -/

/-- `remainingPos` after a child was found: it stays, or a second child makes it `-2`. -/
theorem remainingPos_found : ∀ (cs : List Node) (i : ℕ) (j : ℤ), 0 ≤ j →
    (remainingPos cs i j = j ∧ ∀ k, ¬ Occupied cs k) ∨ (remainingPos cs i j = -2 ∧ ∃ k, Occupied cs k)
  | [], _, _, _ => .inl ⟨rfl, fun k hk => by obtain ⟨c, hc, _⟩ := hk; simp at hc⟩
  | c :: cs, i, j, hj => by
    by_cases hc : c.isNil
    · rw [remainingPos, if_pos hc]
      rcases remainingPos_found cs (i + 1) j hj with ⟨h, hnone⟩ | ⟨h, k, hk⟩
      · refine .inl ⟨h, fun k hk => ?_⟩
        obtain ⟨c', hc', hnil⟩ := hk
        cases k with
        | zero => simp_all
        | succ k => exact hnone k ⟨c', by simpa using hc', hnil⟩
      · exact .inr ⟨h, k + 1, by simpa [Occupied] using hk⟩
    · rw [remainingPos, if_neg hc, if_neg (by omega)]
      exact .inr ⟨rfl, 0, c, rfl, by simpa using hc⟩

/-- `remainingPos cs 0 (-1)`: `-1` over nil slots only, the index of the one child where there is
one, `-2` where there are two. -/
theorem remainingPos_spec : ∀ (cs : List Node) (i : ℕ),
    (remainingPos cs i (-1) = -1 ∧ ∀ k, ¬ Occupied cs k) ∨
      (∃ j, remainingPos cs i (-1) = ((i + j : ℕ) : ℤ) ∧ Occupied cs j ∧ ∀ k, k ≠ j → ¬ Occupied cs k) ∨
      (remainingPos cs i (-1) = -2 ∧ ∃ j k, j ≠ k ∧ Occupied cs j ∧ Occupied cs k)
  | [], _ => .inl ⟨rfl, fun k hk => by obtain ⟨c, hc, _⟩ := hk; simp at hc⟩
  | c :: cs, i => by
    have hshift : ∀ k, Occupied cs k ↔ Occupied (c :: cs) (k + 1) := fun k => by simp [Occupied]
    by_cases hc : c.isNil
    · have hfirst : ¬ Occupied (c :: cs) 0 := fun hocc => by
        obtain ⟨c', hc', hnil⟩ := hocc
        simp_all
      rw [remainingPos, if_pos hc]
      rcases remainingPos_spec cs (i + 1) with ⟨h, hnone⟩ | ⟨j, h, hj, hrest⟩ | ⟨h, j, k, hjk, hj, hk⟩
      · refine .inl ⟨h, fun k hk => ?_⟩
        cases k with
        | zero => exact hfirst hk
        | succ k => exact hnone k ((hshift k).mpr hk)
      · refine .inr (.inl ⟨j + 1, by rw [h]; push_cast; ring, (hshift j).mp hj, fun k hk => ?_⟩)
        cases k with
        | zero => exact hfirst
        | succ k => exact fun hocc => hrest k (by omega) ((hshift k).mpr hocc)
      · exact .inr (.inr ⟨h, j + 1, k + 1, by omega, (hshift j).mp hj, (hshift k).mp hk⟩)
    · have hfirst : Occupied (c :: cs) 0 := ⟨c, rfl, by simpa using hc⟩
      rw [remainingPos, if_neg hc, if_pos rfl]
      rcases remainingPos_found cs (i + 1) i (by omega) with ⟨h, hnone⟩ | ⟨h, k, hk⟩
      · refine .inr (.inl ⟨0, by rw [h]; simp, hfirst, fun k hk => ?_⟩)
        cases k with
        | zero => exact absurd rfl hk
        | succ k => exact fun hocc => hnone k ((hshift k).mpr hocc)
      · exact .inr (.inr ⟨h, 0, k + 1, by omega, hfirst, (hshift k).mp hk⟩)

/-- What `delete` of the value at the rest `key` of a key does to a subtrie `n`: it returns, its
result is empty or has the shape and holds what `n` held except at `key`, it reports no change
only where `n` held nothing at `key`, it is never a value, and below a full node never empty. -/
def DeleteSpec (n : Node) (key : List UInt8) (r : Except TrieError (Bool × Node)) : Prop :=
  ∃ d n', r = .ok (d, n') ∧ (n'.isNil = true ∨ n'.Wf) ∧ n'.valueAt = Function.update n.valueAt key none ∧
    (d = false → n.valueAt key = none) ∧ n'.isValue = false ∧ (n.isFull = true → n'.isNil = false)

variable (db : Database) (t : Trie)

/-- One step of `delete` at a short node. -/
theorem delete_shortNode (fuel : ℕ) (nk : List UInt8) (nv : Node) (f : NodeFlag) (pre key : List UInt8) :
    t.delete db (fuel + 1) (shortNode nk nv f) pre key =
      if prefixLen key nk < nk.length then .ok (false, shortNode nk nv f)
      else if prefixLen key nk = key.length then .ok (true, .nil)
      else (do
        let (dirty, child) ← t.delete db fuel nv (pre ++ key.take nk.length) (key.drop nk.length)
        if !dirty then pure (false, shortNode nk nv f)
        else
          match child with
          | .shortNode ck cv _ => pure (true, .shortNode (nk ++ ck) cv t.newFlag)
          | child => pure (true, .shortNode nk child t.newFlag)) :=
  rfl

/-- Nothing to delete in an empty slot. -/
theorem deleteSpec_nil (fuel : ℕ) (pre key : List UInt8) :
    DeleteSpec .nil key (t.delete db (fuel + 1) .nil pre key) :=
  ⟨false, .nil, rfl, .inl rfl, by funext p; by_cases hp : p = key <;> simp [hp],
    fun _ => valueAt_nil key, rfl, fun h => by simp [isFull] at h⟩

/-- Where the key runs out at a value, the value goes. -/
theorem deleteSpec_valueNode (fuel : ℕ) (w pre : List UInt8) :
    DeleteSpec (.valueNode w) [] (t.delete db (fuel + 1) (.valueNode w) pre []) := by
  refine ⟨true, .nil, rfl, .inl rfl, ?_, (fun h => by cases h), rfl,
    fun h => by simp [isFull] at h⟩
  funext p
  by_cases hp : p = []
  · subst hp
    simp
  · rw [Function.update_of_ne hp, valueAt_valueNode, if_neg hp, valueAt_nil]


theorem prefixLen_self (k : List UInt8) : prefixLen k k = k.length := by
  simpa using prefixLen_append_self k []

/-- The path leaves the key of the short node: nothing to delete below it. -/
theorem deleteSpec_shortNode_miss (fuel : ℕ) {nk key : List UInt8} {nv : Node} {f : NodeFlag}
    (pre : List UInt8) (hm : prefixLen key nk < nk.length) (hc : (shortNode nk nv f).Compatible key) :
    DeleteSpec (shortNode nk nv f) key (t.delete db (fuel + 1) (shortNode nk nv f) pre key) := by
  have hnot : ¬ nk <+: key := by
    rintro ⟨r, rfl⟩
    rw [prefixLen_append_self] at hm
    exact lt_irrefl _ hm
  have hnone := valueAt_shortNode_eq_none nv f hnot
  refine ⟨false, _, by simp [delete_shortNode, hm], .inr (hc.wf rfl), ?_, fun _ => hnone, by simp [isValue],
    by simp [isFull]⟩
  exact (Function.update_eq_self_iff.mpr hnone.symm).symm

/-- The key is the whole key of the short node, which holds its value: the short node goes. -/
theorem deleteSpec_shortNode_whole (fuel : ℕ) {nk : List UInt8} {nv : Node} {f : NodeFlag}
    (pre : List UInt8) (hc : (shortNode nk nv f).Compatible nk) :
    DeleteSpec (shortNode nk nv f) nk (t.delete db (fuel + 1) (shortNode nk nv f) pre nk) := by
  obtain ⟨-, -, -, hnv⟩ := (hc.wf rfl).shortNode_inv
  have hcomp : nv.Compatible [] := Compatible.shortNode_child (by simpa using hc)
  obtain ⟨w, rfl⟩ : ∃ w, nv = valueNode w := by
    have := (hcomp.value hnv.isNil_eq_false).mpr rfl
    cases nv <;> simp_all [isValue]
  refine ⟨true, .nil, by simp [delete_shortNode, prefixLen_self], .inl rfl, ?_, (fun h => by cases h), rfl,
    by simp [isFull]⟩
  funext p
  rw [valueAt_nil]
  by_cases hp : p = nk
  · subst hp
    simp
  · rw [Function.update_of_ne hp, valueAt_leaf, if_neg hp]

/-- A key that goes on below the short node: the value is deleted there, and a short node that
comes back up merges into this one. -/
theorem deleteSpec_shortNode_below {fuel : ℕ} {nk key : List UInt8} {nv : Node} {f : NodeFlag}
    {pre : List UInt8} (hkey : key ≠ []) (hc : (shortNode nk nv f).Compatible (nk ++ key))
    (ih : DeleteSpec nv key (t.delete db fuel nv (pre ++ nk) key)) :
    DeleteSpec (shortNode nk nv f) (nk ++ key) (t.delete db (fuel + 1) (shortNode nk nv f) pre (nk ++ key)) := by
  obtain ⟨d, nn, hr, hnn, hval, hd, hnv, hfull⟩ := ih
  obtain ⟨hk, hshort, hvalue, hwf⟩ := (hc.wf rfl).shortNode_inv
  have hnotv : nv.isValue = false := by
    simpa [hkey] using hc.shortNode_child.value hwf.isNil_eq_false
  have hnnil := hfull (hwf.isFull_eq_true hshort hnotv)
  have hnnwf : nn.Wf := hnn.resolve_left (by simp [hnnil])
  have hheld : (shortNode nk nv f).valueAt (nk ++ key) = nv.valueAt key := valueAt_shortNode_append _ _ _ _
  cases d with
  | false =>
    have hnone := hheld.trans (hd rfl)
    refine ⟨false, shortNode nk nv f, ?_, .inr (hc.wf rfl), ?_, fun _ => hnone, by simp [isValue],
      by simp [isFull]⟩
    · simp [delete_shortNode, prefixLen_append_self, hr, hkey, bind, Except.bind, pure, Except.pure]
    · exact (Function.update_eq_self_iff.mpr hnone.symm).symm
  | true =>
    cases nn with
    | shortNode ck cv g =>
      obtain ⟨hck, hcshort, hcvalue, hcv⟩ := hnnwf.shortNode_inv
      refine ⟨true, shortNode (nk ++ ck) cv t.newFlag, ?_, .inr ?_, ?_, (fun h => by cases h), rfl,
        by simp [isFull]⟩
      · simp [delete_shortNode, prefixLen_append_self, hr, hkey, bind, Except.bind, pure, Except.pure]
      · exact .shortNode (by simp [hk]) hcshort (by rw [hasTerm_append hck, hcvalue]) hcv
      · rw [valueAt_shortNode_shortNode nk ck cv t.newFlag g t.newFlag]
        exact valueAt_shortNode_update f _ hval
    | fullNode cs g =>
      refine ⟨true, shortNode nk (fullNode cs g) t.newFlag, ?_, .inr ?_, valueAt_shortNode_update f _ hval,
        (fun h => by cases h), rfl, by simp [isFull]⟩
      · simp [delete_shortNode, prefixLen_append_self, hr, hkey, bind, Except.bind, pure, Except.pure]
      · exact .shortNode hk rfl (by rw [← hvalue, hnotv]; rfl) hnnwf
    | nil => simp [isNil] at hnnil
    | valueNode _ => simp [isValue] at hnv
    | hashNode _ => cases hnnwf

theorem resolve_of_wf {c : Node} (pre : List UInt8) (hc : c.Wf) : t.resolve db c pre = .ok c := by
  cases c with
  | hashNode _ => cases hc
  | _ => rfl

end Trie

namespace Node

theorem Wf.valueAt_ne_none {n : Node} (h : n.Wf) : n.valueAt ≠ fun _ => none := by
  obtain ⟨p, w, hp⟩ := h.exists_value
  intro hn
  rw [hn] at hp
  cases hp

theorem valueAt_of_isNil {c : Node} (hc : c.isNil = true) (p : List UInt8) : c.valueAt p = none := by
  cases c <;> simp_all [isNil]

theorem occupied_set_ne {cs : List Node} {i j : ℕ} (c : Node) (hij : j ≠ i) :
    Occupied (cs.set i c) j ↔ Occupied cs j := by
  simp [Occupied, Ne.symm hij]

/-- A full node with one child is the short node of that child's nibble above it. -/
theorem valueAt_single {cs : List Node} {j : ℕ} {c : Node} (hj : j < 17) (hc : cs[j]? = some c)
    (hrest : ∀ k, k ≠ j → ¬ Occupied cs k) (f g : NodeFlag) :
    (shortNode [UInt8.ofNat j] c g).valueAt = (fullNode cs f).valueAt := by
  have hjj : (UInt8.ofNat j).toNat = j := UInt8.toNat_ofNat_of_lt' (by
    have : (17 : ℕ) ≤ UInt8.size := by decide
    omega)
  funext p
  cases p with
  | nil => simp [valueAt_shortNode]
  | cons y q =>
    rw [valueAt_fullNode_cons]
    by_cases hy : y.toNat = j
    · obtain rfl : UInt8.ofNat j = y := UInt8.toNat_inj.mp (by rw [hjj, hy])
      rw [hy, hc, Option.bind_some]
      exact valueAt_shortNode_append [UInt8.ofNat j] c g q
    · rw [valueAt_shortNode_eq_none c g (fun h => hy (by rw [← (List.cons_prefix_cons.mp h).1, hjj]))]
      rcases hcy : cs[y.toNat]? with _ | c'
      · rfl
      · have hnil : c'.isNil = true := by
          by_contra hnil
          exact hrest y.toNat hy ⟨c', hcy, by simpa using hnil⟩
        rw [Option.bind_some, valueAt_of_isNil hnil]


/-- The children of a full node of the shape once child `i` is replaced: each still has the
shape, a value exactly in the last slot. -/
theorem children_set {cs : List Node} {f : NodeFlag} {i : ℕ} {nn : Node} (h : (Node.fullNode cs f).Wf)
    (hnn : nn.isNil = false → nn.Wf ∧ (nn.isValue = true ↔ i = 16)) :
    ∀ j c, (cs.set i nn)[j]? = some c → c.isNil = false → c.Wf ∧ (c.isValue = true ↔ j = 16) := by
  obtain ⟨-, -, hvalues, hcs⟩ := h.fullNode_inv
  intro j c hc hnil
  rw [List.getElem?_set] at hc
  by_cases hij : i = j
  · subst hij
    rw [if_pos rfl] at hc
    split_ifs at hc
    cases hc
    exact hnn hnil
  · rw [if_neg hij] at hc
    exact ⟨hcs c (List.mem_of_getElem? hc) hnil, hvalues j c hc hnil⟩

/-- A full node of seventeen slots, two of them children, each child of the shape with a value
exactly in the last slot. -/
theorem Wf.fullNode_of {cs : List Node} (g : NodeFlag) (hlen : cs.length = 17)
    (htwo : ∃ i j, i ≠ j ∧ Occupied cs i ∧ Occupied cs j)
    (hkids : ∀ j c, cs[j]? = some c → c.isNil = false → c.Wf ∧ (c.isValue = true ↔ j = 16)) :
    (Node.fullNode cs g).Wf := by
  refine .fullNode hlen htwo (fun j c hc hnil => (hkids j c hc hnil).2) fun c hc hnil => ?_
  obtain ⟨j, hj⟩ := List.getElem?_of_mem hc
  exact (hkids j c hj hnil).1

theorem toNat_ofNat_of_lt_17 {j : ℕ} (hj : j < 17) : (UInt8.ofNat j).toNat = j :=
  UInt8.toNat_ofNat_of_lt' (by
    have : (17 : ℕ) ≤ UInt8.size := by decide
    omega)

/-- The short node a full node with one child left becomes, that child no short node. -/
theorem Wf.single {j : ℕ} {c : Node} (g : NodeFlag) (hj : j < 17) (hc : c.Wf) (hshort : c.isShort = false)
    (hvalue : c.isValue = true ↔ j = 16) : (Node.shortNode [UInt8.ofNat j] c g).Wf := by
  have h16 : UInt8.ofNat j = 16 ↔ j = 16 := by
    rw [← toNat_eq_sixteen_iff, toNat_ofNat_of_lt_17 hj]
  refine .shortNode (List.cons_ne_nil _ _) hshort ?_ hc
  rw [Bool.eq_iff_iff, hvalue, ← h16]
  simp [hasTerm]

/-- The short node a full node with one child left becomes, merged with that child, a short node. -/
theorem Wf.single_merge {x : UInt8} {ck : List UInt8} {cv : Node} {g g' : NodeFlag}
    (hc : (Node.shortNode ck cv g').Wf) : (Node.shortNode (x :: ck) cv g).Wf := by
  obtain ⟨hck, hshort, hvalue, hcv⟩ := hc.shortNode_inv
  exact .shortNode (List.cons_ne_nil _ _) hshort (by rw [hvalue, ← hasTerm_append (a := [x]) hck]; rfl) hcv

end Node

namespace Trie

variable (db : Database) (t : Trie)

/-- Below slot 16 the key has run out at a value or nothing: what `delete` leaves there is
empty. So what it leaves in any slot is empty, or of the shape and no value in a slot other
than the last. -/
theorem slot_left {cs : List Node} {f : NodeFlag} {i : UInt8} {key : List UInt8} {c nn : Node}
    (hc : (fullNode cs f).Compatible (i :: key)) (hci : cs[i.toNat]? = some c)
    (hnn : nn.isNil = true ∨ nn.Wf) (hval : nn.valueAt = Function.update c.valueAt key none)
    (hnv : nn.isValue = false) : nn.isNil = false → nn.Wf ∧ (nn.isValue = true ↔ i.toNat = 16) := by
  intro hnil
  have hnnwf : nn.Wf := hnn.resolve_left (by simp [hnil])
  refine ⟨hnnwf, ?_⟩
  rw [hnv]
  simp only [Bool.false_eq_true, false_iff]
  intro h16
  have hkey : key = [] := hc.keyHex.head_eq_sixteen_iff.mp ((toNat_eq_sixteen_iff i).mp h16)
  subst hkey
  have hcomp := hc.fullNode_child hci
  have hnone : ∀ p, p ≠ [] → c.valueAt p = none := by
    intro p hp
    rcases hcomp.shape with hcnil | hcwf
    · exact valueAt_of_isNil hcnil p
    · obtain ⟨w, rfl⟩ : ∃ w, c = valueNode w := by
        have := (hcomp.value hcwf.isNil_eq_false).mpr rfl
        cases c <;> simp_all [isValue]
      rw [valueAt_valueNode, if_neg hp]
  apply hnnwf.valueAt_ne_none
  funext p
  rw [hval]
  by_cases hp : p = []
  · subst hp
    simp
  · rw [Function.update_of_ne hp, hnone p hp]

/-- A key that goes on below a full node: the value is deleted in the child, and a full node
left with one child becomes a short node. -/
theorem deleteSpec_fullNode {fuel : ℕ} {cs : List Node} {f : NodeFlag} {pre : List UInt8} {i : UInt8}
    {key : List UInt8} {c : Node} (hc : (fullNode cs f).Compatible (i :: key)) (hci : cs[i.toNat]? = some c)
    (ih : DeleteSpec c key (t.delete db fuel c (pre ++ [i]) key)) :
    DeleteSpec (fullNode cs f) (i :: key) (t.delete db (fuel + 1) (fullNode cs f) pre (i :: key)) := by
  obtain ⟨d, nn, hr, hnn, hval, hd, hnv, -⟩ := ih
  have hwf := hc.wf rfl
  obtain ⟨hlen, htwo, -, -⟩ := hwf.fullNode_inv
  have hlt : i.toNat < cs.length := (List.getElem?_eq_some_iff.mp hci).1
  have hheld : (fullNode cs f).valueAt (i :: key) = c.valueAt key := by
    rw [valueAt_fullNode_cons, hci, Option.bind_some]
  have hchildc : childAt cs i = .ok c := by simp [childAt, hci]
  have hnib : nibbleAt (i :: key) 0 = .ok i := rfl
  cases d with
  | false =>
    have hnone := hheld.trans (hd rfl)
    refine ⟨false, fullNode cs f, ?_, .inr hwf, ?_, fun _ => hnone, by simp [isValue], by simp [isNil]⟩
    · simp [delete, hnib, hchildc, hr, bind, Except.bind, pure, Except.pure]
    · exact (Function.update_eq_self_iff.mpr hnone.symm).symm
  | true =>
    have hkids := children_set hwf (slot_left hc hci hnn hval hnv)
    have hval' := valueAt_fullNode_update f t.newFlag hci hval
    have hlen' : (cs.set i.toNat nn).length = 17 := by rw [List.length_set, hlen]
    have hset : setChild cs i nn = .ok (cs.set i.toNat nn) := by simp [setChild, hlt]
    rcases remainingPos_spec (cs.set i.toNat nn) 0 with ⟨-, hnone⟩ | ⟨j, hpos, hj, hrest⟩ |
      ⟨hpos, htwo'⟩
    · exfalso
      obtain ⟨j, k, hjk, hj, hk⟩ := htwo
      by_cases hji : j = i.toNat
      · exact hnone k ((occupied_set_ne nn (hji ▸ hjk).symm).mpr hk)
      · exact hnone j ((occupied_set_ne nn hji).mpr hj)
    · obtain ⟨cp, hcp, hcpnil⟩ := hj
      have hj17 : j < 17 := hlen' ▸ (List.getElem?_eq_some_iff.mp hcp).1
      obtain ⟨hcpwf, hcpval⟩ := hkids j cp hcp hcpnil
      have hsingle := valueAt_single hj17 hcp hrest t.newFlag t.newFlag
      have hchild : childAt (cs.set i.toNat nn) (UInt8.ofNat j) = .ok cp := by
        simp [childAt, toNat_ofNat_of_lt_17 hj17, hcp]
      have hpos' : remainingPos (cs.set i.toNat nn) 0 (-1) = (j : ℤ) := by rw [hpos, Nat.zero_add]
      rw [delete]
      simp only [hnib, hchildc, List.tail_cons, hr, bind, Except.bind, Bool.not_true, Bool.false_eq_true,
        if_false, hset, hpos', Int.toNat_natCast, hchild, Int.natCast_nonneg, if_true]
      by_cases hj16 : j = 16
      · subst hj16
        rw [if_neg (by norm_num)]
        exact ⟨true, _, rfl, .inr (Wf.single _ hj17 hcpwf (isShort_eq_false_of_isValue (hcpval.mpr rfl)) hcpval),
          hsingle.trans hval', (fun h => by cases h), rfl, by simp [isNil]⟩
      · rw [if_pos (by exact_mod_cast hj16), resolve_of_wf db t pre hcpwf]
        have hnotv : cp.isValue = false := by simpa [hj16] using hcpval
        cases cp with
        | shortNode ck cv g =>
          refine ⟨true, shortNode (UInt8.ofNat j :: ck) cv t.newFlag, rfl, .inr (Wf.single_merge hcpwf), ?_,
            (fun h => by cases h), rfl, by simp [isNil]⟩
          have hm := valueAt_shortNode_shortNode [UInt8.ofNat j] ck cv t.newFlag g t.newFlag
          rw [List.singleton_append] at hm
          rw [hm, hsingle, hval']
        | fullNode cs₂ g =>
          exact ⟨true, shortNode [UInt8.ofNat j] (fullNode cs₂ g) t.newFlag, rfl,
            .inr (Wf.single _ hj17 hcpwf rfl hcpval), hsingle.trans hval', (fun h => by cases h), rfl,
            by simp [isNil]⟩
        | nil => simp [isNil] at hcpnil
        | valueNode _ => simp [isValue] at hnotv
        | hashNode _ => cases hcpwf
    · refine ⟨true, fullNode (cs.set i.toNat nn) t.newFlag, ?_, .inr (Wf.fullNode_of _ hlen' htwo' hkids),
        hval', (fun h => by cases h), rfl, by simp [isNil]⟩
      simp [delete, hnib, hchildc, hr, hset, hpos, bind, Except.bind, pure, Except.pure]


/-- `delete` at the rest of a key, with a budget longer than the key, from a subtrie that fits it.
By induction on the budget, one case for each kind of node. -/
theorem delete_spec : ∀ (fuel : ℕ) (n : Node) (pre key : List UInt8),
    key.length < fuel → n.Compatible key → DeleteSpec n key (t.delete db fuel n pre key)
  | 0, _, _, _, hfuel, _ => absurd hfuel (Nat.not_lt_zero _)
  | fuel + 1, n, pre, key, hfuel, hc => by
    cases n with
    | nil => exact deleteSpec_nil db t fuel pre key
    | valueNode w =>
      obtain rfl : key = [] := (hc.value rfl).mp rfl
      exact deleteSpec_valueNode db t fuel w pre
    | hashNode h => exact absurd (hc.wf rfl) (by rintro ⟨⟩)
    | shortNode nk nv f =>
      have hle := prefixLen_le key nk
      by_cases hm : prefixLen key nk < nk.length
      · exact deleteSpec_shortNode_miss db t fuel pre hm hc
      obtain ⟨key', rfl⟩ := prefix_of_prefixLen_eq_right (show prefixLen key nk = nk.length by omega)
      by_cases hkey : key' = []
      · subst hkey
        rw [List.append_nil] at hc ⊢
        exact deleteSpec_shortNode_whole db t fuel pre hc
      · have hlen : key'.length < fuel := by
          have := List.length_pos_of_ne_nil (hc.wf rfl).shortNode_inv.1
          simp only [List.length_append] at hfuel
          omega
        exact deleteSpec_shortNode_below db t hkey hc
          (delete_spec fuel nv (pre ++ nk) key' hlen hc.shortNode_child)
    | fullNode cs f =>
      have hkey : key ≠ [] := fun h => by simpa [isValue] using (hc.value rfl).mpr h
      obtain ⟨i, key', rfl⟩ := List.exists_cons_of_ne_nil hkey
      obtain ⟨hlen, -, -, -⟩ := (hc.wf rfl).fullNode_inv
      have hi : i.toNat < cs.length := hlen ▸ toNat_lt_of_hexSuffix hc.keyHex (by simp)
      obtain ⟨c, hci⟩ : ∃ c, cs[i.toNat]? = some c := ⟨cs[i.toNat], List.getElem?_eq_getElem hi⟩
      exact deleteSpec_fullNode db t hc hci
        (delete_spec fuel c (pre ++ [i]) key' (by simpa using hfuel) (hc.fullNode_child hci))

end Trie

end GoXdn.Mpt
