import Mathlib
import GoXdn.Proofs.TrieDelete
import GoXdn.Proofs.TrieEncoding

/-!
# The roots that updates and deletions reach

A root keeps the shape and its paths to values are the stored keys in nibbles, each with its
value (`Node.Holds`). `TryUpdate` and `TryDelete` give `insert` and `delete` the budget
`2 * len(k) + 2` for the key `k` in nibbles, more than they need; so both succeed on such a root,
and the root they leave holds over the map with the one key written or cleared. Every trie a
sequence of them reaches from the empty one has such a root (`trie_shape_invariant`).
-/

namespace GoXdn.Mpt

open Node

theorem keybytesToHex_injective : Function.Injective keybytesToHex := by
  intro a b h
  have := hexToKeybytes_keybytesToHex a
  rw [h, hexToKeybytes_keybytesToHex] at this
  exact (Option.some.inj this).symm

/-- A root of the shape over the map `M` from keys to values: the paths to values are the keys
`M` stores, in nibbles, with their values. -/
structure Node.Holds (M : List UInt8 → Option (List UInt8)) (root : Node) : Prop where
  shape : root.isNil = true ∨ root.Wf
  paths : ∀ p w, root.valueAt p = some w ↔ ∃ k, p = keybytesToHex k ∧ M k = some w

namespace Node.Holds

variable {M : List UInt8 → Option (List UInt8)} {root : Node}

/-- A key walks down the root: a root holds no value at the empty path. -/
theorem compatible (h : root.Holds M) (key : List UInt8) : root.Compatible (keybytesToHex key) := by
  refine ⟨h.shape, fun p w hp => ?_, hexSuffix_keybytesToHex key, fun hnil => ?_⟩
  · obtain ⟨k, rfl, -⟩ := (h.paths p w).mp hp
    exact hexSuffix_keybytesToHex k
  · have hne : keybytesToHex key ≠ [] := by simp [keybytesToHex]
    simp only [hne, iff_false, Bool.not_eq_true]
    cases root with
    | valueNode w =>
      obtain ⟨k, hk, -⟩ := (h.paths [] w).mp (by simp [valueAt_valueNode])
      exact absurd hk.symm (by simp [keybytesToHex])
    | _ => rfl

/-- Writing `o` at one key of the root writes it at that key of the map. -/
theorem update (h : root.Holds M) {n : Node} {key : List UInt8} {o : Option (List UInt8)}
    (hshape : n.isNil = true ∨ n.Wf) (hval : n.valueAt = Function.update root.valueAt (keybytesToHex key) o) :
    n.Holds (Function.update M key o) := by
  refine ⟨hshape, fun p w => ?_⟩
  rw [hval]
  by_cases hp : p = keybytesToHex key
  · subst hp
    simp only [Function.update_self]
    constructor
    · intro hw
      exact ⟨key, rfl, by rw [Function.update_self, hw]⟩
    · rintro ⟨k, hk, hw⟩
      rwa [keybytesToHex_injective hk, Function.update_self] at hw
  · rw [Function.update_of_ne hp, h.paths]
    constructor
    · rintro ⟨k, rfl, hw⟩
      exact ⟨k, rfl, by rwa [Function.update_of_ne (fun hk => hp (by rw [hk]))]⟩
    · rintro ⟨k, rfl, hw⟩
      exact ⟨k, rfl, by rwa [Function.update_of_ne (fun hk => hp (by rw [hk]))] at hw⟩

end Node.Holds

namespace Trie

variable (db : Database) (t : Trie)

theorem length_lt_budget (k : List UInt8) : k.length < budget k := by
  unfold budget
  omega

theorem tryUpdate_holds {M : List UInt8 → Option (List UInt8)} (h : t.root.Holds M) (key value : List UInt8) :
    ∃ t', t.TryUpdate db key value = .ok t' ∧
      t'.root.Holds (Function.update M key (if value.length = 0 then none else some value)) := by
  by_cases hv : value.length = 0
  · obtain ⟨d, n, hr, hshape, hval, -⟩ :=
      delete_spec db t _ t.root [] _ (length_lt_budget _) (h.compatible key)
    refine ⟨{ t with root := n }, by simp [TryUpdate, hv, hr, bind, Except.bind, pure, Except.pure], ?_⟩
    rw [if_pos hv]
    exact h.update hshape hval
  · obtain ⟨d, n, hr, hwf, hval, -⟩ :=
      insert_spec db t value _ t.root [] _ (length_lt_budget _) (h.compatible key)
    refine ⟨{ t with root := n }, by simp [TryUpdate, hv, hr, bind, Except.bind, pure, Except.pure], ?_⟩
    rw [if_neg hv]
    exact h.update (.inr hwf) hval

theorem tryDelete_holds {M : List UInt8 → Option (List UInt8)} (h : t.root.Holds M) (key : List UInt8) :
    ∃ t', t.TryDelete db key = .ok t' ∧ t'.root.Holds (Function.update M key none) := by
  obtain ⟨d, n, hr, hshape, hval, -⟩ :=
    delete_spec db t _ t.root [] _ (length_lt_budget _) (h.compatible key)
  exact ⟨{ t with root := n }, by simp [TryDelete, hr, bind, Except.bind, pure, Except.pure],
    h.update hshape hval⟩

/-- The tries a sequence of `TryUpdate` and `TryDelete` reaches from an empty one, with the map
of keys to values the calls wrote. -/
inductive Reachable (db : Database) : (List UInt8 → Option (List UInt8)) → Trie → Prop
  | empty {t : Trie} : t.root = .nil → Reachable db (fun _ => none) t
  | update {M : List UInt8 → Option (List UInt8)} {t t' : Trie} (key value : List UInt8) :
      Reachable db M t → t.TryUpdate db key value = .ok t' →
      Reachable db (Function.update M key (if value.length = 0 then none else some value)) t'
  | delete {M : List UInt8 → Option (List UInt8)} {t t' : Trie} (key : List UInt8) :
      Reachable db M t → t.TryDelete db key = .ok t' → Reachable db (Function.update M key none) t'

theorem Reachable.holds {M : List UInt8 → Option (List UInt8)} {t : Trie} (h : Reachable db M t) :
    t.root.Holds M := by
  induction h with
  | empty hnil =>
    refine ⟨.inl (by rw [hnil]; rfl), fun p w => ?_⟩
    rw [hnil, valueAt_nil]
    simp
  | @update M t t' key value _ hstep ih =>
    obtain ⟨t'', hstep', hholds⟩ := tryUpdate_holds db t ih key value
    rw [hstep] at hstep'
    cases hstep'
    exact hholds
  | @delete M t t' key _ hstep ih =>
    obtain ⟨t'', hstep', hholds⟩ := tryDelete_holds db t ih key
    rw [hstep] at hstep'
    cases hstep'
    exact hholds

theorem trie_shape_invariant (db : Database) :
    (∀ M t, Reachable db M t → t.root.Holds M) ∧
      (∀ (t : Trie) M, t.root.Holds M → ∀ key value, ∃ t', t.TryUpdate db key value = .ok t' ∧
        t'.root.Holds (Function.update M key (if value.length = 0 then none else some value))) ∧
      ∀ (t : Trie) M, t.root.Holds M → ∀ key, ∃ t', t.TryDelete db key = .ok t' ∧
        t'.root.Holds (Function.update M key none) :=
  ⟨fun _ _ h => h.holds db, fun t _ h key value => tryUpdate_holds db t h key value,
    fun t _ h key => tryDelete_holds db t h key⟩

/-- Two keys that part at their first nibble: the second update turns the root into a full node,
which holds over both keys, and a third update and a deletion from it succeed and keep it
holding. -/
theorem trie_shape_invariant_full_node :
    let M : List UInt8 → Option (List UInt8) :=
      Function.update (Function.update (fun _ => none) [0x10]
        (if [1].length = 0 then none else some [1])) [0x20] (if [2].length = 0 then none else some [2])
    ∃ t₁ t₂ : Trie, (⟨.nil, [], 0, 0⟩ : Trie).TryUpdate Database.empty [0x10] [1] = .ok t₁ ∧
      t₁.TryUpdate Database.empty [0x20] [2] = .ok t₂ ∧
      (∃ children flags, t₂.root = .fullNode children flags) ∧ t₂.root.Holds M ∧
      (∃ t', t₂.TryUpdate Database.empty [0x21] [3] = .ok t' ∧
        t'.root.Holds (Function.update M [0x21] (if [3].length = 0 then none else some [3]))) ∧
      ∃ t', t₂.TryDelete Database.empty [0x10] = .ok t' ∧
        t'.root.Holds (Function.update M [0x10] none) := by
  intro M
  have hreach : Reachable Database.empty M _ :=
    .update [0x20] [2] (.update [0x10] [1] (.empty (t := ⟨.nil, [], 0, 0⟩) rfl) rfl) rfl
  have hholds := (trie_shape_invariant Database.empty).1 _ _ hreach
  exact ⟨_, _, rfl, rfl, ⟨_, _, rfl⟩, hholds,
    (trie_shape_invariant Database.empty).2.1 _ _ hholds [0x21] [3],
    (trie_shape_invariant Database.empty).2.2 _ _ hholds [0x10]⟩

end Trie

end GoXdn.Mpt
