import Mathlib
import GoXdn.State.AccountTrie

/-!
# A copy shares its account trie

`Finalise` leaves in the account trie, at each dirty address, what the object there says
(`finalise_tries`), and nothing else changes in any trie. A getter reads the trie at every address
not yet live (`getStateObject_load`). `Copy` hands the copy the trie it holds itself, and so the
two states are independent only until one of them runs `Finalise`: from then on the other one
reads, at every address it has not loaded, the account the first one wrote
(`getStateObject_after_finalise`), although `Copy` promises a deep, independent copy.
-/

namespace GoXdn.State

open GoStd

namespace AccountTries

lemma write_of_ne (tries : AccountTries) {tr tr' : ℕ} (a : Address) (v : Option StoredAccount)
    (h : tr' ≠ tr) : tries.write tr a v tr' = tries tr' :=
  Function.update_of_ne h _ _

@[simp]
lemma write_same (tries : AccountTries) (tr : ℕ) (a b : Address) (v : Option StoredAccount) :
    tries.write tr a v tr b = if b = a then v else tries tr b := by
  simp [write, Function.update_apply]

end AccountTries

namespace TrieStateDb

variable {K : Hash256}

/-! ### Reading through the trie -/

/-- Once `a` is loaded, the live objects say at `a` what `getStateObject` returned. -/
lemma getStateObject_load (tries : AccountTries) (s : TrieStateDb) (a : Address) :
    (s.load tries a).mem.getStateObject a = (s.getStateObject tries a).2 := by
  unfold load getStateObject
  rcases ho : s.mem.stateObjects a with _ | o
  · rcases hd : tries s.trie a with _ | d
    · simp [StateDb.getStateObject, ho]
    · simp [StateDb.getStateObject, StateDb.setStateObject, StateObject.ofData]
  · simp [StateDb.getStateObject, ho]

/-- At an address with no live object, `getStateObject` returns the account in the trie. -/
lemma getStateObject_of_none {tries : AccountTries} {s : TrieStateDb} {a : Address}
    (h : s.mem.stateObjects a = none) :
    (s.getStateObject tries a).2 = (tries s.trie a).map StateObject.ofData := by
  unfold getStateObject
  rw [h]
  cases tries s.trie a <;> rfl

/-! ### What `Finalise` writes -/

variable (K) in
/-- What `Finalise` leaves in the trie for a dirty object: nothing if it deletes it. -/
def finalData (d : Bool) (o : StateObject) : Option StoredAccount :=
  if o.suicided || (d && o.empty K) then none else some o.data

variable (K) in
/-- The invariant of `Finalise`'s loop: each object is the one it started from or that one
marked deleted, so what `Finalise` would leave for it in the trie is unchanged. -/
def SameFinal (d : Bool) (m t : StateDb) : Prop :=
  ∀ b, (t.stateObjects b).map (finalData K d) = (m.stateObjects b).map (finalData K d)

lemma finalData_deleted (d : Bool) (o : StateObject) :
    finalData K d { o with deleted := true } = finalData K d o := rfl

lemma finaliseStep_eq_some {tr : ℕ} {d : Bool} {tries tries₁ : AccountTries} {t t₁ : StateDb}
    {a : Address} (h : finaliseStep K tr d (some (tries, t)) a = some (tries₁, t₁)) :
    ∃ o, t.stateObjects a = some o ∧ tries₁ = tries.write tr a (finalData K d o) ∧
      (t₁.stateObjects a).map (finalData K d) = (t.stateObjects a).map (finalData K d) ∧
      ∀ b, b ≠ a → t₁.stateObjects b = t.stateObjects b := by
  rcases ho : t.stateObjects a with _ | o
  · simp [finaliseStep, ho] at h
  refine ⟨o, rfl, ?_⟩
  simp only [finaliseStep, ho, bind, Option.bind, pure] at h
  split_ifs at h with hdel <;> obtain ⟨rfl, rfl⟩ := Prod.mk.inj (Option.some.inj h)
  · refine ⟨by simp [finalData, hdel], ?_, fun b hb => ?_⟩
    · simp [StateDb.setStateObject, finalData_deleted]
    · simp [StateDb.setStateObject, Function.update_of_ne hb]
  · exact ⟨by simp [finalData, hdel], by rw [ho], fun _ _ => rfl⟩

lemma foldl_finaliseStep_none (tr : ℕ) (d : Bool) :
    ∀ l : List Address, l.foldl (finaliseStep K tr d) none = none
  | [] => rfl
  | _ :: l => foldl_finaliseStep_none tr d l

/-- `Finalise`'s loop, by induction over the dirty addresses: at each address passed the trie
holds what the object there says, elsewhere it is unchanged. -/
lemma foldl_finaliseStep {tr : ℕ} {d : Bool} {m : StateDb} :
    ∀ (l : List Address) {tries tries' : AccountTries} {t t' : StateDb}, SameFinal K d m t →
      l.foldl (finaliseStep K tr d) (some (tries, t)) = some (tries', t') →
      SameFinal K d m t' ∧ (∀ tr', tr' ≠ tr → tries' tr' = tries tr') ∧
        (∀ b ∈ l, (m.stateObjects b).map (finalData K d) = some (tries' tr b)) ∧
        (∀ b, b ∉ l → tries' tr b = tries tr b)
  | [], _, _, _, _, hinv, h => by
    obtain ⟨rfl, rfl⟩ := Prod.mk.inj (Option.some.inj h)
    exact ⟨hinv, fun _ _ => rfl, fun _ hb => absurd hb List.not_mem_nil, fun _ _ => rfl⟩
  | a :: l, tries, tries', t, t', hinv, h => by
    rw [List.foldl_cons] at h
    rcases hstep : finaliseStep K tr d (some (tries, t)) a with _ | ⟨tries₁, t₁⟩
    · rw [hstep, foldl_finaliseStep_none] at h
      cases h
    rw [hstep] at h
    obtain ⟨o, ho, htries₁, hsame, hother⟩ := finaliseStep_eq_some hstep
    have hinv₁ : SameFinal K d m t₁ := fun b => by
      by_cases hb : b = a
      · subst hb
        rw [← hinv b, hsame]
      · rw [hother b hb, hinv b]
    obtain ⟨hinv', hfar, hin, hout⟩ := foldl_finaliseStep l hinv₁ h
    refine ⟨hinv', fun tr' htr => ?_, fun b hb => ?_, fun b hb => ?_⟩
    · rw [hfar tr' htr, htries₁, AccountTries.write_of_ne _ _ _ htr]
    · by_cases hbl : b ∈ l
      · exact hin b hbl
      · obtain rfl : b = a := (List.mem_cons.1 hb).resolve_right hbl
        rw [hout b hbl, htries₁, AccountTries.write_same, if_pos rfl, ← hinv b, ho]
        rfl
    · rw [List.mem_cons, not_or] at hb
      rw [hout b hb.2, htries₁, AccountTries.write_same, if_neg hb.1]

/-- `Finalise` writes only its own trie, and leaves in it at each dirty address what the object
there says. -/
theorem finalise_tries {tries tries' : AccountTries} {s s' : TrieStateDb} {d : Bool}
    (h : s.finalise K tries d = some (tries', s')) :
    (∀ tr, tr ≠ s.trie → tries' tr = tries tr) ∧
      (∀ a ∈ s.mem.stateObjectsDirty,
        (s.mem.stateObjects a).map (finalData K d) = some (tries' s.trie a)) ∧
      (∀ a, a ∉ s.mem.stateObjectsDirty → tries' s.trie a = tries s.trie a) := by
  unfold finalise at h
  rcases hl : s.mem.stateObjectsDirty.foldl (finaliseStep K s.trie d) (some (tries, s.mem)) with
    _ | ⟨tries₁, t⟩
  · simp [hl] at h
  simp only [hl, Option.map_some, Option.some.injEq, Prod.mk.injEq] at h
  obtain ⟨rfl, -⟩ := h
  obtain ⟨-, hfar, hin, hout⟩ := foldl_finaliseStep _ (fun _ => rfl) hl
  exact ⟨hfar, hin, hout⟩

/-! ### Two states over one trie -/

/-- Two `StateDB`s over one account trie: once one of them has run `Finalise`, the other reads
at every address it has not loaded what `Finalise` left there. -/
theorem getStateObject_after_finalise {s c c' : TrieStateDb} {tries tries' : AccountTries}
    {d : Bool} (htr : c.trie = s.trie) (h : c.finalise K tries d = some (tries', c'))
    {a : Address} (hs : s.mem.stateObjects a = none) :
    (s.getStateObject tries' a).2 =
      if a ∈ c.mem.stateObjectsDirty then
        ((c.mem.stateObjects a).bind (finalData K d)).map StateObject.ofData
      else (s.getStateObject tries a).2 := by
  obtain ⟨-, hin, hout⟩ := finalise_tries h
  rw [getStateObject_of_none hs, getStateObject_of_none hs, ← htr]
  split_ifs with ha
  · have hw := hin a ha
    rcases ho : c.mem.stateObjects a with _ | o
    · rw [ho] at hw
      cases hw
    · rw [ho, Option.map_some, Option.some.injEq] at hw
      rw [← hw]
      rfl
  · rw [hout a ha]

/-- Account 1 holds 5 in the trie, and no object is live. -/
def copyTries : AccountTries :=
  fun _ a => if a = 1 then some ⟨0, 5, Hash256.zero.sum [], [], fun _ => 0⟩ else none

/-- A state over the trie `copyTries` names, with nothing loaded. -/
def copyDb : TrieStateDb :=
  ⟨0, ⟨fun _ => none, [], 0, 0, 0, 0, fun _ => [], 0, fun _ => none, [], [], 0⟩⟩

/-- Adding 1 to account 1 in a copy and finalising the copy changes what the original reads. -/
theorem copy_shares_account_trie :
    ∃ tries c, TrieOp.runAll Hash256.zero [.call (.addBalance 1 1), .finalise false]
        (copyTries, copyDb.copy) = some (tries, c) ∧
      copyDb.read copyTries StateDb.getBalance 1 = 5 ∧ copyDb.read tries StateDb.getBalance 1 = 6 :=
  ⟨_, _, rfl, rfl, rfl⟩

end TrieStateDb

end GoXdn.State
