import Mathlib
import GoXdn.Bloombits.Scheduler

/-!
# The scheduler hands back what was fetched, in order

However its goroutines and the distributor's deliveries interleave, a scheduler whose
retrievers deliver the vectors `fetch` gives sends on `done`, in order, the vectors of the
sections it was asked for: a cached vector is the fetched one, and `pend` followed by the unread
input is what is left of the sections asked for (`Run.Inv`). Each section is requested from the
distributor once, only sections asked for are requested, and every section waiting on `pend` is
cached or has its request at the distributor, since `Start` resets the responses never
delivered; once every section has been read and sent, `done` holds the vectors of all of them
(`scheduler_delivers_fetch`). This is the in-order delivery that `Matcher`'s `fetch` stands for.
-/

namespace GoXdn.Bloombits

variable (fetch : ℕ → UInt64 → List UInt8)

namespace Scheduler

/-- The cached vectors are the fetched ones. -/
def CacheOk (s : Scheduler) : Prop :=
  ∀ x v, s.responses x = some (some v) → v = fetch s.bit x

/-- What a delivery does to the responses: each stays, or a pending one takes its fetched
vector. -/
def Answers (s t : Scheduler) : Prop :=
  t.bit = s.bit ∧ ∀ x, t.responses x = s.responses x ∨
    (s.responses x = some none ∧ t.responses x = some (some (fetch s.bit x)))

variable {fetch}

theorem Answers.refl (s : Scheduler) : Answers fetch s s :=
  ⟨rfl, fun _ => .inl rfl⟩

theorem Answers.trans {s t u : Scheduler} (h₁ : Answers fetch s t) (h₂ : Answers fetch t u) :
    Answers fetch s u := by
  refine ⟨h₂.1.trans h₁.1, fun x => ?_⟩
  rcases h₁.2 x with h₁x | ⟨hs, ht⟩ <;> rcases h₂.2 x with h₂x | ⟨ht', hu⟩
  · exact .inl (h₂x.trans h₁x)
  · exact .inr ⟨h₁x ▸ ht', by rw [hu, h₁.1]⟩
  · exact .inr ⟨hs, h₂x.trans ht⟩
  · simp [ht] at ht'

theorem Answers.cacheOk {s t : Scheduler} (h : Answers fetch s t) (hs : s.CacheOk fetch) :
    t.CacheOk fetch := by
  intro x v hv
  rw [h.1]
  rcases h.2 x with hx | ⟨-, hx⟩
  · exact hs x v (hx ▸ hv)
  · rw [hx] at hv
    exact (Option.some.inj (Option.some.inj hv)).symm

theorem Answers.ne_none {s t : Scheduler} (h : Answers fetch s t) {x : UInt64}
    (hx : s.responses x ≠ none) : t.responses x ≠ none := by
  rcases h.2 x with h' | ⟨-, h'⟩ <;> simp_all

theorem Answers.pending {s t : Scheduler} (h : Answers fetch s t) {x : UInt64}
    (hx : t.responses x = some none) : s.responses x = some none := by
  rcases h.2 x with h' | ⟨-, h'⟩ <;> simp_all

theorem bit_deliverOne (s : Scheduler) (x : UInt64) (d : List UInt8) :
    (s.deliverOne x d).bit = s.bit := by
  unfold deliverOne
  split_ifs <;> rfl

theorem answers_deliverOne (s : Scheduler) (x : UInt64) :
    Answers fetch s (s.deliverOne x (fetch s.bit x)) := by
  unfold deliverOne
  split_ifs with h
  · refine ⟨rfl, fun y => ?_⟩
    by_cases hy : y = x
    · subst hy
      exact .inr ⟨h, by simp⟩
    · exact .inl (by simp [Function.update_of_ne hy])
  · exact .refl s

theorem deliver_cons (s : Scheduler) (x : UInt64) (xs : List UInt64) (d : List UInt8)
    (ds : List (List UInt8)) : s.deliver (x :: xs) (d :: ds) = (s.deliverOne x d).deliver xs ds :=
  rfl

/-- By induction on the sections delivered, each a turn of the loop of `deliver`. -/
theorem answers_deliver : ∀ (xs : List UInt64) (s : Scheduler),
    Answers fetch s (s.deliver xs (xs.map (fetch s.bit)))
  | [], s => .refl s
  | x :: xs, s => by
    have h₂ := answers_deliver xs (s.deliverOne x (fetch s.bit x))
    rw [bit_deliverOne] at h₂
    rw [List.map_cons, deliver_cons]
    exact (answers_deliverOne s x).trans h₂

/-- `reset` keeps what is cached and drops what is pending. -/
theorem responses_reset (s : Scheduler) (x : UInt64) :
    s.reset.responses x ≠ some none ∧ ∀ v, s.reset.responses x = some (some v) ↔
      s.responses x = some (some v) := by
  unfold reset
  dsimp only
  split <;> simp_all

end Scheduler

namespace Run

/-- The runs of a session over the sections `orig` whose retrievers deliver `fetch`, from a
scheduler whose cached vectors are the fetched ones. -/
inductive Reachable (orig : List UInt64) : Run → Prop
  | start (s : Scheduler) : s.CacheOk fetch → Reachable orig (start s orig)
  | step {r r' : Run} : Reachable orig r → Step fetch r r' → Reachable orig r'

/-- The invariant of a run: the cache is right, `done` holds the vectors of the first `k`
sections asked for and `pend` and the input the others, every section on `pend` has a response,
every pending response has its request at the distributor, and the requests are of distinct
sections that were asked for. -/
structure Inv (orig : List UInt64) (r : Run) : Prop where
  cache : r.sched.CacheOk fetch
  order : ∃ k, r.pend ++ r.sections = orig.drop k ∧ r.done = (orig.take k).map (fetch r.sched.bit)
  pend : ∀ x ∈ r.pend, r.sched.responses x ≠ none
  pending : ∀ x, r.sched.responses x = some none → ⟨x, r.sched.bit⟩ ∈ r.dist
  dist : ∀ q ∈ r.dist, q.bit = r.sched.bit ∧ q.sectionIndex ∈ orig ∧
    r.sched.responses q.sectionIndex ≠ none
  nodup : r.dist.Nodup

variable {fetch} {orig : List UInt64}

theorem inv_start {s : Scheduler} (hs : s.CacheOk fetch) : (start s orig).Inv fetch orig where
  cache x v hv := hs x v (((Scheduler.responses_reset s x).2 v).1 hv)
  order := ⟨0, by simp [start], by simp [start]⟩
  pend := by simp [start]
  pending x hx := absurd hx (Scheduler.responses_reset s x).1
  dist := by simp [start]
  nodup := List.nodup_nil

/-- A section read from the input: a new request when it has no response, and onto `pend`. -/
theorem Inv.request {r r' : Run} (hi : r.Inv fetch orig) (h : r.scheduleRequest = some r') :
    r'.Inv fetch orig := by
  unfold scheduleRequest at h
  obtain ⟨k, hk, hd⟩ := hi.order
  split at h
  · cases h
  rename_i x rest hsec
  have hx : x ∈ orig := List.mem_of_mem_drop (show x ∈ orig.drop k by rw [← hk, hsec]; simp)
  have hk' : (r.pend ++ [x]) ++ rest = orig.drop k := by rw [← hk, hsec]; simp
  split_ifs at h with hnew
  · cases h
    have hnot : (⟨x, r.sched.bit⟩ : Request) ∉ r.dist := fun hq => (hi.dist _ hq).2.2 hnew
    refine ⟨fun y v hv => ?_, ⟨k, hk', hd⟩, fun y hy => ?_, fun y hy => ?_, fun q hq => ?_,
      List.nodup_append.2 ⟨hi.nodup, by simp, fun a ha b hb => ?_⟩⟩
    · by_cases hyx : y = x
      · subst hyx
        simp at hv
      · exact hi.cache y v (by simpa [Function.update_of_ne hyx] using hv)
    · by_cases hyx : y = x
      · simp [hyx]
      · simpa [Function.update_of_ne hyx] using hi.pend y (by simpa [hyx] using hy)
    · by_cases hyx : y = x
      · simp [hyx]
      · simpa using .inl (hi.pending y (by simpa [Function.update_of_ne hyx] using hy))
    · rcases List.mem_append.1 hq with hq | hq
      · obtain ⟨hb, hmem, hne⟩ := hi.dist q hq
        refine ⟨hb, hmem, ?_⟩
        by_cases hqx : q.sectionIndex = x
        · simp [hqx]
        · simpa [Function.update_of_ne hqx] using hne
      · obtain rfl : q = ⟨x, r.sched.bit⟩ := by simpa using hq
        exact ⟨rfl, hx, by simp⟩
    · rw [List.mem_singleton] at hb
      subst hb
      exact fun hab => hnot (hab ▸ ha)
  · cases h
    refine ⟨hi.cache, ⟨k, hk', hd⟩, fun y hy => ?_, hi.pending, hi.dist, hi.nodup⟩
    rcases List.mem_append.1 hy with hy | hy
    · exact hi.pend y hy
    · obtain rfl : y = x := by simpa using hy
      exact hnew

/-- The first section on `pend` sent once cached: its vector is the next one asked for. -/
theorem Inv.delivery {r r' : Run} (hi : r.Inv fetch orig) (h : r.scheduleDelivery = some r') :
    r'.Inv fetch orig := by
  unfold scheduleDelivery at h
  split at h
  · cases h
  rename_i idx rest hpend
  split at h
  · rename_i v hv
    cases h
    obtain ⟨k, hk, hd⟩ := hi.order
    have hdrop : orig.drop k = idx :: (rest ++ r.sections) := by rw [← hk, hpend]; simp
    have hget : orig[k]? = some idx := by
      rw [← List.head?_drop, hdrop]
      rfl
    refine ⟨hi.cache, ⟨k + 1, ?_, ?_⟩, fun y hy => hi.pend y (by simp [hpend, hy]), hi.pending,
      hi.dist, hi.nodup⟩
    · rw [← List.drop_drop, hdrop]
      rfl
    · rw [List.take_add_one, hget, List.map_append, ← hd, hi.cache idx v hv]
      rfl
  · cases h

theorem Inv.deliver {r : Run} (hi : r.Inv fetch orig) (sections : List UInt64) :
    ({ r with sched := r.sched.deliver sections (sections.map (fetch r.sched.bit)) } : Run).Inv
      fetch orig := by
  have ha : Scheduler.Answers fetch r.sched _ := Scheduler.answers_deliver sections r.sched
  obtain ⟨k, hk, hd⟩ := hi.order
  refine ⟨ha.cacheOk hi.cache, ⟨k, hk, by rw [ha.1]; exact hd⟩, fun y hy => ha.ne_none (hi.pend y hy),
    fun y hy => ?_, fun q hq => ?_, hi.nodup⟩
  · rw [ha.1]
    exact hi.pending y (ha.pending hy)
  · obtain ⟨hb, hmem, hne⟩ := hi.dist q hq
    exact ⟨by rw [ha.1]; exact hb, hmem, ha.ne_none hne⟩

theorem Inv.step {r r' : Run} (hi : r.Inv fetch orig) (h : Step fetch r r') : r'.Inv fetch orig := by
  cases h with
  | request h => exact hi.request h
  | delivery h => exact hi.delivery h
  | deliver sections => exact hi.deliver sections

theorem Reachable.inv {r : Run} (h : r.Reachable fetch orig) : r.Inv fetch orig := by
  induction h with
  | start s hs => exact inv_start hs
  | step _ hst ih => exact ih.step hst

end Run

/-- Whatever the interleaving, what a scheduler sends on `done` are the fetched vectors of the
sections it was asked for, in order; each section is requested once and only sections asked for
are; every section waiting is cached or has its request at the distributor; and once every
section has been read and sent, `done` holds the vectors of all of them. -/
theorem scheduler_delivers_fetch {orig : List UInt64} {r : Run} (h : r.Reachable fetch orig) :
    r.done <+: orig.map (fetch r.sched.bit) ∧
      (∀ x ∈ r.pend, (∃ v, r.sched.responses x = some (some v)) ∨ ⟨x, r.sched.bit⟩ ∈ r.dist) ∧
      r.dist.Nodup ∧ (∀ q ∈ r.dist, q.bit = r.sched.bit ∧ q.sectionIndex ∈ orig) ∧
      (r.sections = [] → r.pend = [] → r.done = orig.map (fetch r.sched.bit)) := by
  have hi := h.inv
  obtain ⟨k, hk, hd⟩ := hi.order
  refine ⟨by rw [hd, List.map_take]; exact List.take_prefix _ _, fun x hx => ?_, hi.nodup,
    fun q hq => ⟨(hi.dist q hq).1, (hi.dist q hq).2.1⟩, fun hs hp => ?_⟩
  · cases hr : r.sched.responses x with
    | none => exact absurd hr (hi.pend x hx)
    | some o =>
      cases o with
      | none => exact .inr (hi.pending x hr)
      | some v => exact .inl ⟨v, rfl⟩
  · rw [hs, hp, List.append_nil, eq_comm, List.drop_eq_nil_iff] at hk
    rw [hd, List.take_of_length_le hk]

/-- The vector of bit `bit` of section `s`, in this example: the two numbers. -/
def sampleFetch (bit : ℕ) (s : UInt64) : List UInt8 := [bit.toUInt8, s.toUInt8]

/-- A scheduler of bit 3 asked for sections 5, 7 and 5: it reads all three, the distributor
delivers 5 and 7, and it sends three vectors. -/
theorem scheduler_delivers_fetch_sample :
    let r₀ := Run.start (newScheduler 3) [5, 7, 5]
    let r₁ := (r₀.scheduleRequest >>= Run.scheduleRequest >>= Run.scheduleRequest).getD r₀
    let r₂ : Run := { r₁ with sched := r₁.sched.deliver [5, 7] ([5, 7].map (sampleFetch 3)) }
    let r := (r₂.scheduleDelivery >>= Run.scheduleDelivery >>= Run.scheduleDelivery).getD r₂
    r.dist = [⟨5, 3⟩, ⟨7, 3⟩] ∧ r.done = [[3, 5], [3, 7], [3, 5]] ∧
      (r.done <+: [5, 7, 5].map (sampleFetch r.sched.bit) ∧
      (∀ x ∈ r.pend, (∃ v, r.sched.responses x = some (some v)) ∨ ⟨x, r.sched.bit⟩ ∈ r.dist) ∧
      r.dist.Nodup ∧ (∀ q ∈ r.dist, q.bit = r.sched.bit ∧ q.sectionIndex ∈ [5, 7, 5]) ∧
      (r.sections = [] → r.pend = [] → r.done = [5, 7, 5].map (sampleFetch r.sched.bit))) := by
  intro r₀ r₁ r₂ r
  have h₀ : r₀.Reachable sampleFetch [5, 7, 5] :=
    .start (newScheduler 3) fun x v hv => by simp [newScheduler] at hv
  have h₁ : r₁.Reachable sampleFetch [5, 7, 5] :=
    ((h₀.step (.request rfl)).step (.request rfl)).step (.request rfl)
  have h₂ : r₂.Reachable sampleFetch [5, 7, 5] := h₁.step (.deliver r₁ [5, 7])
  have h : r.Reachable sampleFetch [5, 7, 5] :=
    ((h₂.step (.delivery rfl)).step (.delivery rfl)).step (.delivery rfl)
  exact ⟨rfl, rfl, scheduler_delivers_fetch sampleFetch h⟩

end GoXdn.Bloombits
