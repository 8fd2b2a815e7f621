import Mathlib
import GoXdn.Xdn.Filter
import GoXdn.Proofs.Matcher
import GoXdn.Proofs.RlpEncode

/-!
# Log queries return exactly the matching logs

The bloom pre-checks never drop a block that has a log `filterLogs` accepts: `CreateBloom` holds
the three bits of every log's address and topics, so `bloomFilter` and the matcher, which reads
the same blooms through the index, answer yes for it. From there the scan without the index is a
`flatMap` of the accepted logs over its blocks, and so is the loop over the blocks the session
sends, whose blocks are those whose bloom passes. `Logs` runs the one up to the end of the index
and the other from there, and gives the accepted logs of `[begin, end]`, each block once and in
order.
-/

namespace GoXdn.Filters

open GoXdn.Core (Bloom bloom9 BloomLookup BloomByteLength BloomBitLength Receipt)
open GoXdn.State (Log Address)
open GoXdn.Vm (wordBytes)
open GoXdn.Bloombits GoStd

variable (K : Hash256)

/-! ## The bloom of a block's receipts -/

/-- The bits of a fold that ORs something in at each step. -/
theorem testBit_foldl_or {α : Type} (f : ℕ → α → ℕ) (P : α → Bool) {i : ℕ}
    (hf : ∀ acc x, (f acc x).testBit i = (acc.testBit i || P x)) :
    ∀ (l : List α) (a : ℕ), (l.foldl f a).testBit i = (a.testBit i || l.any P)
  | [], a => by rw [List.foldl_nil, List.any_nil, Bool.or_false]
  | x :: l, a => by
    rw [List.foldl_cons, testBit_foldl_or f P hf l, hf, List.any_cons, Bool.or_assoc]

theorem testBit_LogsBloom (logs : List Log) (i : ℕ) :
    (LogsBloom K logs).testBit i = logs.any fun log =>
      (bloom9 K (addressBytes log.address)).testBit i ||
        log.topics.any fun t => (bloom9 K (wordBytes t)).testBit i := by
  rw [LogsBloom, testBit_foldl_or, Nat.zero_testBit, Bool.false_or]
  intro acc log
  rw [testBit_foldl_or _ (fun t => (bloom9 K (wordBytes t)).testBit i)
    (fun _ _ => Nat.testBit_or ..), Nat.testBit_or, Bool.or_assoc]

theorem beNat_replicate_zero_append (b : List UInt8) : ∀ n, beNat (List.replicate n 0 ++ b) = beNat b
  | 0 => rfl
  | n + 1 => by
    rw [List.replicate_succ, List.cons_append, beNat_cons, beNat_replicate_zero_append b n]
    simp

/-- The bloom `CreateBloom` gives is the OR of the receipts' `LogsBloom`s. -/
theorem CreateBloom_Big {receipts : List Receipt} {bloom : Bloom}
    (h : CreateBloom K receipts = .ok bloom) :
    bloom.Big = receipts.foldl (fun bin receipt => bin ||| LogsBloom K receipt.logs) 0 := by
  unfold CreateBloom BytesToBloom at h
  split_ifs at h
  cases h
  rw [Bloom.Big, beNat_replicate_zero_append, Rlp.beNat_bigBytes]

theorem BloomLookup_of_testBit {bloom : Bloom} {c : List UInt8}
    (h : ∀ i, (bloom9 K c).testBit i → bloom.Big.testBit i) : BloomLookup K bloom c = true := by
  rw [BloomLookup, beq_iff_eq]
  apply Nat.eq_of_testBit_eq
  intro i
  rw [Nat.testBit_and]
  cases hi : (bloom9 K c).testBit i with
  | false => rw [Bool.and_false]
  | true => rw [h i hi, Bool.true_and]

/-- The bloom of a block holds every key of its logs: each log's address and each of its
topics. -/
theorem BloomLookup_of_mem {receipts : List Receipt} {bloom : Bloom}
    (h : CreateBloom K receipts = .ok bloom) {log : Log} (hlog : log ∈ receipts.flatMap (·.logs)) :
    BloomLookup K bloom (addressBytes log.address) = true ∧
      ∀ t ∈ log.topics, BloomLookup K bloom (wordBytes t) = true := by
  obtain ⟨r, hr, hlr⟩ := List.mem_flatMap.mp hlog
  have hbig : ∀ i, ((bloom9 K (addressBytes log.address)).testBit i ||
      log.topics.any fun t => (bloom9 K (wordBytes t)).testBit i) = true → bloom.Big.testBit i := by
    intro i hi
    have hlogs : (LogsBloom K r.logs).testBit i = true := by
      rw [testBit_LogsBloom]
      exact List.any_eq_true.mpr ⟨log, hlr, hi⟩
    rw [CreateBloom_Big K h, testBit_foldl_or (fun bin (receipt : Receipt) => bin ||| LogsBloom K receipt.logs)
      (fun r => (LogsBloom K r.logs).testBit i) (fun _ _ => Nat.testBit_or ..), Nat.zero_testBit,
      Bool.false_or]
    exact List.any_eq_true.mpr ⟨r, hr, hlogs⟩
  refine ⟨BloomLookup_of_testBit K fun i hi => hbig i (by rw [hi, Bool.true_or]), fun t ht => ?_⟩
  exact BloomLookup_of_testBit K fun i hi =>
    hbig i (by rw [List.any_eq_true.mpr ⟨t, ht, hi⟩, Bool.or_true])

/-- `CreateBloom` never panics: every bit a log sets is below `BloomBitLength`, so the OR of them
has at most `BloomByteLength` bytes. -/
theorem CreateBloom_ok (receipts : List Receipt) : ∃ bloom, CreateBloom K receipts = .ok bloom := by
  have hbits : ∀ i, BloomBitLength ≤ i →
      (receipts.foldl (fun bin receipt => bin ||| LogsBloom K receipt.logs) 0).testBit i = false := by
    intro i hi
    have hkey : ∀ c, (bloom9 K c).testBit i = false := fun c => by
      rw [testBit_bloom9, decide_eq_false_iff_not]
      exact fun hc => absurd (calcBloomIndexes_lt K c i hc) (by omega)
    rw [testBit_foldl_or (fun bin (receipt : Receipt) => bin ||| LogsBloom K receipt.logs)
      (fun r => (LogsBloom K r.logs).testBit i) (fun _ _ => Nat.testBit_or ..), Nat.zero_testBit,
      Bool.false_or]
    simp [testBit_LogsBloom, hkey]
  have hlt := Nat.lt_pow_two_of_testBit _ hbits
  have h256 : (2 : ℕ) ^ BloomBitLength = 256 ^ 256 := by
    rw [BloomBitLength, BloomByteLength, pow_mul]
    norm_num
  have hlen : (bigBytes (receipts.foldl (fun bin receipt => bin ||| LogsBloom K receipt.logs) 0)).length ≤
      BloomByteLength := by
    rw [Rlp.bigBytes_eq]
    split_ifs with h0
    · exact Nat.zero_le _
    · rw [Rlp.length_putint, Rlp.intsize_eq_log]
      have := Nat.log_lt_of_lt_pow h0 (h256 ▸ hlt)
      rw [BloomByteLength]
      omega
  exact ⟨_, dif_neg (by omega)⟩

/-! ## The bloom pre-check -/

/-- A log with enough topics that passes the loop over the positions holds, at each position
whose set is not empty, a topic of the set. -/
theorem topicsMatch_mem : ∀ (topics : List (List ℕ)) (logTopics : List ℕ),
    topicsMatch topics logTopics = true → topics.length ≤ logTopics.length →
      ∀ sub ∈ topics, sub = [] ∨ ∃ t ∈ logTopics, t ∈ sub
  | [], _, _, _ => fun _ h => absurd h List.not_mem_nil
  | _ :: _, [], _, hlen => absurd hlen (by simp)
  | sub :: topics, t :: logTopics, hm, hlen => by
    rw [topicsMatch, Bool.and_eq_true] at hm
    intro sub' hsub'
    rcases List.mem_cons.mp hsub' with rfl | hsub'
    · rcases Bool.or_eq_true_iff.mp hm.1 with h0 | hany
      · exact .inl (List.eq_nil_of_length_eq_zero (by simpa using h0))
      · obtain ⟨t', ht', heq⟩ := List.any_eq_true.mp hany
        exact .inr ⟨t, List.mem_cons_self .., by rwa [← beq_iff_eq.mp heq]⟩
    · rcases topicsMatch_mem topics logTopics hm.2 (by simpa using hlen) sub' hsub' with h | ⟨t', ht', hs⟩
      · exact .inl h
      · exact .inr ⟨t', List.mem_cons_of_mem _ ht', hs⟩

/-- `bloomFilter` never drops a block that has a log `filterLogs` accepts: the block's bloom is
`CreateBloom` of its receipts, and holds the log's address and its topics at every position. -/
theorem bloomFilter_of_filterLogs {receipts : List Receipt} {bloom : Bloom}
    (hbloom : CreateBloom K receipts = .ok bloom) (addresses : List Address) (topics : List (List ℕ))
    (h : filterLogs (receipts.flatMap (·.logs)) none none addresses topics ≠ []) :
    bloomFilter K bloom addresses topics = true := by
  obtain ⟨log, hlog⟩ := List.exists_mem_of_ne_nil _ h
  rw [filterLogs, List.mem_filter] at hlog
  obtain ⟨hmem, hpass⟩ := hlog
  simp only [Option.any_none, Bool.not_false, Bool.true_and, Bool.and_eq_true, Bool.not_eq_true',
    decide_eq_false_iff_not, not_lt, Bool.and_eq_false_imp, decide_eq_true_eq] at hpass
  obtain ⟨⟨haddr, hlen⟩, hm⟩ := hpass
  obtain ⟨hkey, htopics⟩ := BloomLookup_of_mem K hbloom hmem
  rw [bloomFilter, Bool.and_eq_true]
  constructor
  · rcases Nat.eq_zero_or_pos addresses.length with h0 | hpos
    · rw [h0, beq_self_eq_true, Bool.true_or]
    · have hinc : includes addresses log.address = true := by simpa using haddr hpos
      rw [includes, List.any_eq_true] at hinc
      obtain ⟨a, ha, hae⟩ := hinc
      rw [beq_iff_eq.mp hae] at ha
      exact Bool.or_eq_true_iff.mpr (.inr (List.any_eq_true.mpr ⟨log.address, ha, hkey⟩))
  · rw [List.all_eq_true]
    intro sub hsub
    rcases topicsMatch_mem topics log.topics hm hlen sub hsub with rfl | ⟨t, ht, hts⟩
    · rfl
    · exact Bool.or_eq_true_iff.mpr (.inr (List.any_eq_true.mpr ⟨t, hts, htopics t ht⟩))

/-- A group of clauses none of which is `nil` is skipped by the matcher exactly when it is
empty. -/
theorem isEmpty_or_any_false {α : Type} (l : List α) :
    (l.isEmpty || l.any fun _ => false) = (l.length == 0) := by
  cases l <;> simp

/-- The matcher asks of a header what `bloomFilter` asks of its bloom: the clauses `New` builds
pass exactly where the criteria's blooms do. -/
theorem Passes_newFilters (blooms : ℕ → Bloom) (addresses : List Address) (topics : List (List ℕ))
    (n : ℕ) : Passes K blooms (newFilters addresses topics) n = bloomFilter K (blooms n) addresses topics := by
  rw [Passes, newFilters, List.all_append, bloomFilter]
  congr 1
  · split_ifs with hpos
    · simp only [List.all_cons, List.all_nil, Bool.and_true, List.isEmpty_map, List.any_map,
        Function.comp_def, Option.isNone_some, Option.any_some, isEmpty_or_any_false]
    · simp [show addresses.length = 0 by omega]
  · simp only [List.all_map, List.isEmpty_map, List.any_map, Function.comp_def, Option.isNone_some,
      Option.any_some, isEmpty_or_any_false]

/-- Neither bloom pre-check drops a block that has a log the criteria accept: the block's bloom,
`CreateBloom` of its receipts, passes `bloomFilter`, and it passes the matcher's clauses that
`New` builds, although the blooms forget the topics' positions. -/
theorem bloom_prechecks_keep_matches {receipts : List Receipt} {bloom : Bloom}
    (hbloom : CreateBloom K receipts = .ok bloom) (addresses : List Address) (topics : List (List ℕ))
    (h : filterLogs (receipts.flatMap (·.logs)) none none addresses topics ≠ []) :
    bloomFilter K bloom addresses topics = true ∧
      Passes K (fun _ => bloom) (newFilters addresses topics) 0 = true := by
  have hpass := bloomFilter_of_filterLogs K hbloom addresses topics h
  exact ⟨hpass, by rw [Passes_newFilters]; exact hpass⟩

/-- One receipt with one log, whose address is `1` and whose topics are `2` and `3`. -/
def sampleReceipt : Receipt :=
  ⟨false, 0, 0, 0, none, [⟨1, [2, 3], [], 0, 0, 0, 0, 0⟩]⟩

theorem bloom_prechecks_keep_matches_sample :
    bloomFilter Hash256.zero sampleBloom [1] [[], [3, 2]] = true ∧
      Passes Hash256.zero (fun _ => sampleBloom) (newFilters [1] [[], [3, 2]]) 0 = true :=
  bloom_prechecks_keep_matches Hash256.zero
    (show CreateBloom Hash256.zero [sampleReceipt] = .ok sampleBloom from rfl) [1] [[], [3, 2]]
    (by rw [show filterLogs ([sampleReceipt].flatMap (·.logs)) none none [1] [[], [3, 2]] =
      [⟨1, [2, 3], [], 0, 0, 0, 0, 0⟩] from rfl]; exact List.cons_ne_nil _ _)

theorem ok_bind {α β ε : Type} (a : α) (g : α → Except ε β) : (Except.ok a >>= g) = g a := rfl

/-! ## A session reads the sections of its range only -/

theorem subMatch_sectionIndex (m : Matcher) {fetch : ℕ → UInt64 → List UInt8}
    {bloom : List (List ℕ)} {subres r : PartialMatches} (h : m.subMatch fetch bloom subres = some r) :
    r.sectionIndex = subres.sectionIndex := by
  unfold Matcher.subMatch at h
  dsimp only at h
  split_ifs at h
  cases h
  rfl

theorem orVector_congr {n : ℕ} {fetch fetch' : ℕ → UInt64 → List UInt8} {s : UInt64}
    (h : ∀ bit, fetch bit s = fetch' bit s) (bloom : List (List ℕ)) :
    Matcher.orVector n fetch s bloom = Matcher.orVector n fetch' s bloom := by
  have hand : Matcher.andStep n fetch s = Matcher.andStep n fetch' s := by
    funext andVector bit
    simp only [Matcher.andStep, h]
  have hor : Matcher.orStep n fetch s = Matcher.orStep n fetch' s := by
    funext orVector bits
    simp only [Matcher.orStep, Matcher.andVector, hand]
  rw [Matcher.orVector, Matcher.orVector, hor]

/-- A section goes through the chain of stages the same way under two retrievals that agree on
it: every stage reads the vectors of the section it passes on. -/
theorem chain_congr (m : Matcher) {fetch fetch' : ℕ → UInt64 → List UInt8} :
    ∀ (filters : List (List (List ℕ))) (subres : PartialMatches),
      (∀ bit, fetch bit subres.sectionIndex = fetch' bit subres.sectionIndex) →
      filters.foldlM (fun subres bloom => m.subMatch fetch bloom subres) subres =
        filters.foldlM (fun subres bloom => m.subMatch fetch' bloom subres) subres
  | [], _, _ => rfl
  | bloom :: filters, subres, h => by
    have hsub : m.subMatch fetch bloom subres = m.subMatch fetch' bloom subres := by
      simp only [Matcher.subMatch, orVector_congr h]
    rw [List.foldlM_cons, List.foldlM_cons, hsub]
    cases hs : m.subMatch fetch' bloom subres with
    | none => rfl
    | some r => exact chain_congr m filters r (by rw [subMatch_sectionIndex m hs]; exact h)

/-- A session reads the vectors of the sections from `begin`'s to `end`'s only: two retrievals
that agree there give the same blocks. -/
theorem Start_congr (m : Matcher) {fetch fetch' : ℕ → UInt64 → List UInt8} (begin end_ : UInt64)
    (h : ∀ i ≤ (end_ / m.sectionSize).toNat, ∀ bit, fetch bit i.toUInt64 = fetch' bit i.toUInt64) :
    m.Start fetch begin end_ = m.Start fetch' begin end_ := by
  have hrun : m.run fetch begin end_ = m.run fetch' begin end_ := by
    unfold Matcher.run
    apply List.filterMap_congr
    intro x hx
    obtain ⟨i, hi, rfl⟩ := List.mem_map.mp hx
    rw [List.mem_range'_1] at hi
    exact chain_congr m m.filters _ (h i (by omega))
  rw [Matcher.Start, Matcher.Start, hrun]

theorem mem_of_mapM_some {α β : Type} {f : α → Option β} :
    ∀ {l : List α} {bs : List β}, l.mapM f = some bs → ∀ b ∈ bs, ∃ a ∈ l, f a = some b
  | [], bs, h, b, hb => by
    rw [List.mapM_nil] at h
    cases h
    exact absurd hb List.not_mem_nil
  | a :: l, bs, h, b, hb => by
    cases ha : f a with
    | none => simp [List.mapM_cons, ha] at h
    | some b₀ =>
      cases hl : l.mapM f with
      | none => simp [List.mapM_cons, ha, hl] at h
      | some bs' =>
        simp only [List.mapM_cons, ha, hl, Option.bind_eq_bind, Option.bind_some, Option.pure_def,
          Option.some.injEq] at h
        subst h
        rcases List.mem_cons.mp hb with rfl | hb
        · exact ⟨a, List.mem_cons_self .., ha⟩
        · obtain ⟨a', ha', hfa'⟩ := mem_of_mapM_some hl b hb
          exact ⟨a', List.mem_cons_of_mem _ ha', hfa'⟩

/-- The matcher only ever asks for bloom bits below `BloomBitLength`. -/
theorem bit_lt_of_mem_filters {size : UInt64} {filters : List (List (Option (List UInt8)))}
    {bloom : List (List ℕ)} (hbloom : bloom ∈ (NewMatcher K size filters).filters)
    {bits : List ℕ} (hbits : bits ∈ bloom) : ∀ b ∈ bits, b < BloomBitLength := by
  obtain ⟨filter, -, hf⟩ := List.mem_filterMap.mp hbloom
  split_ifs at hf
  obtain ⟨clause, -, hc⟩ := mem_of_mapM_some hf bits hbits
  obtain ⟨c, -, rfl⟩ := Option.map_eq_some_iff.mp hc
  exact calcBloomIndexes_lt K c

theorem flatMap_filter_of_nil {α β : Type} {p : α → Bool} {g : α → List β} :
    ∀ l : List α, (∀ x ∈ l, p x = false → g x = []) → (l.filter p).flatMap g = l.flatMap g
  | [], _ => rfl
  | x :: l, h => by
    have ih := flatMap_filter_of_nil l fun y hy => h y (List.mem_cons_of_mem _ hy)
    rw [List.filter_cons, List.flatMap_cons]
    cases hx : p x with
    | false => rw [if_neg Bool.false_ne_true, ih, h x List.mem_cons_self hx, List.nil_append]
    | true => rw [if_pos rfl, List.flatMap_cons, ih]

theorem range'_append_range' {b c d : ℕ} (hcd : c ≤ d) (h : b ≤ c + 1 ∨ d ≤ c) :
    List.range' b (c + 1 - b) ++ List.range' (c + 1) (d + 1 - (c + 1)) = List.range' b (d + 1 - b) := by
  rcases h with h | h
  · have hrange := @List.range'_append b (c + 1 - b) (d + 1 - (c + 1)) 1
    rw [show b + 1 * (c + 1 - b) = c + 1 by omega,
      show c + 1 - b + (d + 1 - (c + 1)) = d + 1 - b by omega] at hrange
    exact hrange
  · obtain rfl : d = c := by omega
    rw [Nat.sub_self, List.range'_zero, List.append_nil]

theorem wrapInt64_natCast {n : ℕ} (h : n < 2 ^ 63) : wrapInt64 n = n :=
  wrapInt64_of_lt (by omega) (by exact_mod_cast h)

theorem toNat_ofInt_natCast {n : ℕ} (h : n < 2 ^ 63) : (UInt64.ofInt n).toNat = n := by
  rw [UInt64.ofInt, UInt64.toNat_ofNat', Int.emod_eq_of_lt (by omega) (by omega)]
  simp only [Int.toNat_natCast]
  omega

theorem toNat_toUInt64 {n : ℕ} (h : n < 2 ^ 64) : n.toUInt64.toNat = n := by
  simp only [Nat.toUInt64_eq, UInt64.toNat_ofNat']
  omega

/-! ## Queries over a served chain -/

section Chain

variable {η ε : Type}

/-- A backend that serves the chain `hdr 0`, ..., `hdr head` with its receipts: the latest header
is the head, a header by number is the chain's up to the head and there is none above it, a
block's receipts are found by its header's hash, and each header's bloom is `CreateBloom` of its
block's receipts. -/
structure ServesChain (backend : Backend η ε) (head : ℕ) (hdr : ℕ → Header η)
    (receipts : ℕ → List Receipt) : Prop where
  head_lt : head + 1 < 2 ^ 63
  latest : backend.headerByNumber LatestBlockNumber = (some (hdr head), none)
  number_head : (hdr head).number = head
  byNumber : ∀ n : ℕ, n < 2 ^ 63 →
    backend.headerByNumber n = (if n ≤ head then some (hdr n) else none, none)
  getReceipts : ∀ n ≤ head, backend.getReceipts (hdr n).hash = .ok (receipts n)
  bloom : ∀ n ≤ head, CreateBloom K (receipts n) = .ok (hdr n).bloom

/-- The backend's bloom-bits index: `sections` sections of `size` blocks, `size` a multiple of 8,
all within the chain, whose vectors `ServiceFilter` retrieves as the section's generator builds
them from the headers' blooms. -/
structure Indexes (backend : Backend η ε) (head : ℕ) (hdr : ℕ → Header η) : Prop where
  size_mod : backend.bloomStatus.1.toNat % 8 = 0
  within : backend.bloomStatus.2.toNat * backend.bloomStatus.1.toNat ≤ head + 1
  vectors : ∀ s : UInt64, s < backend.bloomStatus.2 → ∀ bit < BloomBitLength,
    sectionBitset (fun n => (hdr n).bloom) backend.bloomStatus.1.toNat s.toNat bit =
      .ok (backend.serviceFilter bit s)

/-- The logs of block `n` that the criteria accept, in the order of its receipts and their logs. -/
def matching (receipts : ℕ → List Receipt) (addresses : List Address) (topics : List (List ℕ))
    (n : ℕ) : List Log :=
  filterLogs ((receipts n).flatMap (·.logs)) none none addresses topics

/-- The block a bound of the range names: the head for `-1`. -/
def resolve (head : ℕ) (x : ℤ) : ℕ := if x = -1 then head else x.toNat

variable {K} {backend : Backend η ε} {head : ℕ} {hdr : ℕ → Header η} {receipts : ℕ → List Receipt}

theorem ServesChain.header_le (hc : ServesChain K backend head hdr receipts) {n : ℕ}
    (hn : n ≤ head) : backend.headerByNumber n = (some (hdr n), none) := by
  rw [hc.byNumber n (by have := hc.head_lt; omega), if_pos hn]

theorem ServesChain.header_gt (hc : ServesChain K backend head hdr receipts) {n : ℕ}
    (hn : head < n) (h63 : n < 2 ^ 63) : backend.headerByNumber n = (none, none) := by
  rw [hc.byNumber n h63, if_neg (by omega)]

theorem ServesChain.checkMatches (hc : ServesChain K backend head hdr receipts) (f : Filter)
    {n : ℕ} (hn : n ≤ head) :
    f.checkMatches backend (hdr n) = .ok (matching receipts f.addresses f.topics n) := by
  rw [Filter.checkMatches, hc.getReceipts n hn]
  rfl

/-- A block whose bloom fails the criteria has no log they accept. -/
theorem ServesChain.matching_eq_nil (hc : ServesChain K backend head hdr receipts) {n : ℕ}
    (hn : n ≤ head) {addresses : List Address} {topics : List (List ℕ)}
    (h : bloomFilter K (hdr n).bloom addresses topics = false) :
    matching receipts addresses topics n = [] := by
  by_contra hne
  have hpass := bloomFilter_of_filterLogs K (hc.bloom n hn) addresses topics hne
  rw [h] at hpass
  cases hpass

/-- The scan from block `start`, `k` blocks before it passes the end of the range or the head:
the accepted logs of those blocks, in order. The bloom check skips only blocks that have none. -/
theorem unindexedLoop_eq (hc : ServesChain K backend head hdr receipts) {end_ : UInt64}
    (hend : end_.toNat < 2 ^ 63) :
    ∀ (k : ℕ) (f : Filter) (start fuel : ℕ) (logs : List Log), f.begin = start → start < 2 ^ 63 →
      min end_.toNat head + 1 - start = k → k < fuel →
      ∃ f', Filter.unindexedLoop K backend end_ fuel f logs =
        .ok (f', logs ++ (List.range' start k).flatMap (matching receipts f.addresses f.topics), none) := by
  have h63 := hc.head_lt
  intro k
  induction k with
  | zero =>
    intro f start fuel logs hf hs hk hfuel
    obtain ⟨fuel, rfl⟩ := Nat.exists_eq_add_one_of_ne_zero (by omega : fuel ≠ 0)
    refine ⟨f, ?_⟩
    rw [List.range'_zero, List.flatMap_nil, List.append_nil, Filter.unindexedLoop, hf,
      wrapInt64_natCast hend]
    split_ifs with hle
    · rw [hc.header_gt (by omega) hs]
    · rfl
  | succ k ih =>
    intro f start fuel logs hf hs hk hfuel
    obtain ⟨fuel, rfl⟩ := Nat.exists_eq_add_one_of_ne_zero (by omega : fuel ≠ 0)
    have hle : start ≤ head := by omega
    have hnext : wrapInt64 ((start : ℤ) + 1) = ((start + 1 : ℕ) : ℤ) := by
      have := wrapInt64_natCast (n := start + 1) (by omega)
      push_cast at this
      exact this
    rw [Filter.unindexedLoop, hf, wrapInt64_natCast hend, if_pos (by omega), hc.header_le hle]
    dsimp only
    rw [List.range'_succ, List.flatMap_cons, hnext]
    split_ifs with hbloom
    · rw [hc.checkMatches f hle]
      dsimp only
      obtain ⟨f', hf'⟩ := ih { f with begin := ((start + 1 : ℕ) : ℤ) } (start + 1) fuel _ rfl
        (by omega) (by omega) (by omega)
      exact ⟨f', by rw [hf', List.append_assoc]⟩
    · rw [hc.matching_eq_nil hle (Bool.eq_false_iff.mpr hbloom), List.nil_append]
      exact ih _ (start + 1) fuel logs rfl (by omega) (by omega) (by omega)

/-- The loop over the blocks a session sends: the accepted logs of each, in order, and `begin`
past the end. -/
theorem indexedLoop_eq (hc : ServesChain K backend head hdr receipts) (end_ : UInt64) :
    ∀ (ns : List ℕ) (f : Filter) (logs : List Log), (∀ n ∈ ns, n ≤ head) →
      Filter.indexedLoop backend end_ f (ns.map Nat.toUInt64) logs =
        ({ f with begin := wrapInt64 (wrapInt64 end_.toNat + 1) },
          logs ++ ns.flatMap (matching receipts f.addresses f.topics), none)
  | [], f, logs, _ => by rw [List.map_nil, Filter.indexedLoop, List.flatMap_nil, List.append_nil]
  | n :: ns, f, logs, hns => by
    have hn : n ≤ head := hns n List.mem_cons_self
    have h63 : n < 2 ^ 63 := by have := hc.head_lt; omega
    rw [List.map_cons, Filter.indexedLoop, toNat_toUInt64 (by omega), wrapInt64_natCast h63,
      hc.header_le hn]
    dsimp only
    rw [hc.checkMatches _ hn]
    dsimp only
    rw [indexedLoop_eq hc end_ ns _ _ fun m hm => hns m (List.mem_cons_of_mem _ hm),
      List.flatMap_cons, List.append_assoc]

/-- The indexed part: a session from `begin` to an `end` inside the index sends exactly the
blocks whose bloom passes, and the loop over them gives the accepted logs of `[begin, end]`. -/
theorem indexedLogs_eq (hc : ServesChain K backend head hdr receipts)
    (hi : Indexes backend head hdr) (f : Filter)
    (hm : f.matcher = NewMatcher K backend.bloomStatus.1 (newFilters f.addresses f.topics))
    {b : ℕ} (hb : f.begin = b) (hb63 : b < 2 ^ 63) {end_ : UInt64}
    (hend : end_.toNat < backend.bloomStatus.2.toNat * backend.bloomStatus.1.toNat) :
    f.indexedLogs backend end_ = .ok ({ f with begin := ((end_.toNat + 1 : ℕ) : ℤ) },
      (List.range' b (end_.toNat + 1 - b)).flatMap (matching receipts f.addresses f.topics), none) := by
  have h63 := hc.head_lt
  have hwithin := hi.within
  have hsize : 0 < backend.bloomStatus.1.toNat :=
    Nat.pos_of_ne_zero fun h => by rw [h, Nat.mul_zero] at hend; omega
  have hsec : 0 < backend.bloomStatus.2.toNat :=
    Nat.pos_of_ne_zero fun h => by rw [h, Nat.zero_mul] at hend; omega
  have h2048 : BloomBitLength ≤ backend.bloomStatus.1.toNat := by
    by_contra hlt
    have hv := hi.vectors 0 (UInt64.lt_iff_toNat_lt.mpr hsec) backend.bloomStatus.1.toNat (by omega)
    rw [sectionBitset_refuses _ hi.size_mod] at hv
    cases hv
  let fetch : ℕ → UInt64 → List UInt8 := fun bit s =>
    if s < backend.bloomStatus.2 then backend.serviceFilter bit s
    else (sectionBitset (fun n => (hdr n).bloom) backend.bloomStatus.1.toNat s.toNat bit).toOption.getD []
  have hcongr : f.matcher.Start backend.serviceFilter (UInt64.ofInt f.begin) end_ =
      f.matcher.Start fetch (UInt64.ofInt f.begin) end_ := by
    apply Start_congr
    intro i hi' bit
    have hss : f.matcher.sectionSize = backend.bloomStatus.1 := by rw [hm]; rfl
    rw [hss, UInt64.toNat_div] at hi'
    have hisec : i < backend.bloomStatus.2.toNat :=
      lt_of_le_of_lt hi' ((Nat.div_lt_iff_lt_mul hsize).mpr hend)
    have hlt : i.toUInt64 < backend.bloomStatus.2 := by
      rw [UInt64.lt_iff_toNat_lt, toNat_toUInt64 (by have := backend.bloomStatus.2.toNat_lt; omega)]
      exact hisec
    exact (if_pos hlt).symm
  have hfetch : ∀ (s : UInt64),
      ∀ bloom ∈ (NewMatcher K backend.bloomStatus.1 (newFilters f.addresses f.topics)).filters,
      ∀ bits ∈ bloom, ∀ bb ∈ bits,
        sectionBitset (fun n => (hdr n).bloom) backend.bloomStatus.1.toNat s.toNat bb = .ok (fetch bb s) := by
    intro s bloom hbloom bits hbits bb hbb
    have hbb' := bit_lt_of_mem_filters K hbloom hbits bb hbb
    by_cases hs : s < backend.bloomStatus.2
    · rw [show fetch bb s = backend.serviceFilter bb s from if_pos hs]
      exact hi.vectors s hs bb hbb'
    · obtain ⟨v, hv⟩ := sectionBitset_ok (fun n => (hdr n).bloom) (s := s.toNat) hi.size_mod
        (by omega : bb < backend.bloomStatus.1.toNat) hbb'
      rw [show fetch bb s = _ from if_neg hs, hv]
      rfl
  have hstart := Start_eq_matches K (fun n => (hdr n).bloom) (newFilters f.addresses f.topics)
    backend.bloomStatus.1 (UInt64.ofInt f.begin) end_ fetch hsize hi.size_mod (by nlinarith) hfetch
  rw [hb, toNat_ofInt_natCast hb63, ← hm] at hstart
  rw [Filter.indexedLogs, hcongr, hb, hstart]
  have hns : ∀ n ∈ (List.range' b (end_.toNat + 1 - b)).filter
      (Passes K (fun n => (hdr n).bloom) (newFilters f.addresses f.topics)), n ≤ head := by
    intro n hn
    rw [List.mem_filter, List.mem_range'_1] at hn
    omega
  have hlast : wrapInt64 (wrapInt64 end_.toNat + 1) = ((end_.toNat + 1 : ℕ) : ℤ) := by
    rw [wrapInt64_natCast (by omega)]
    have := wrapInt64_natCast (n := end_.toNat + 1) (by omega)
    push_cast at this ⊢
    exact this
  show Except.ok (Filter.indexedLoop backend end_ _ _ []) = _
  rw [indexedLoop_eq hc end_ _ _ [] hns, hlast, List.nil_append, flatMap_filter_of_nil]
  intro n hn hpass
  rw [List.mem_range'_1] at hn
  rw [Passes_newFilters] at hpass
  exact hc.matching_eq_nil (by omega) hpass

/-- `Logs` once the range is resolved: the session up to the end of the index or of the range,
then the scan from the block after it; or the scan alone when the index ends before `begin`.
The two meet at the block after the session's last, so together they cover `[begin, end]` up to
the head, each block once. -/
theorem gather_eq (hc : ServesChain K backend head hdr receipts) (hi : Indexes backend head hdr)
    (f : Filter) (hm : f.matcher = NewMatcher K backend.bloomStatus.1 (newFilters f.addresses f.topics))
    {b : ℕ} (hb : f.begin = b) (hb63 : b < 2 ^ 63) {end_ : UInt64} (hend : end_.toNat < 2 ^ 63) :
    ∃ f', f.gather K backend end_ = .ok (f',
      (List.range' b (min end_.toNat head + 1 - b)).flatMap (matching receipts f.addresses f.topics),
      none) := by
  have h63 := hc.head_lt
  have hwithin := hi.within
  have hI : (backend.bloomStatus.2 * backend.bloomStatus.1).toNat =
      backend.bloomStatus.2.toNat * backend.bloomStatus.1.toNat := by
    rw [UInt64.toNat_mul, Nat.mod_eq_of_lt (by omega)]
  rw [Filter.gather]
  dsimp only
  have hlastlt' : ∀ last : UInt64, last.toNat < backend.bloomStatus.2.toNat * backend.bloomStatus.1.toNat →
      f.indexedLogs backend last = _ := fun last h => indexedLogs_eq hc hi f hm hb hb63 h
  generalize backend.bloomStatus.2.toNat * backend.bloomStatus.1.toNat = P at hwithin hI hlastlt'
  by_cases hlt : UInt64.ofInt f.begin < backend.bloomStatus.2 * backend.bloomStatus.1
  · rw [if_pos hlt]
    rw [UInt64.lt_iff_toNat_lt, hI, hb, toNat_ofInt_natCast hb63] at hlt
    obtain ⟨last, hlast, hlastlt, hcover⟩ : ∃ last : UInt64,
        (if end_ < backend.bloomStatus.2 * backend.bloomStatus.1 then end_
          else backend.bloomStatus.2 * backend.bloomStatus.1 - 1) = last ∧
        last.toNat < P ∧ (last.toNat = end_.toNat ∨ last.toNat + 1 = P ∧ P ≤ end_.toNat) := by
      split_ifs with hlte
      · rw [UInt64.lt_iff_toNat_lt, hI] at hlte
        exact ⟨end_, rfl, hlte, .inl rfl⟩
      · rw [UInt64.lt_iff_toNat_lt, hI] at hlte
        have hpos : 1 ≤ (backend.bloomStatus.2 * backend.bloomStatus.1).toNat := by omega
        refine ⟨_, rfl, ?_⟩
        rw [UInt64.toNat_sub_of_le _ _ (UInt64.le_iff_toNat_le.mpr (by rw [UInt64.toNat_one]; exact hpos)),
          hI, UInt64.toNat_one]
        omega
    rw [hlast, hlastlt' last hlastlt]
    obtain ⟨f', hf'⟩ := unindexedLoop_eq hc hend (min end_.toNat head + 1 - (last.toNat + 1))
      { f with begin := ((last.toNat + 1 : ℕ) : ℤ) } (last.toNat + 1) (2 ^ 64 + 1) [] rfl
      (by omega) rfl (by omega)
    have hscan : Filter.unindexedLogs K { f with begin := ((last.toNat + 1 : ℕ) : ℤ) } backend end_ =
        .ok (f', [] ++ (List.range' (last.toNat + 1) (min end_.toNat head + 1 - (last.toNat + 1))).flatMap
          (matching receipts f.addresses f.topics), none) := by
      rw [Filter.unindexedLogs]
      exact hf'
    refine ⟨f', ?_⟩
    rw [ok_bind, hscan]
    simp only [ok_bind, List.nil_append, pure, Except.pure]
    rw [← List.flatMap_append, range'_append_range' (by omega) (by omega)]
  · rw [if_neg hlt]
    rw [UInt64.lt_iff_toNat_lt, hI, hb, toNat_ofInt_natCast hb63] at hlt
    obtain ⟨f', hf'⟩ := unindexedLoop_eq hc hend (min end_.toNat head + 1 - b) f b (2 ^ 64 + 1) []
      hb hb63 rfl (by omega)
    exact ⟨f', by rw [Filter.unindexedLogs, hf', List.nil_append]⟩

/-- `Logs` once the head is read: the range resolved against it, then `gather`. -/
theorem Logs_of_latest (f : Filter) {header : Header η}
    (h : (backend.headerByNumber LatestBlockNumber).1 = some header) :
    f.Logs K backend =
      (if f.begin = -1 then { f with begin := wrapInt64 (UInt64.ofNat header.number).toNat } else f).gather
        K backend (if f.end_ = -1 then UInt64.ofNat header.number else UInt64.ofInt f.end_) := by
  unfold Filter.Logs
  rw [h]
  dsimp only
  split_ifs <;> rfl

/-- **Log queries are complete and exact.** On a backend serving a chain whose headers' blooms are
`CreateBloom` of their receipts, with a bloom-bits index that the generator built from those
blooms, `Logs` returns the logs of the blocks from `begin` to `end` (`-1` the head, and none past
the head) that `filterLogs` accepts, block by block in increasing order and within a block in
receipt and log order, each once, with no error. -/
theorem Logs_eq_matching (hc : ServesChain K backend head hdr receipts)
    (hi : Indexes backend head hdr) (begin end_ : ℤ) (hbegin : begin = -1 ∨ 0 ≤ begin ∧ begin < 2 ^ 63)
    (hend : end_ = -1 ∨ 0 ≤ end_ ∧ end_ < 2 ^ 63) (addresses : List Address)
    (topics : List (List ℕ)) :
    ∃ f', (New K backend begin end_ addresses topics).Logs K backend =
      .ok (f', (List.range' (resolve head begin)
        (min (resolve head end_) head + 1 - resolve head begin)).flatMap
          (matching receipts addresses topics), none) := by
  have h63 := hc.head_lt
  have hhead : (UInt64.ofNat head).toNat = head := by
    rw [UInt64.toNat_ofNat']
    omega
  have hE : (if (New K backend begin end_ addresses topics).end_ = -1 then UInt64.ofNat head
      else UInt64.ofInt (New K backend begin end_ addresses topics).end_).toNat = resolve head end_ := by
    show (if end_ = -1 then UInt64.ofNat head else UInt64.ofInt end_).toNat = resolve head end_
    rcases hend with rfl | ⟨h0, h1⟩
    · rw [if_pos rfl, hhead, resolve, if_pos rfl]
    · have hcast : ((end_.toNat : ℕ) : ℤ) = end_ := Int.toNat_of_nonneg h0
      rw [if_neg (by omega), resolve, if_neg (by omega), ← hcast, toNat_ofInt_natCast (by omega),
        Int.toNat_natCast]
  have hE63 : resolve head end_ < 2 ^ 63 := by
    unfold resolve
    split_ifs <;> omega
  rw [Logs_of_latest (K := K) _ (by rw [hc.latest]), hc.number_head]
  rcases hbegin with hb1 | ⟨h0, h1⟩
  · rw [if_pos (show (New K backend begin end_ addresses topics).begin = -1 from hb1)]
    obtain ⟨f', hf'⟩ := gather_eq hc hi
      { New K backend begin end_ addresses topics with begin := wrapInt64 (UInt64.ofNat head).toNat } rfl
      (b := head) (by show wrapInt64 (UInt64.ofNat head).toNat = head; rw [hhead, wrapInt64_natCast (by omega)])
      (by omega) (by rw [hE]; exact hE63)
    rw [hE] at hf'
    have hrb : resolve head begin = head := if_pos hb1
    exact ⟨f', by rw [hf', hrb]; rfl⟩
  · have hcast : ((begin.toNat : ℕ) : ℤ) = begin := Int.toNat_of_nonneg h0
    rw [if_neg (show ¬(New K backend begin end_ addresses topics).begin = -1 from fun h => by
      change begin = -1 at h; omega)]
    obtain ⟨f', hf'⟩ := gather_eq hc hi (New K backend begin end_ addresses topics) rfl
      (b := begin.toNat) hcast.symm (by omega)
      (by rw [hE]; exact hE63)
    rw [hE] at hf'
    have hrb : resolve head begin = begin.toNat := if_neg (by omega)
    exact ⟨f', by rw [hf', hrb]; rfl⟩

/-- The receipts of a chain whose block 1 holds `sampleReceipt`, and no other block a receipt. -/
def logReceipts (n : ℕ) : List Receipt := if n = 1 then [sampleReceipt] else []

/-- The bloom of a block with no receipts has no bit set. -/
theorem CreateBloom_nil : CreateBloom K [] = .ok ⟨List.replicate BloomByteLength 0, List.length_replicate⟩ := by
  rw [CreateBloom, List.foldl_nil, show bigBytes 0 = [] from rfl, BytesToBloom, dif_neg (by decide)]
  simp only [List.length_nil, Nat.sub_zero, List.append_nil]

/-- The headers of that chain, numbered and hashed by their number, with the blooms of their
receipts. -/
def logHeader (n : ℕ) : Header ℕ :=
  ⟨n, if n = 1 then sampleBloom else ⟨List.replicate BloomByteLength 0, List.length_replicate⟩, n⟩

/-- The vectors of the chain's first section of 2048 blocks, as its generator builds them. -/
def logVectors (bit : ℕ) (s : UInt64) : List UInt8 :=
  (sectionBitset (fun n => (logHeader n).bloom) 2048 s.toNat bit).toOption.getD []

/-- A backend serving the chain up to block 2047, with its one section indexed. -/
def logBackend : Backend ℕ Unit where
  headerByNumber n :=
    if n = -1 then (some (logHeader 2047), none)
    else if 0 ≤ n ∧ n ≤ 2047 then (some (logHeader n.toNat), none) else (none, none)
  getReceipts hash := .ok (logReceipts hash)
  bloomStatus := (2048, 1)
  serviceFilter := logVectors

theorem logBackend_serves : ServesChain Hash256.zero logBackend 2047 logHeader logReceipts :=
  { head_lt := by norm_num
    latest := by simp [logBackend, LatestBlockNumber]
    number_head := rfl
    byNumber := fun n hn => by
      simp only [logBackend]
      rw [if_neg (by omega)]
      by_cases h : n ≤ 2047
      · rw [if_pos ⟨by omega, by omega⟩, if_pos h, Int.toNat_natCast]
      · rw [if_neg (by omega), if_neg h]
    getReceipts := fun _ _ => rfl
    bloom := fun n _ => by
      by_cases h : n = 1
      · subst h
        rfl
      · simp only [logReceipts, logHeader, if_neg h]
        exact CreateBloom_nil }

theorem logBackend_indexes : Indexes logBackend 2047 logHeader :=
  { size_mod := by simp [logBackend]
    within := by simp [logBackend]
    vectors := fun s _ bit hbit => by
      obtain ⟨v, hv⟩ := sectionBitset_ok (fun n => (logHeader n).bloom) (s := s.toNat)
        (show 2048 % 8 = 0 by norm_num) hbit hbit
      have h2048 : logBackend.bloomStatus.1.toNat = 2048 := by simp [logBackend]
      have hsf : logBackend.serviceFilter bit s = v := by
        simp only [logBackend, logVectors, hv]
        rfl
      rw [h2048, hv, hsf] }

theorem matching_logReceipts (n : ℕ) :
    matching logReceipts [1] [[], [3, 2]] n = if n = 1 then [⟨1, [2, 3], [], 0, 0, 0, 0, 0⟩] else [] := by
  unfold matching logReceipts
  split_ifs <;> rfl

/-- Over the whole chain, the criteria address 1 and topic 3 or 2 at the second position find
the one log of block 1. -/
theorem Logs_eq_matching_log :
    ServesChain Hash256.zero logBackend 2047 logHeader logReceipts ∧
      Indexes logBackend 2047 logHeader ∧
      (List.range' (resolve 2047 0) (min (resolve 2047 (-1)) 2047 + 1 - resolve 2047 0)).flatMap
          (matching logReceipts [1] [[], [3, 2]]) = [⟨1, [2, 3], [], 0, 0, 0, 0, 0⟩] ∧
      ∃ f', (New Hash256.zero logBackend 0 (-1) [1] [[], [3, 2]]).Logs Hash256.zero logBackend =
        .ok (f', (List.range' (resolve 2047 0) (min (resolve 2047 (-1)) 2047 + 1 - resolve 2047 0)).flatMap
          (matching logReceipts [1] [[], [3, 2]]), none) :=
  ⟨logBackend_serves, logBackend_indexes, by
    have hsplit : List.range' (resolve 2047 0) (min (resolve 2047 (-1)) 2047 + 1 - resolve 2047 0) =
        List.range' 0 2 ++ List.range' 2 2046 := by
      rw [List.range'_append]
      rfl
    have hrest : (List.range' 2 2046).flatMap (matching logReceipts [1] [[], [3, 2]]) = [] :=
      List.flatMap_eq_nil_iff.2 fun n hn => by
        rw [matching_logReceipts, if_neg (by rw [List.mem_range'_1] at hn; omega)]
    rw [hsplit, List.flatMap_append, hrest, List.append_nil]
    rfl,
    Logs_eq_matching logBackend_serves logBackend_indexes 0 (-1) (.inr ⟨le_rfl, by norm_num⟩)
      (.inl rfl) [1] [[], [3, 2]]⟩

end Chain

end GoXdn.Filters
