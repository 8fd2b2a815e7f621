import Mathlib

/-!
# Batch header verification

`Dnpoc.VerifyHeaders` in `consensus/xdnoc/dnpoc.go` checks `n` headers on a pool of worker
goroutines and reports the results in header order. A collector goroutine hands the indices
`0, 1, …` to the workers over the unbuffered `inputs` channel; a worker stores its result in
`errors[index]` and sends `index` back on `done`; on each index received the collector marks it in
`checked` and sends on `errorsOut` every result from `out` on whose index is checked, returning
after the last one.

The state here is what the goroutines share, and a run is any sequence of the steps they take
(`Event`): the collector's two `select` cases and `abort`, and a worker finishing an index it holds.
A worker's result is `verifyHeaderWorker(chain, headers, seals, index)`, a function `w` of the index
here; `d` is the zero value the `errors` slice starts with. There is a worker for every index handed
out, so every schedule of a bounded pool is one of these runs.
-/

namespace GoXdn.Consensus

/-- What the collector and the workers of one `VerifyHeaders` call share. -/
structure BatchState (α : Type) where
  /-- `len(headers)` -/
  n : ℕ
  /-- the collector's `in`: the next index to hand out -/
  next : ℕ
  out : ℕ
  checked : List Bool
  errors : List α
  /-- the indices the workers hold, not yet finished -/
  working : List ℕ
  /-- the `done` channel, oldest first -/
  done : List ℕ
  /-- what the collector has sent on `errorsOut` -/
  sent : List α
  /-- the collector has returned -/
  returned : Bool

/-- The steps of the goroutines. -/
inductive BatchEvent
  /-- the collector's `case inputs <- in`, a worker taking the index -/
  | dispatch
  /-- the worker holding `index` stores its result and sends `index` on `done` -/
  | finish (index : ℕ)
  /-- the collector's `case index := <-done` -/
  | receive
  /-- the collector's `case <-abort` -/
  | abort
  deriving DecidableEq

namespace BatchState

variable {α : Type}

/-- The state `VerifyHeaders` starts the goroutines in. With no headers it sends nothing. -/
def VerifyHeaders (d : α) (n : ℕ) : BatchState α :=
  ⟨n, 0, 0, List.replicate n false, List.replicate n d, [], [], [], n = 0⟩

/-- The loop `for checked[index] = true; checked[out]; out++`: it sends `errors[out]` while `out`
is checked and returns after index `n - 1`. `fuel` bounds its turns. -/
def drain (s : BatchState α) (d : α) : ℕ → BatchState α
  | 0 => s
  | fuel + 1 =>
    if s.checked.getD s.out false then
      let s := { s with sent := s.sent ++ [s.errors.getD s.out d] }
      if s.out = s.n - 1 then { s with returned := true }
      else drain { s with out := s.out + 1 } d fuel
    else s

/-- One step of the run; a step that is not enabled changes nothing. -/
def step (w : ℕ → α) (d : α) (s : BatchState α) : BatchEvent → BatchState α
  | .dispatch =>
    -- `inputs` is set to `nil` once every index is out
    if ¬ s.returned ∧ s.next < s.n then { s with next := s.next + 1, working := s.working ++ [s.next] }
    else s
  | .finish i =>
    if i ∈ s.working then
      { s with working := s.working.erase i, errors := s.errors.set i (w i), done := s.done ++ [i] }
    else s
  | .receive =>
    match s.returned, s.done with
    | false, i :: rest => drain { s with checked := s.checked.set i true, done := rest } d s.n
    | _, _ => s
  | .abort => { s with returned := true }

/-- A run of steps. -/
def run (w : ℕ → α) (d : α) (s : BatchState α) (es : List BatchEvent) : BatchState α :=
  es.foldl (step w d) s

/-- The steps left: an index not yet handed out needs three more, one a worker holds two, one in
`done` one. -/
def remaining (s : BatchState α) : ℕ := 3 * (s.n - s.next) + 2 * s.working.length + s.done.length

end BatchState

end GoXdn.Consensus
