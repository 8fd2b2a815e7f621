import Mathlib

/-!
# The retrieval scheduler of a bloom bit

`core/bloombits/scheduler.go`: the scheduler of one bloom bit reads the sections a `subMatch`
stage asks for, sends each section not asked for before to the distributor (`scheduleRequests`),
caches what the retrievers deliver (`deliver`), and hands the vectors back in the order the
sections were asked for (`scheduleDeliveries`).

A `run` is one state: the sections still unread on the input channel, the requests sent to the
distributor, the sections on `pend` and the vectors sent on `done`. Each turn of one of the two
goroutines, and each delivery the distributor makes, is one step of it, so the steps interleave
in any order. A response's `done` channel is closed exactly when its vector is cached, so a
response is `some none` while pending and `some (some v)` once delivered; `quit` is not modelled.
`section` is a keyword here, so a request's section is `sectionIndex`, as in `PartialMatches`.
-/

namespace GoXdn.Bloombits

/-- `request`: the vector of bit `bit` of section `sectionIndex`, to be retrieved. -/
structure Request where
  sectionIndex : UInt64
  bit : ℕ
  deriving DecidableEq, Repr

/-- `scheduler`: its bit, and its responses by section: `none` for a section never asked for,
`some none` while pending, `some (some v)` once `v` is delivered. -/
structure Scheduler where
  bit : ℕ
  responses : UInt64 → Option (Option (List UInt8))

/-- `newScheduler`. -/
def newScheduler (idx : ℕ) : Scheduler := ⟨idx, fun _ => none⟩

namespace Scheduler

/-- `reset`: the responses asked for and never delivered are dropped. -/
def reset (s : Scheduler) : Scheduler :=
  { s with responses := fun sectionIndex =>
      match s.responses sectionIndex with
      | some none => none
      | r => r }

/-- One turn of the loop of `deliver`: a section asked for and not yet delivered takes its vector;
any other is ignored. -/
def deliverOne (s : Scheduler) (sectionIndex : UInt64) (data : List UInt8) : Scheduler :=
  if s.responses sectionIndex = some none then
    { s with responses := Function.update s.responses sectionIndex (some (some data)) }
  else s

/-- `deliver`: the distributor's reply of the vectors `data` of the sections `sections`. -/
def deliver (s : Scheduler) (sections : List UInt64) (data : List (List UInt8)) : Scheduler :=
  (sections.zip data).foldl (fun s (sectionIndex, d) => s.deliverOne sectionIndex d) s

end Scheduler

/-- The state of a scheduler's `run`. -/
structure Run where
  sched : Scheduler
  sections : List UInt64
  dist : List Request
  pend : List UInt64
  done : List (List UInt8)

namespace Run

/-- `run` in a session: `Start` resets the scheduler first. -/
def start (s : Scheduler) (sections : List UInt64) : Run := ⟨s.reset, sections, [], [], []⟩

/-- A turn of `scheduleRequests`: the next section read, sent to the distributor if no response
for it exists yet, and put on `pend`; `none` when the input is used up. -/
def scheduleRequest (r : Run) : Option Run :=
  match r.sections with
  | [] => none
  | sectionIndex :: rest =>
    if r.sched.responses sectionIndex = none then
      some { r with
        sched := { r.sched with
          responses := Function.update r.sched.responses sectionIndex (some none) }
        sections := rest
        dist := r.dist ++ [⟨sectionIndex, r.sched.bit⟩]
        pend := r.pend ++ [sectionIndex] }
    else some { r with sections := rest, pend := r.pend ++ [sectionIndex] }

/-- A turn of `scheduleDeliveries`: the vector of the first section on `pend` sent on `done`,
once it is delivered; `none` while it waits or when `pend` is empty. -/
def scheduleDelivery (r : Run) : Option Run :=
  match r.pend with
  | [] => none
  | idx :: rest =>
    match r.sched.responses idx with
    | some (some cached) => some { r with pend := rest, done := r.done ++ [cached] }
    | _ => none

/-- The steps of a run whose retrievers deliver, for any sections, the vectors `fetch` gives:
a turn of either goroutine, or a delivery. -/
inductive Step (fetch : ℕ → UInt64 → List UInt8) : Run → Run → Prop
  | request {r r' : Run} : r.scheduleRequest = some r' → Step fetch r r'
  | delivery {r r' : Run} : r.scheduleDelivery = some r' → Step fetch r r'
  | deliver (r : Run) (sections : List UInt64) :
    Step fetch r { r with sched := r.sched.deliver sections (sections.map (fetch r.sched.bit)) }

end Run

end GoXdn.Bloombits
