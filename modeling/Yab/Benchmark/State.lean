import Mathlib.Data.Multiset.Basic
import Mathlib.Algebra.BigOperators.Group.List
import Mathlib.Algebra.Order.Ring.Nat

/-!
# Benchmark/State — one worker's samples, and the merge that folds workers together

Each worker owns a `BenchmarkState`.  `runWorker` feeds it three events — `recordLatency`,
`recordError`, `recordStreamMessages` — and after the barrier `runBenchmark` folds every state into
the first with `merge`.  The type and its methods live in `state.go`, which is not part of the
sources modelled, so they follow the spec's words (§3, §4.2): a total of completed requests, the
latency samples (a histogram in the code; here the multiset of samples, from which it is built),
the error categories with their counts, and the two stream counters.

What a worker does with one call's result — the straight-line tail of `runWorker`'s loop — is
`recordCall`.  The abstract reading of a state is `ofResults`: the state that recorded a list of
results, each exactly once.  Two facts connect the two:

* `recordCall_ofResults` — recording one more result *is* `ofResults` of the longer list;
* `merge_ofResults` — merging two such states is `ofResults` of the concatenation.
* `ofResults_perm` — and `ofResults` reads its results only up to order, so the merged state does
  not depend on how the calls were spread over the workers.
-/

namespace Yab

/-- A metrics sink, named by the prefixes it emits each metric under: the global client emits
under `""`; with per-peer stats a connection's sink also emits under `peer.<id>.`. -/
structure Statter where
  prefixes : List String
  deriving DecidableEq, Repr

/-- **What `b.Call(t)` returns**: a call report — its latency in nanoseconds and, when it is a
`benchmarkStreamCallReporter`, the stream messages sent and received — or an error. -/
inductive CallResult
  | report (latency : Nat) (stream : Option (Nat × Nat))
  | error (err : String)
  deriving DecidableEq, Repr

namespace CallResult

/-- The latency of a successful call. -/
def latency? : CallResult → Option Nat
  | report d _ => some d
  | error _ => none

/-- The error of a failed call. -/
def error? : CallResult → Option String
  | report _ _ => none
  | error e => some e

/-- The stream counts of a successful streaming call. -/
def stream? : CallResult → Option (Nat × Nat)
  | report _ s => s
  | error _ => none

end CallResult

/-- Modelled from the spec: `benchmarkState` (state.go) is not among the sources.  One worker's
samples (§3 WorkerState): the metrics sink it reports to, the requests completed, the latency
samples, the error categories, and the stream messages sent and received. -/
structure BenchmarkState where
  statter : Statter
  totalRequests : Nat
  latencies : Multiset Nat
  errors : Multiset String
  totalStreamMessagesSent : Nat
  totalStreamMessagesReceived : Nat
  deriving DecidableEq

namespace BenchmarkState

/-- Modelled from the spec: `newBenchmarkState(statter)`, a state with nothing recorded. -/
def new (statter : Statter) : BenchmarkState := ⟨statter, 0, 0, 0, 0, 0⟩

variable (s : BenchmarkState)

/-- Modelled from the spec: `recordLatency(d)` completes a request with latency `d`. -/
def recordLatency (d : Nat) : BenchmarkState :=
  { s with totalRequests := s.totalRequests + 1, latencies := d ::ₘ s.latencies }

/-- Modelled from the spec: `recordError(err)` completes a request under `err`'s category. -/
def recordError (err : String) : BenchmarkState :=
  { s with totalRequests := s.totalRequests + 1, errors := err ::ₘ s.errors }

/-- Modelled from the spec: `recordStreamMessages(sent, received)` adds to the stream counters. -/
def recordStreamMessages (sent received : Nat) : BenchmarkState :=
  { s with totalStreamMessagesSent := s.totalStreamMessagesSent + sent,
           totalStreamMessagesReceived := s.totalStreamMessagesReceived + received }

/-- Modelled from the spec: `s.merge(other)` — samples, categories, totals and stream counts
add up; `s` keeps its own sink. -/
def merge (other : BenchmarkState) : BenchmarkState where
  statter := s.statter
  totalRequests := s.totalRequests + other.totalRequests
  latencies := s.latencies + other.latencies
  errors := s.errors + other.errors
  totalStreamMessagesSent := s.totalStreamMessagesSent + other.totalStreamMessagesSent
  totalStreamMessagesReceived := s.totalStreamMessagesReceived + other.totalStreamMessagesReceived

/-- **The tail of `runWorker`'s loop**, once `b.Call(t)` has returned: an error is recorded by
`recordError`; a report by `recordLatency`, then, for a streaming report, by
`recordStreamMessages`. -/
def recordCall : CallResult → BenchmarkState
  | .error err => s.recordError err
  | .report d none => s.recordLatency d
  | .report d (some (sent, received)) => (s.recordLatency d).recordStreamMessages sent received

/-- **The state that recorded exactly `rs`**, each result once: a request per result, a latency
sample per report, a category per error, the stream counts of the streaming reports. -/
def ofResults (statter : Statter) (rs : List CallResult) : BenchmarkState where
  statter := statter
  totalRequests := rs.length
  latencies := rs.filterMap CallResult.latency?
  errors := rs.filterMap CallResult.error?
  totalStreamMessagesSent := ((rs.filterMap CallResult.stream?).map Prod.fst).sum
  totalStreamMessagesReceived := ((rs.filterMap CallResult.stream?).map Prod.snd).sum

@[simp] theorem ofResults_nil (statter : Statter) : ofResults statter [] = new statter := rfl

/-- One more result, recorded by the loop's tail, is one more result of `ofResults`. -/
theorem recordCall_ofResults (statter : Statter) (rs : List CallResult) (r : CallResult) :
    (ofResults statter rs).recordCall r = ofResults statter (rs ++ [r]) := by
  rcases r with ⟨d, _ | ⟨sent, received⟩⟩ | err <;>
    simp [recordCall, recordLatency, recordError, recordStreamMessages, ofResults,
      CallResult.latency?, CallResult.error?, CallResult.stream?, ← Multiset.singleton_add,
      ← Multiset.coe_add, List.sum_append, add_comm]

/-- **Merging is concatenating the results**: the receiver keeps its sink. -/
theorem merge_ofResults (statter statter' : Statter) (rs rs' : List CallResult) :
    (ofResults statter rs).merge (ofResults statter' rs') = ofResults statter (rs ++ rs') := by
  simp [merge, ofResults, List.filterMap_append, List.sum_append]

/-- **A state that recorded results depends on them only up to order.** -/
theorem ofResults_perm (statter : Statter) {rs rs' : List CallResult} (h : rs.Perm rs') :
    ofResults statter rs = ofResults statter rs' := by
  have hs := h.filterMap CallResult.stream?
  simp only [ofResults, h.length_eq, Multiset.coe_eq_coe.mpr (h.filterMap _),
    (hs.map Prod.fst).sum_eq, (hs.map Prod.snd).sum_eq]

end BenchmarkState

end Yab
