import Yab.Benchmark.Worker
import Yab.Benchmark.Limiter
import Yab.Benchmark.Options
import Yab.Benchmark.Matrix
import Mathlib.Algebra.Order.BigOperators.Group.Finset

/-!
# Benchmark/System — the workers and the limiter they share, under every interleaving

`runBenchmark` builds one `limiter.Run` from the capped options, starts the `L·C` worker
goroutines on it, and lets `stopOnInterrupt`'s goroutine call `Stop()` on it.  A `System` is the
pool of workers (Benchmark/Worker) with that limiter (Benchmark/Limiter); a run of it is any
interleaving of the workers' steps, the clock, and the interrupt: a list of `Label`s.  A worker's
`More()` is answered by the limiter in the step that changes the limiter, so the answer a worker
hears is the one the limiter gives.  The workers start on the states the fill allocates
(`allocStates_eq_init`): worker `k` on a fresh state on the sink of slot `k`'s connection.

The composition is one projection theorem, `run_project`: a system run *is* a pool run, on the
labels that carry the limiter's answers (`poolLabels`), together with a limiter run, on the events
the labels send it (`events`).  Each side's theorems then transfer:

* `system_run_granted` — every grant of the limiter is held by exactly one worker: recorded in
  its state, pending its record, or a call in flight (`Worker.granted`);
* `system_run_bounded` — with the capped budget set, those grants and the budget left add up to
  the budget;
* `runBenchmark_total_le` — once every worker has exited, the merged state's `totalRequests` is
  at most the budget, and `runBenchmark_total_eq` — exactly the budget when no interrupt came and
  every `More()` came before the deadline;
* `system_run_after_interrupt` — every grant held at the end was given before the interrupt,
  and `system_run_after_deadline` — before the `More()`s reached `MaxDuration`;
* `runBenchmark_report` — once every worker has exited, the merged state records exactly the
  results of the run's calls, up to order, however they were spread over the workers;
* `runBenchmark_terminates` — with the capped budget set, every run is at most three worker steps
  per request long, and no worker is ever stuck (`System.step_progress`), so the barrier is
  reached;
* `runBenchmark_stops` — after `Stop()` or past the deadline, with or without a budget, the
  workers take at most three more steps each (`system_run_drains`).
-/

namespace Yab

variable {n : Nat}

/-- What happens next in a run: worker `i`'s `More()` answers at time `now`, worker `i`'s call
returns `r`, worker `i` records it, or the interrupt handler calls `Stop()`. -/
inductive Label (n : Nat)
  | more (i : Fin n) (now : Nat)
  | call (i : Fin n) (r : CallResult)
  | record (i : Fin n)
  | interrupt
  deriving DecidableEq, Repr

/-- What the limiter hears of a label. -/
def Label.event? : Label n → Option Limiter.Event
  | .more _ now => some (.more now)
  | .interrupt => some .stop
  | _ => none

/-- What the limiter hears of a run. -/
def events (ls : List (Label n)) : List Limiter.Event := ls.filterMap Label.event?

@[simp] theorem events_nil : events ([] : List (Label n)) = [] := rfl

theorem events_cons (l : Label n) (ls : List (Label n)) :
    events (l :: ls) = l.event?.toList ++ events ls := by
  cases h : l.event? <;> simp [events, h]

theorem events_append (ls₁ ls₂ : List (Label n)) :
    events (ls₁ ++ ls₂) = events ls₁ ++ events ls₂ := List.filterMap_append _ _ _

theorem mem_events_more {now : Nat} {ls : List (Label n)}
    (h : Limiter.Event.more now ∈ events ls) : ∃ i, Label.more i now ∈ ls := by
  obtain ⟨l, hl, he⟩ := List.mem_filterMap.mp h
  cases l <;> simp only [Label.event?, Option.some.injEq, reduceCtorEq] at he
  cases he
  exact ⟨_, hl⟩

/-- Without an interrupt, the limiter hears only `More()`s. -/
theorem events_eq_map_more {ls : List (Label n)} (h : .interrupt ∉ ls) :
    ∃ times : List Nat, events ls = times.map .more := by
  induction ls with
  | nil => exact ⟨[], rfl⟩
  | cons l ls ih =>
    obtain ⟨times, ht⟩ := ih (fun hm => h (List.mem_cons_of_mem _ hm))
    rw [events_cons, ht]
    cases l with
    | more i now => exact ⟨now :: times, rfl⟩
    | call i r | record i => exact ⟨times, rfl⟩
    | interrupt => exact absurd (List.mem_cons_self _ _) h

/-- The result a label carries, when it is a call returning. -/
def Label.result? : Label n → Option CallResult
  | .call _ r => some r
  | _ => none

/-- The results of the calls that return in a run, in the order they return. -/
def callResults (ls : List (Label n)) : List CallResult := ls.filterMap Label.result?

/-- A benchmark run in progress: the worker goroutines and the limiter they share. -/
structure System (n : Nat) where
  pool : Pool n
  limiter : Limiter.Run

namespace System

/-- The system `runBenchmark` starts, after the cap: every worker at `More()` with a fresh state
on its sink, and `limiter.New(opts.MaxRequests, opts.RPS, opts.MaxDuration)`. -/
def init (statters : Fin n → Statter) (o : BenchmarkOptions) : System n :=
  ⟨Pool.init statters,
    .new o.capMaxRequests.maxRequests o.capMaxRequests.rps o.capMaxRequests.maxDuration⟩

/-- **One step of a run.**  A `More()` moves the limiter and its worker together; a call's
return and its record move only their worker; the interrupt only stops the limiter. -/
def step (s : System n) : Label n → Option (System n)
  | .more i now =>
    (s.pool.step (i, .more (s.limiter.more now).1)).map fun p => ⟨p, (s.limiter.more now).2⟩
  | .call i r => (s.pool.step (i, .call r)).map fun p => ⟨p, s.limiter⟩
  | .record i => (s.pool.step (i, .record)).map fun p => ⟨p, s.limiter⟩
  | .interrupt => some ⟨s.pool, s.limiter.stop⟩

/-- A run of the system: one interleaving of its steps. -/
def run (s : System n) : List (Label n) → Option (System n)
  | [] => some s
  | l :: ls => (s.step l).bind (·.run ls)

/-- A run split in two runs its second part from where the first leaves. -/
theorem run_append (s : System n) (ls₁ ls₂ : List (Label n)) :
    s.run (ls₁ ++ ls₂) = (s.run ls₁).bind (·.run ls₂) := by
  induction ls₁ generalizing s with
  | nil => rfl
  | cons l ls₁ ih => rw [List.cons_append, run, run, Option.bind_assoc]; simp only [ih]

end System

/-- **What the workers hear** of a run, from a limiter in state `lim`: each `More()` carries the
limiter's answer; the interrupt reaches the limiter alone. -/
def poolLabels (lim : Limiter.Run) : List (Label n) → List (Fin n × Action)
  | [] => []
  | .more i now :: ls => (i, .more (lim.more now).1) :: poolLabels (lim.more now).2 ls
  | .call i r :: ls => (i, .call r) :: poolLabels lim ls
  | .record i :: ls => (i, .record) :: poolLabels lim ls
  | .interrupt :: ls => poolLabels lim.stop ls

/-! ## The pool the fill starts -/

/-- The sinks of the matrix's workers, slot by slot: each slot's connection's sink. -/
def matrixStatters (conns : List Connection) (c : Nat) (global : Statter) (perPeerStats : Bool) :
    Fin (conns.length * c) → Statter :=
  fun k => connStatter global perPeerStats (slotConn conns c k)

/-- **The fill allocates the system's starting states**: when the slice fits `make`'s limit, slot
`k` of `states` holds the state worker `k` of `System.init` starts with, on its connection's
sink. -/
theorem allocStates_eq_init (conns : List Connection) (c : Nat)
    (hsize : conns.length * c * 8 ≤ 2 ^ 48) (global : Statter) (o : BenchmarkOptions) :
    allocStates conns c global o.perPeerStats = .ok (List.ofFn fun k =>
      some ((System.init (matrixStatters conns c global o.perPeerStats) o).pool k).state) := by
  rw [allocStates_ofNat hsize, filledStates_eq_ofFn]
  rfl

/-! ## The projection

One induction over the run: each system step is a pool step on the label the workers hear and a
limiter step on the event the limiter hears. -/

/-- **A system run is a pool run and a limiter run.** -/
theorem run_project {s s' : System n} {ls : List (Label n)} (h : s.run ls = some s') :
    s.pool.run (poolLabels s.limiter ls) = some s'.pool ∧
      s.limiter.final (events ls) = s'.limiter := by
  induction ls generalizing s with
  | nil => cases h; exact ⟨rfl, rfl⟩
  | cons l ls ih =>
    obtain ⟨s₁, h₁, h₂⟩ := Option.bind_eq_some.mp h
    obtain ⟨hp, hl⟩ := ih h₂
    cases l with
    | more i now | call i r | record i =>
      obtain ⟨p, hp₁, rfl⟩ := Option.map_eq_some'.mp h₁
      exact ⟨by rw [poolLabels, Pool.run, hp₁, Option.some_bind]; exact hp, hl⟩
    | interrupt =>
      cases h₁
      exact ⟨hp, hl⟩

/-- **The answers the workers hear are the answers the limiter gives.** -/
theorem countP_poolLabels (lim : Limiter.Run) (ls : List (Label n)) (b : Bool) :
    (poolLabels lim ls).countP (fun l => l.2 = .more b) = (lim.answers (events ls)).count b := by
  induction ls generalizing lim with
  | nil => rfl
  | cons l ls ih =>
    rw [events_cons]
    cases l with
    | more i now =>
      cases h : (lim.more now).1 <;> cases b <;>
        simp [poolLabels, Label.event?, Limiter.Run.answers, Limiter.Run.step, h, ih]
    | call i r | record i => simp [poolLabels, Label.event?, ih]
    | interrupt => simp [poolLabels, Label.event?, Limiter.Run.answers, Limiter.Run.step, ih]

/-- The workers hear every call's result. -/
theorem filterMap_result_poolLabels (lim : Limiter.Run) (ls : List (Label n)) :
    (poolLabels lim ls).filterMap (fun l => l.2.result?) = callResults ls := by
  induction ls generalizing lim with
  | nil => rfl
  | cons l ls ih =>
    cases l <;> simp only [poolLabels, List.filterMap_cons, ih] <;> rfl

/-- The workers hear every label but the interrupts. -/
theorem length_poolLabels (lim : Limiter.Run) (ls : List (Label n)) :
    (poolLabels lim ls).length = ls.countP (· ≠ .interrupt) := by
  induction ls generalizing lim with
  | nil => rfl
  | cons l ls ih => cases l <;> simp [poolLabels, ih]

/-- **No worker is ever stuck**: one that has not exited can take a step, whatever the limiter
says. -/
theorem System.step_progress (s : System n) {i : Fin n} (h : (s.pool i).phase ≠ .exited) :
    ∃ l, l ≠ .interrupt ∧ s.step l ≠ none := by
  rcases hp : (s.pool i).phase with _ | _ | r | _
  · exact ⟨.more i 0, nofun, by simp [System.step, Pool.step, Worker.step, hp]⟩
  · exact ⟨.call i (.error ""), nofun, by simp [System.step, Pool.step, Worker.step, hp]⟩
  · exact ⟨.record i, nofun, by simp [System.step, Pool.step, Worker.step, hp]⟩
  · exact absurd hp h

/-! ## Every grant is held once -/

/-- **The grants a worker holds**: the requests its state recorded, the result pending its
record, and the call in flight. -/
def Worker.granted (w : Worker) : Nat :=
  w.state.totalRequests + (Worker.pending w.phase).length + Worker.inFlight w.phase

/-- A worker's accounts say its grants are the `true` answers it heard. -/
theorem Worker.granted_of_accounts {statter : Statter} {as : List Action} {w : Worker}
    (h : Worker.Accounts statter as w) : w.granted = as.count (.more true) := by
  obtain ⟨hcount, done, hres, hstate⟩ := h
  rw [hcount, hres, Worker.granted, hstate, List.length_append]
  rfl

/-- Over a pool run, the grants held add up to the `true` answers heard. -/
theorem pool_run_granted {statters : Fin n → Statter} {ls : List (Fin n × Action)} {q : Pool n}
    (hrun : (Pool.init statters).run ls = some q) :
    ∑ i, (q i).granted = ls.countP (fun l => l.2 = .more true) := by
  rw [← sum_count_actionsOf]
  exact Finset.sum_congr rfl fun i _ => Worker.granted_of_accounts (pool_run_accounts hrun i)

section Run

variable {statters : Fin n → Statter} {o : BenchmarkOptions} {ls : List (Label n)} {s' : System n}

/-- **Every grant is held by exactly one worker**: after any run from the start, the grants the
workers hold add up to the `true` answers the limiter gave. -/
theorem system_run_granted (hrun : (System.init statters o).run ls = some s') :
    ∑ i, (s'.pool i).granted =
      ((System.init statters o).limiter.answers (events ls)).count true := by
  rw [pool_run_granted (run_project hrun).1, countP_poolLabels]

/-- **The budget is conserved**: with the capped budget set, the grants the workers hold and the
budget the limiter has left add up to the budget, after any run. -/
theorem system_run_bounded (hm : 0 < o.capMaxRequests.maxRequests)
    (hrun : (System.init statters o).run ls = some s') :
    ∃ k, s'.limiter.remaining = some k ∧
      ∑ i, (s'.pool i).granted + k = o.capMaxRequests.maxRequests.toNat := by
  obtain ⟨k, hk, hc⟩ := Limiter.Run.answers_remaining (r := (System.init statters o).limiter)
    (k := o.capMaxRequests.maxRequests.toNat) (by simp [System.init, Limiter.Run.new, hm])
    (events ls)
  refine ⟨k, (run_project hrun).2 ▸ hk, ?_⟩
  rw [system_run_granted hrun, hc]

/-- Once every worker has exited, the merge loop's state holds every grant, as recorded
requests. -/
theorem system_run_merged (hn : 0 < n) (hrun : (System.init statters o).run ls = some s')
    (hex : ∀ i, (s'.pool i).phase = .exited) :
    ∃ overall, mergeStates (List.ofFn fun i => (s'.pool i).state) = .ok overall ∧
      overall.totalRequests = ∑ i, (s'.pool i).granted := by
  have hpool := (run_project hrun).1
  have hstate : ∀ i, (s'.pool i).state =
      BenchmarkState.ofResults (statters i) (callsOf i (poolLabels _ ls)) :=
    fun i => (pool_run_exited hpool (hex i)).1
  refine ⟨_, by rw [funext hstate, mergeStates_ofFn hn], ?_⟩
  simp [Worker.granted, hex, Worker.pending, Worker.inFlight, hstate, BenchmarkState.ofResults,
    List.length_flatten, List.sum_ofFn]

/-- **The report never exceeds the budget.**  From the system `runBenchmark` starts, with the
capped budget set, under any interleaving of the workers, any clock, any results of the calls
and any interrupt: once every worker has exited, the merge loop yields a state whose
`totalRequests` is at most the capped `MaxRequests`, and so at most the `MaxRequests` asked for. -/
theorem runBenchmark_total_le (hm : 0 < o.capMaxRequests.maxRequests) (hn : 0 < n)
    (hrun : (System.init statters o).run ls = some s') (hex : ∀ i, (s'.pool i).phase = .exited) :
    ∃ overall, mergeStates (List.ofFn fun i => (s'.pool i).state) = .ok overall ∧
      overall.totalRequests ≤ o.capMaxRequests.maxRequests ∧
      (0 < o.maxRequests → overall.totalRequests ≤ o.maxRequests) := by
  obtain ⟨overall, hmerge, htotal⟩ := system_run_merged hn hrun hex
  obtain ⟨k, -, hk⟩ := system_run_bounded hm hrun
  have hle : (overall.totalRequests : Int) ≤ o.capMaxRequests.maxRequests := by omega
  exact ⟨overall, hmerge, hle, fun h => hle.trans (o.capMaxRequests_maxRequests_le h)⟩

/-- A run asked for one request, with no duration and no rate. -/
def oneRequest : BenchmarkOptions where
  maxRequests := 1
  maxDuration := 0
  rps := 0
  connections := 1
  concurrency := 1
  numCPUs := 0
  perPeerStats := false
  format := ""

theorem new_oneRequest :
    Limiter.Run.new oneRequest.capMaxRequests.maxRequests oneRequest.capMaxRequests.rps
      oneRequest.capMaxRequests.maxDuration = ⟨some 1, none, false⟩ := by decide

/-- One worker: a `true`, a call returning a 5 ns report, its record, a `false`. -/
def oneRequestRun : List (Label 1) := [.more 0 0, .call 0 (.report 5 none), .record 0, .more 0 1]

/-- …and the system it leaves: the worker exited with the one call, the budget spent. -/
def oneRequestSystem : System 1 :=
  ⟨fun _ => ⟨.exited, BenchmarkState.ofResults ⟨[""]⟩ [.report 5 none]⟩, ⟨some 0, none, false⟩⟩

theorem run_oneRequestRun :
    (System.init (fun _ => ⟨[""]⟩) oneRequest).run oneRequestRun = some oneRequestSystem := by
  have h₀ : (⟨some 1, none, false⟩ : Limiter.Run).more 0 = (true, ⟨some 0, none, false⟩) := rfl
  have h₁ : (⟨some 0, none, false⟩ : Limiter.Run).more 1 = (false, ⟨some 0, none, false⟩) := rfl
  simp only [oneRequestRun, System.run, System.step, System.init, Pool.step, Pool.init, Worker.step,
    new_oneRequest, Function.update_eq_const_of_subsingleton, h₀, h₁, Option.map_some',
    Option.some_bind, if_true, if_false, Function.const_apply, Bool.false_eq_true]
  rfl

theorem runBenchmark_total_le_oneRequest :
    0 < oneRequest.capMaxRequests.maxRequests ∧ 0 < 1 ∧
      (System.init (fun _ => ⟨[""]⟩) oneRequest).run oneRequestRun = some oneRequestSystem ∧
      (∀ i, (oneRequestSystem.pool i).phase = .exited) ∧
      ∃ overall, mergeStates (List.ofFn fun i => (oneRequestSystem.pool i).state) = .ok overall ∧
        overall.totalRequests ≤ oneRequest.capMaxRequests.maxRequests ∧
        (0 < oneRequest.maxRequests → overall.totalRequests ≤ oneRequest.maxRequests) :=
  have hm : 0 < oneRequest.capMaxRequests.maxRequests := by decide
  ⟨hm, Nat.one_pos, run_oneRequestRun, fun _ => rfl,
    runBenchmark_total_le hm Nat.one_pos run_oneRequestRun fun _ => rfl⟩

/-- Before the capped `MaxDuration`, the limiter of the system `runBenchmark` starts has not
expired. -/
theorem expired_init_of_lt {now : Nat}
    (h : 0 < o.capMaxRequests.maxDuration → now < o.capMaxRequests.maxDuration.toNat) :
    (System.init statters o).limiter.expired now = false := by
  by_cases hd : 0 < o.capMaxRequests.maxDuration
  · simpa [Limiter.Run.expired, System.init, Limiter.Run.new, (by simpa using hd : 0 < o.maxDuration)]
      using h hd
  · simp only [Limiter.Run.expired, System.init, Limiter.Run.new, hd, if_false]
    rfl

/-- Without an interrupt and with every `More()` before the capped `MaxDuration`, the limiter
hears only `More()`s, none of them past its deadline. -/
theorem events_early (hint : .interrupt ∉ ls)
    (hearly : ∀ i now, Label.more i now ∈ ls → 0 < o.capMaxRequests.maxDuration →
      now < o.capMaxRequests.maxDuration.toNat) :
    ∃ times : List Nat, events ls = times.map .more ∧
      ∀ now ∈ times, (System.init statters o).limiter.expired now = false := by
  obtain ⟨times, htimes⟩ := events_eq_map_more hint
  exact ⟨times, htimes, fun now hnow =>
    have ⟨i, hi⟩ := mem_events_more (htimes ▸ List.mem_map_of_mem _ hnow)
    expired_init_of_lt (hearly i now hi)⟩

/-- A worker that has exited heard a `false` from the limiter. -/
theorem false_mem_answers_of_exited (hrun : (System.init statters o).run ls = some s') {i : Fin n}
    (hex : (s'.pool i).phase = .exited) :
    false ∈ (System.init statters o).limiter.answers (events ls) := by
  rw [← List.count_pos_iff, ← countP_poolLabels, List.countP_pos_iff]
  exact ⟨_, pool_run_heard_false (run_project hrun).1 hex, by simp⟩

/-- **Without an interrupt and before the deadline, the budget is spent in full.**  From the
system `runBenchmark` starts, with the capped budget set, under any interleaving, any clock and
any results of the calls: when no `Stop()` came and every `More()` came before the capped
`MaxDuration` (if one is set), once every worker has exited the merged state's `totalRequests`
is exactly the capped `MaxRequests` — a worker exits only on a `false`, and before the deadline
the limiter says `false` only once the budget is gone. -/
theorem runBenchmark_total_eq (hm : 0 < o.capMaxRequests.maxRequests) (hn : 0 < n)
    (hrun : (System.init statters o).run ls = some s') (hex : ∀ i, (s'.pool i).phase = .exited)
    (hint : .interrupt ∉ ls)
    (hearly : ∀ i now, Label.more i now ∈ ls → 0 < o.capMaxRequests.maxDuration →
      now < o.capMaxRequests.maxDuration.toNat) :
    ∃ overall, mergeStates (List.ofFn fun i => (s'.pool i).state) = .ok overall ∧
      overall.totalRequests = o.capMaxRequests.maxRequests := by
  obtain ⟨overall, hmerge, htotal⟩ := system_run_merged hn hrun hex
  obtain ⟨times, htimes, hexp⟩ := events_early hint hearly
  have hfalse := false_mem_answers_of_exited hrun (hex ⟨0, hn⟩)
  rw [htimes] at hfalse
  have hcount := Limiter.Run.answers_count_true_of_false rfl times hexp
    (k := o.capMaxRequests.maxRequests.toNat) (by simp [System.init, Limiter.Run.new, hm]) hfalse
  refine ⟨overall, hmerge, ?_⟩
  rw [htotal, system_run_granted hrun, htimes, hcount]
  omega

theorem runBenchmark_total_eq_oneRequest :
    0 < oneRequest.capMaxRequests.maxRequests ∧ 0 < 1 ∧
      (System.init (fun _ => ⟨[""]⟩) oneRequest).run oneRequestRun = some oneRequestSystem ∧
      (∀ i, (oneRequestSystem.pool i).phase = .exited) ∧ .interrupt ∉ oneRequestRun ∧
      (∀ i now, Label.more i now ∈ oneRequestRun → 0 < oneRequest.capMaxRequests.maxDuration →
        now < oneRequest.capMaxRequests.maxDuration.toNat) ∧
      ∃ overall, mergeStates (List.ofFn fun i => (oneRequestSystem.pool i).state) = .ok overall ∧
        overall.totalRequests = oneRequest.capMaxRequests.maxRequests :=
  have hm : 0 < oneRequest.capMaxRequests.maxRequests := by decide
  have hint : .interrupt ∉ oneRequestRun := by decide
  have hearly : ∀ i now, Label.more i now ∈ oneRequestRun →
      0 < oneRequest.capMaxRequests.maxDuration → now < oneRequest.capMaxRequests.maxDuration.toNat :=
    fun _ _ _ hd => absurd hd (by decide)
  ⟨hm, Nat.one_pos, run_oneRequestRun, fun _ => rfl, hint, hearly,
    runBenchmark_total_eq hm Nat.one_pos run_oneRequestRun (fun _ => rfl) hint hearly⟩

/-- **Without a budget, only the interrupt or the deadline ends the benchmark.**  From the
system `runBenchmark` starts with the capped `MaxRequests` at `0` or below — no bound, which is
also what the cap makes of a positive budget whose `rpsMax` is `0` or below
(`capMaxRequests_unbounded_iff`) — under any interleaving, any clock and any results of the calls:
while no `Stop()` came and every `More()` came before the capped `MaxDuration` (if one is set),
every `More()` is granted, so the workers hold one grant per `More()` and none has exited. -/
theorem runBenchmark_unbounded (hm : o.capMaxRequests.maxRequests ≤ 0)
    (hrun : (System.init statters o).run ls = some s') (hint : .interrupt ∉ ls)
    (hearly : ∀ i now, Label.more i now ∈ ls → 0 < o.capMaxRequests.maxDuration →
      now < o.capMaxRequests.maxDuration.toNat) :
    ∑ i, (s'.pool i).granted = (events ls).length ∧ ∀ i, (s'.pool i).phase ≠ .exited := by
  obtain ⟨times, htimes, hexp⟩ := events_early hint hearly
  have hall := Limiter.Run.answers_unbounded
    (rfl : (System.init statters o).limiter.stopped = false) times hexp
    (by simp [System.init, Limiter.Run.new, Int.not_lt.mpr hm])
  refine ⟨?_, fun i hex => ?_⟩
  · rw [system_run_granted hrun, htimes, hall, List.count_replicate_self, List.length_map]
  · have hfalse := false_mem_answers_of_exited hrun hex
    rw [htimes, hall] at hfalse
    exact Bool.false_ne_true (List.eq_of_mem_replicate hfalse)

set_option exponentiation.threshold 10000 in
theorem new_halfSecondOneRPS :
    Limiter.Run.new halfSecondOneRPS.capMaxRequests.maxRequests halfSecondOneRPS.capMaxRequests.rps
      halfSecondOneRPS.capMaxRequests.maxDuration = ⟨none, some 500000000, false⟩ := by decide

/-- The one worker of `oneRequestRun` under the budget `halfSecondOneRPS` is capped to: both
`More()`s are granted, and the second call is in flight. -/
def unboundedSystem : System 1 :=
  ⟨fun _ => ⟨.calling, BenchmarkState.ofResults ⟨[""]⟩ [.report 5 none]⟩,
    ⟨none, some 500000000, false⟩⟩

theorem run_unboundedSystem :
    (System.init (fun _ => ⟨[""]⟩) halfSecondOneRPS).run oneRequestRun = some unboundedSystem := by
  have h : ∀ now, now < 500000000 →
      (⟨none, some 500000000, false⟩ : Limiter.Run).more now = (true, ⟨none, some 500000000, false⟩) :=
    fun now hnow => by simp [Limiter.Run.more, Limiter.Run.expired, Nat.not_le.mpr hnow]
  simp only [oneRequestRun, System.run, System.step, System.init, Pool.step, Pool.init, Worker.step,
    new_halfSecondOneRPS, Function.update_eq_const_of_subsingleton, h 0 (by decide),
    h 1 (by decide), Option.map_some', Option.some_bind, if_true, Function.const_apply]
  rfl

set_option exponentiation.threshold 10000 in
theorem runBenchmark_unbounded_halfSecondOneRPS :
    halfSecondOneRPS.capMaxRequests.maxRequests ≤ 0 ∧
      (System.init (fun _ => ⟨[""]⟩) halfSecondOneRPS).run oneRequestRun = some unboundedSystem ∧
      .interrupt ∉ oneRequestRun ∧
      (∀ i now, Label.more i now ∈ oneRequestRun → 0 < halfSecondOneRPS.capMaxRequests.maxDuration →
        now < halfSecondOneRPS.capMaxRequests.maxDuration.toNat) ∧
      ∑ i, (unboundedSystem.pool i).granted = (events oneRequestRun).length ∧
      ∀ i, (unboundedSystem.pool i).phase ≠ .exited :=
  have hm : halfSecondOneRPS.capMaxRequests.maxRequests ≤ 0 := by decide
  have hint : .interrupt ∉ oneRequestRun := by decide
  have hearly : ∀ i now, Label.more i now ∈ oneRequestRun →
      0 < halfSecondOneRPS.capMaxRequests.maxDuration →
        now < halfSecondOneRPS.capMaxRequests.maxDuration.toNat := fun i now h _ => by
    simp only [oneRequestRun, List.mem_cons, reduceCtorEq, Label.more.injEq, false_or,
      List.not_mem_nil, or_false] at h
    rcases h with ⟨-, rfl⟩ | ⟨-, rfl⟩ <;> decide
  ⟨hm, run_unboundedSystem, hint, hearly,
    runBenchmark_unbounded hm run_unboundedSystem hint hearly⟩

/-- **Every grant held at the end was given before the interrupt**: after `Stop()`, the limiter
grants nothing more, whatever the workers and the clock do. -/
theorem system_run_after_interrupt {ls₁ ls₂ : List (Label n)}
    (hrun : (System.init statters o).run (ls₁ ++ .interrupt :: ls₂) = some s') :
    ∑ i, (s'.pool i).granted =
      ((System.init statters o).limiter.answers (events ls₁)).count true := by
  have hevents : events (ls₁ ++ .interrupt :: ls₂) = events ls₁ ++ .stop :: events ls₂ := by
    rw [events_append, events_cons]; rfl
  obtain ⟨hsplit, hnone⟩ := Limiter.Run.answers_after_stop _ (events ls₁) (events ls₂)
  rw [system_run_granted hrun, hevents, hsplit, List.count_append,
    List.count_eq_zero_of_not_mem hnone, add_zero]

/-- The same worker, interrupted while its call is in flight: the call completes and is
recorded, and the next `More()` hears `false`. -/
def interruptedSystem : System 1 :=
  ⟨fun _ => ⟨.exited, BenchmarkState.ofResults ⟨[""]⟩ [.report 5 none]⟩, ⟨some 0, none, true⟩⟩

/-- One worker's run with the interrupt while its call is in flight. -/
def interruptedRun : List (Label 1) :=
  [.more 0 0, .interrupt, .call 0 (.report 5 none), .record 0, .more 0 1]

theorem run_interruptedRun :
    (System.init (fun _ => ⟨[""]⟩) oneRequest).run interruptedRun = some interruptedSystem := by
  have h₀ : (⟨some 1, none, false⟩ : Limiter.Run).more 0 = (true, ⟨some 0, none, false⟩) := rfl
  have h₁ : (⟨some 0, none, true⟩ : Limiter.Run).more 1 = (false, ⟨some 0, none, true⟩) := rfl
  simp only [interruptedRun, System.run, System.step, System.init, Pool.step, Pool.init,
    Worker.step, new_oneRequest, Function.update_eq_const_of_subsingleton, h₀, h₁,
    Option.map_some', Option.some_bind, if_true, if_false, Function.const_apply,
    Bool.false_eq_true, Limiter.Run.stop]
  rfl

theorem system_run_after_interrupt_oneRequest :
    (System.init (fun _ => ⟨[""]⟩) oneRequest).run
        ([.more 0 0] ++ .interrupt :: [.call 0 (.report 5 none), .record 0, .more 0 1]) =
      some interruptedSystem ∧
    ∑ i, (interruptedSystem.pool i).granted =
      ((System.init (n := 1) (fun _ => ⟨[""]⟩) oneRequest).limiter.answers
        (events (n := 1) [.more 0 0])).count true :=
  ⟨run_interruptedRun, system_run_after_interrupt run_interruptedRun⟩

/-- The limiter keeps the deadline it was built with. -/
theorem final_deadline_init (statters : Fin n → Statter) (hd : 0 < o.capMaxRequests.maxDuration)
    (es : List Limiter.Event) :
    ((System.init statters o).limiter.final es).deadline =
      some o.capMaxRequests.maxDuration.toNat := by
  rw [Limiter.Run.final_deadline]
  simp [System.init, Limiter.Run.new, (by simpa using hd : 0 < o.maxDuration)]

/-- **No grant at or after the deadline**: every grant held at the end of a run was given before
its `More()`s reached `MaxDuration`. -/
theorem system_run_after_deadline {ls₁ ls₂ : List (Label n)}
    (hd : 0 < o.capMaxRequests.maxDuration)
    (hrun : (System.init statters o).run (ls₁ ++ ls₂) = some s')
    (hlate : ∀ i now, Label.more i now ∈ ls₂ → o.capMaxRequests.maxDuration.toNat ≤ now) :
    ∑ i, (s'.pool i).granted =
      ((System.init statters o).limiter.answers (events ls₁)).count true := by
  have hnone := Limiter.Run.answers_of_expired (final_deadline_init statters hd
    (events ls₁)) (events ls₂) fun now hmem => have ⟨i, hi⟩ := mem_events_more hmem; hlate i now hi
  rw [system_run_granted hrun, events_append, Limiter.Run.answers_append, List.count_append,
    List.count_eq_zero_of_not_mem hnone, add_zero]

/-- A run bounded at one second only. -/
def oneSecond : BenchmarkOptions :=
  { oneRequest with maxRequests := 0, maxDuration := 1000000000 }

theorem new_oneSecond :
    Limiter.Run.new oneSecond.capMaxRequests.maxRequests oneSecond.capMaxRequests.rps
      oneSecond.capMaxRequests.maxDuration = ⟨none, some 1000000000, false⟩ := by decide

/-- One worker, one call granted at the start, and a `More()` at the one-second deadline. -/
def lateRun : List (Label 1) :=
  [.more 0 0, .call 0 (.report 5 none), .record 0, .more 0 1000000000]

/-- …and the system it leaves: the worker exited with the one call. -/
def lateSystem : System 1 :=
  ⟨fun _ => ⟨.exited, BenchmarkState.ofResults ⟨[""]⟩ [.report 5 none]⟩,
    ⟨none, some 1000000000, false⟩⟩

theorem run_lateRun :
    (System.init (fun _ => ⟨[""]⟩) oneSecond).run lateRun = some lateSystem := by
  have h₀ : (⟨none, some 1000000000, false⟩ : Limiter.Run).more 0 =
      (true, ⟨none, some 1000000000, false⟩) := rfl
  have h₁ : (⟨none, some 1000000000, false⟩ : Limiter.Run).more 1000000000 =
      (false, ⟨none, some 1000000000, false⟩) := rfl
  simp only [lateRun, System.run, System.step, System.init, Pool.step, Pool.init, Worker.step,
    new_oneSecond, Function.update_eq_const_of_subsingleton, h₀, h₁, Option.map_some',
    Option.some_bind, if_true, if_false, Function.const_apply, Bool.false_eq_true]
  rfl

/-- The last `More()` of `lateRun` comes at the deadline of `oneSecond`. -/
theorem late_oneSecond :
    0 < oneSecond.capMaxRequests.maxDuration ∧ ∀ i now, Label.more i now ∈
      [Label.more (n := 1) 0 1000000000] → oneSecond.capMaxRequests.maxDuration.toNat ≤ now := by
  refine ⟨by decide, fun i now h => ?_⟩
  simp only [List.mem_singleton, Label.more.injEq] at h
  rw [h.2]
  decide

theorem system_run_after_deadline_lateRun :
    0 < oneSecond.capMaxRequests.maxDuration ∧
      (System.init (fun _ => ⟨[""]⟩) oneSecond).run
          ([.more 0 0, .call 0 (.report 5 none), .record 0] ++ [.more 0 1000000000]) =
        some lateSystem ∧
      (∀ i now, Label.more i now ∈ [Label.more (n := 1) 0 1000000000] →
        oneSecond.capMaxRequests.maxDuration.toNat ≤ now) ∧
      ∑ i, (lateSystem.pool i).granted =
        ((System.init (n := 1) (fun _ => ⟨[""]⟩) oneSecond).limiter.answers
          (events (n := 1) [.more 0 0, .call 0 (.report 5 none), .record 0])).count true :=
  ⟨late_oneSecond.1, run_lateRun, late_oneSecond.2,
    system_run_after_deadline late_oneSecond.1 run_lateRun late_oneSecond.2⟩

/-- **The report is the run's calls, whoever made them.**  From the system `runBenchmark`
starts, under any interleaving, any clock, any results and any interrupt: once every worker has
exited, the merge loop yields the state that records exactly the results of the calls that
returned in the run, each once, under the first worker's sink; it depends on them only up to
order, so two runs whose calls return the same results give the same report, however the calls
were spread over the workers and interleaved. -/
theorem runBenchmark_report (hn : 0 < n) (hrun : (System.init statters o).run ls = some s')
    (hex : ∀ i, (s'.pool i).phase = .exited) {rs : List CallResult}
    (hrs : rs.Perm (callResults ls)) :
    mergeStates (List.ofFn fun i => (s'.pool i).state) =
      .ok (BenchmarkState.ofResults (statters ⟨0, hn⟩) rs) := by
  rw [pool_run_report hn (run_project hrun).1 hex, filterMap_result_poolLabels,
    BenchmarkState.ofResults_perm _ hrs]

theorem runBenchmark_report_oneRequest :
    (0 : Nat) < 1 ∧
      (System.init (fun _ => ⟨[""]⟩) oneRequest).run oneRequestRun = some oneRequestSystem ∧
      (∀ i, (oneRequestSystem.pool i).phase = .exited) ∧
      [CallResult.report 5 none].Perm (callResults oneRequestRun) ∧
      mergeStates (List.ofFn fun i => (oneRequestSystem.pool i).state) =
        .ok (BenchmarkState.ofResults ⟨[""]⟩ [.report 5 none]) :=
  ⟨Nat.one_pos, run_oneRequestRun, fun _ => rfl, List.Perm.refl _,
    runBenchmark_report Nat.one_pos run_oneRequestRun (fun _ => rfl) (List.Perm.refl _)⟩

/-- **The workers' steps are bounded by the grants**: after any run from the start, the
worker labels of the run and the steps the workers still need to exit add up to three per `true`
answer of the limiter, and one per worker. -/
theorem system_run_steps (hrun : (System.init statters o).run ls = some s') :
    ls.countP (· ≠ .interrupt) + ∑ i, Worker.stepsLeft (s'.pool i).phase =
      3 * ((System.init statters o).limiter.answers (events ls)).count true + n := by
  rw [← length_poolLabels, ← countP_poolLabels]
  exact pool_run_steps (run_project hrun).1

/-- **Every run of a bounded benchmark ends.**  From the system `runBenchmark` starts, with the
capped budget set, under any interleaving, any clock, any results of the calls and any
interrupt: the workers take at most three steps per request of the budget and one each, and a
run no worker can extend has every worker exited, so `wg.Wait()` returns. -/
theorem runBenchmark_terminates (hm : 0 < o.capMaxRequests.maxRequests)
    (hrun : (System.init statters o).run ls = some s') :
    ls.countP (· ≠ .interrupt) ≤ 3 * o.capMaxRequests.maxRequests.toNat + n ∧
      ((∀ l, l ≠ .interrupt → s'.step l = none) → ∀ i, (s'.pool i).phase = .exited) := by
  refine ⟨?_, fun hstuck i => ?_⟩
  · obtain ⟨k, -, hk⟩ := system_run_bounded hm hrun
    have hsteps := system_run_steps hrun
    rw [system_run_granted hrun] at hk
    omega
  · by_contra hi
    obtain ⟨l, hl, hs⟩ := System.step_progress s' hi
    exact hs (hstuck l hl)

theorem runBenchmark_terminates_oneRequest :
    0 < oneRequest.capMaxRequests.maxRequests ∧
      (System.init (fun _ => ⟨[""]⟩) oneRequest).run oneRequestRun = some oneRequestSystem ∧
      oneRequestRun.countP (· ≠ .interrupt) ≤ 3 * oneRequest.capMaxRequests.maxRequests.toNat + 1 ∧
      ((∀ l, l ≠ .interrupt → oneRequestSystem.step l = none) →
        ∀ i, (oneRequestSystem.pool i).phase = .exited) :=
  have hm : 0 < oneRequest.capMaxRequests.maxRequests := by decide
  ⟨hm, run_oneRequestRun, runBenchmark_terminates hm run_oneRequestRun⟩

/-! ## Stopping -/

/-- **Once the limiter grants nothing more, the workers drain**: from any point of a run after
which every `More()` hears `false`, the workers take at most three steps each. -/
theorem system_run_drains {ls₁ ls₂ : List (Label n)}
    (hrun : (System.init statters o).run (ls₁ ++ ls₂) = some s')
    (hnone : true ∉ ((System.init statters o).limiter.final (events ls₁)).answers (events ls₂)) :
    ls₂.countP (· ≠ .interrupt) ≤ 3 * n := by
  have h₁₂ := system_run_steps hrun
  rw [System.run_append] at hrun
  obtain ⟨s₁, hrun₁, -⟩ := Option.bind_eq_some.mp hrun
  have h₁ := system_run_steps hrun₁
  have hleft : ∑ i, Worker.stepsLeft (s₁.pool i).phase ≤ 3 * n :=
    calc ∑ i, Worker.stepsLeft (s₁.pool i).phase
        _ ≤ ∑ _i : Fin n, 3 := Finset.sum_le_sum fun i _ => Worker.stepsLeft_le _
        _ = 3 * n := by simp [mul_comm]
  rw [events_append, Limiter.Run.answers_append, List.count_append,
    List.count_eq_zero_of_not_mem hnone, List.countP_append] at h₁₂
  omega

/-- **Ctrl-C and the deadline stop the benchmark promptly.**  In any run from the system
`runBenchmark` starts, whatever the budget (none included), the interleaving, the clock and the
results: once `stopOnInterrupt` has called `Stop()`, or from any point on where every `More()`
comes at or after `MaxDuration`, the workers take at most three more steps each — the return of
the call in flight, its record, and the `More()` that hears `false` — so no new call starts
and `wg.Wait()` is reached within `3·L·C` worker steps. -/
theorem runBenchmark_stops {ls₁ ls₂ : List (Label n)}
    (hrun : (System.init statters o).run (ls₁ ++ ls₂) = some s')
    (hstop : .interrupt ∈ ls₁ ∨ (0 < o.capMaxRequests.maxDuration ∧
      ∀ i now, Label.more i now ∈ ls₂ → o.capMaxRequests.maxDuration.toNat ≤ now)) :
    ls₂.countP (· ≠ .interrupt) ≤ 3 * n := by
  rcases hstop with hint | ⟨hd, hlate⟩
  · obtain ⟨a, b, rfl⟩ := List.append_of_mem hint
    have hrun' : (System.init statters o).run (a ++ .interrupt :: (b ++ ls₂)) = some s' := by
      simpa using hrun
    have hafter := system_run_drains hrun' (by
      show true ∉ ((System.init statters o).limiter.final (events a)).stop.answers (events (b ++ ls₂))
      exact Limiter.Run.answers_of_stopped rfl _)
    rw [List.countP_cons, List.countP_append] at hafter
    omega
  · exact system_run_drains hrun (Limiter.Run.answers_of_expired (final_deadline_init statters hd _) _
      fun now hmem => have ⟨i, hi⟩ := mem_events_more hmem; hlate i now hi)

theorem runBenchmark_stops_interruptedRun :
    ((System.init (fun _ => ⟨[""]⟩) oneRequest).run
        ([.more 0 0, .interrupt] ++ [.call 0 (.report 5 none), .record 0, .more 0 1]) =
      some interruptedSystem ∧
    Label.interrupt ∈ [Label.more (n := 1) 0 0, .interrupt] ∧
    [Label.call (n := 1) 0 (.report 5 none), .record 0, .more 0 1].countP (· ≠ .interrupt) ≤ 3 * 1) ∧
    ((System.init (fun _ => ⟨[""]⟩) oneSecond).run
        ([.more 0 0, .call 0 (.report 5 none), .record 0] ++ [.more 0 1000000000]) =
      some lateSystem ∧
    (0 < oneSecond.capMaxRequests.maxDuration ∧ ∀ i now, Label.more i now ∈
      [Label.more (n := 1) 0 1000000000] → oneSecond.capMaxRequests.maxDuration.toNat ≤ now) ∧
    [Label.more (n := 1) 0 1000000000].countP (· ≠ .interrupt) ≤ 3 * 1) :=
  have hint : Label.interrupt ∈ [Label.more (n := 1) 0 0, .interrupt] := by simp
  have hrun : (System.init (fun _ => ⟨[""]⟩) oneSecond).run
      ([.more 0 0, .call 0 (.report 5 none), .record 0] ++ [.more 0 1000000000]) = some lateSystem :=
    run_lateRun
  ⟨⟨run_interruptedRun, hint, runBenchmark_stops run_interruptedRun (.inl hint)⟩,
    ⟨hrun, late_oneSecond, runBenchmark_stops hrun (.inr late_oneSecond)⟩⟩

end Run

end Yab
