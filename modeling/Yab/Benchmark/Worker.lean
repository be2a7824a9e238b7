import Yab.Benchmark.State
import Yab.Go.Builtin
import Mathlib.Algebra.BigOperators.Fin

/-!
# Benchmark/Worker — the worker goroutines of a run, under every interleaving

`runWorker` loops on `cur.More()`: each `true` is followed by one `b.Call(t)`, whose result the
tail of the loop records (`BenchmarkState.recordCall`); the first `false` ends the goroutine.
A worker is a small state machine (`Worker.step`) whose inputs from outside are `More()`'s
answer and the call's result — both arbitrary here.  The `n` goroutines of a run form a `Pool`;
a run of the pool is any interleaving of the workers' steps, a list of `(worker, action)` labels.

The whole development rests on one reduction, `run_actionsOf`: a pool run, seen from one worker,
*is* that worker's own sequential run on its own actions (`actionsOf`) — workers share nothing
but the limiter, whose answers are the labels.  Everything else is about one worker, each
invariant proved for one step and lifted to every run by `run_induction`:

* `run_accounts` — after any run, the `true` answers a worker received are its completed calls
  plus the one in flight, and its state records exactly its completed calls (`ofResults`);
* `run_stepsLeft` — the steps a worker has taken and the steps it still needs to exit add up to
  three per `true` answer and one more, so its steps are bounded by its grants;
* `run_more_false` — a `false` answer is the last action a worker ever takes, and
  `run_exited` — a worker exits only on one.

`pool_run_accounts` and `pool_run_steps` put them together, and after the barrier folds the
states as `runBenchmark` does: the merged state records every completed call once, as many as the
`true` answers given, and it is the state of the run's calls up to order (`pool_run_report`).
-/

namespace Yab

/-- Where a worker goroutine stands in `runWorker`. -/
inductive Phase
  /-- at `cur.More()` -/
  | more
  /-- `More()` said `true`: `b.Call(t)` is in flight -/
  | calling
  /-- `b.Call(t)` returned `r`; the loop's tail has not recorded it yet -/
  | returned (r : CallResult)
  /-- `More()` said `false`: `runWorker` has returned and `wg.Done()` has run -/
  | exited
  deriving DecidableEq, Repr

/-- What the next step of a worker hears: `More()`'s answer, the result `b.Call(t)` returns, or
nothing — recording is the worker's own business. -/
inductive Action
  | more (answer : Bool)
  | call (r : CallResult)
  | record
  deriving DecidableEq, Repr

/-- The result an action carries, when it is a call returning. -/
def Action.result? : Action → Option CallResult
  | .call r => some r
  | _ => none

/-- One worker goroutine: where it is in its loop, and the state it owns. -/
structure Worker where
  phase : Phase
  state : BenchmarkState
  deriving DecidableEq

namespace Worker

/-- **One step of `runWorker`'s loop.**  `none` when the action is not the one the worker is
waiting for; an exited worker takes no step. -/
def step (w : Worker) : Action → Option Worker
  | .more answer =>
    match w.phase with
    | .more => some { w with phase := if answer then .calling else .exited }
    | _ => none
  | .call r =>
    match w.phase with
    | .calling => some { w with phase := .returned r }
    | _ => none
  | .record =>
    match w.phase with
    | .returned r => some ⟨.more, w.state.recordCall r⟩
    | _ => none

/-- **What a step can do** — the inversion every later proof uses instead of unfolding `step`. -/
theorem step_eq_some {w w' : Worker} {a : Action} :
    w.step a = some w' ↔
      (∃ b, a = .more b ∧ w.phase = .more ∧
        w' = { w with phase := if b then .calling else .exited }) ∨
      (∃ r, a = .call r ∧ w.phase = .calling ∧ w' = { w with phase := .returned r }) ∨
      (∃ r, a = .record ∧ w.phase = .returned r ∧ w' = ⟨.more, w.state.recordCall r⟩) := by
  obtain ⟨p, s⟩ := w
  cases a <;> cases p <;> simp [step, eq_comm]

theorem step_exited (s : BenchmarkState) (a : Action) : step ⟨.exited, s⟩ a = none := by
  cases a <;> rfl

/-- A worker's own run: its steps, one after another. -/
def run (w : Worker) : List Action → Option Worker
  | [] => some w
  | a :: as => (w.step a).bind (·.run as)

@[simp] theorem run_nil (w : Worker) : w.run [] = some w := rfl

theorem run_cons (w : Worker) (a : Action) (as : List Action) :
    w.run (a :: as) = (w.step a).bind (·.run as) := rfl

theorem run_append (w : Worker) (as bs : List Action) :
    w.run (as ++ bs) = (w.run as).bind (·.run bs) := by
  induction as generalizing w with
  | nil => rfl
  | cons a as ih =>
    simp only [List.cons_append, run_cons, ih]
    cases w.step a <;> rfl

/-- **A `false` answer is the last action a worker takes.** -/
theorem run_more_false {w w' : Worker} {as bs : List Action}
    (h : w.run (as ++ .more false :: bs) = some w') : bs = [] := by
  rw [run_append] at h
  obtain ⟨w₁, -, h₁⟩ := Option.bind_eq_some.mp h
  obtain ⟨w₂, h₂, h₃⟩ := Option.bind_eq_some.mp h₁
  obtain ⟨b, hb, -, rfl⟩ | ⟨_, hb, -⟩ | ⟨_, hb, -⟩ := step_eq_some.mp h₂ <;> cases hb
  cases bs with
  | nil => rfl
  | cons a bs => simp [run_cons, step_exited] at h₃

/-- **Invariants of a worker's runs**: what holds at the start and is kept by every step holds
after every run. -/
theorem run_induction (P : List Action → Worker → Prop) {w₀ : Worker} (h₀ : P [] w₀)
    (hstep : ∀ {as w w' a}, P as w → w.step a = some w' → P (as ++ [a]) w')
    {as : List Action} {w : Worker} (h : w₀.run as = some w) : P as w := by
  induction as using List.reverseRecOn generalizing w with
  | nil => cases h; exact h₀
  | append_singleton as a ih =>
    rw [run_append] at h
    obtain ⟨w₁, h₁, h₂⟩ := Option.bind_eq_some.mp h
    obtain ⟨w₂, h₃, h₄⟩ := Option.bind_eq_some.mp h₂
    cases h₄
    exact hstep (ih h₁) h₃

/-- The result still to be recorded: the one a worker holds between the call's return and the
loop's tail. -/
def pending : Phase → List CallResult
  | .returned r => [r]
  | _ => []

/-- One if a call is in flight. -/
def inFlight : Phase → Nat
  | .calling => 1
  | _ => 0

/-- **The worker's accounts** after the actions `as`, starting from `newBenchmarkState(statter)`:
every `true` answer is a completed call or the call in flight, and the completed calls, but the
one still pending, are exactly what the state records. -/
def Accounts (statter : Statter) (as : List Action) (w : Worker) : Prop :=
  as.count (.more true) = (as.filterMap Action.result?).length + inFlight w.phase ∧
  ∃ done, as.filterMap Action.result? = done ++ pending w.phase ∧
    w.state = BenchmarkState.ofResults statter done

theorem accounts_nil (statter : Statter) :
    Accounts statter [] ⟨.more, BenchmarkState.new statter⟩ :=
  ⟨rfl, [], rfl, rfl⟩

/-- **A step keeps the accounts.** -/
theorem accounts_step {statter : Statter} {as : List Action} {w w' : Worker} {a : Action}
    (hacc : Accounts statter as w) (h : w.step a = some w') :
    Accounts statter (as ++ [a]) w' := by
  obtain ⟨hcount, done, hres, hstate⟩ := hacc
  obtain ⟨b, rfl, hp, rfl⟩ | ⟨r, rfl, hp, rfl⟩ | ⟨r, rfl, hp, rfl⟩ := step_eq_some.mp h
  · refine ⟨?_, done, ?_, hstate⟩ <;> cases b <;>
      simp_all [List.filterMap_append, Action.result?, inFlight, pending]
  · refine ⟨?_, done, ?_, hstate⟩ <;>
      simp_all [List.filterMap_append, Action.result?, inFlight, pending]
  · refine ⟨?_, done ++ [r], ?_, ?_⟩
    · simp_all [List.filterMap_append, Action.result?, inFlight, pending]
    · simp_all [List.filterMap_append, Action.result?, pending]
    · rw [hstate, BenchmarkState.recordCall_ofResults]

/-- **The accounts hold after every run** of a fresh worker. -/
theorem run_accounts {statter : Statter} {as : List Action} {w : Worker}
    (h : run ⟨.more, BenchmarkState.new statter⟩ as = some w) : Accounts statter as w :=
  run_induction _ (accounts_nil statter) accounts_step h

/-- **A worker exits only on a `false` answer.** -/
theorem run_exited {w₀ w : Worker} {as : List Action} (h₀ : w₀.phase ≠ .exited)
    (h : w₀.run as = some w) (hex : w.phase = .exited) : .more false ∈ as := by
  refine run_induction (fun as w => w.phase = .exited → .more false ∈ as) (fun h => absurd h h₀)
    (fun {as w w' a} ih hs hex' => ?_) h hex
  obtain ⟨b, rfl, -, rfl⟩ | ⟨r, rfl, -, rfl⟩ | ⟨r, rfl, -, rfl⟩ := step_eq_some.mp hs
  · cases b
    · exact List.mem_append_right _ (List.mem_singleton_self _)
    · cases hex'
  · cases hex'
  · cases hex'

/-- The steps a worker still takes before it exits if `More()` says `false` from now on: the
call's return, its record, and the last `More()`. -/
def stepsLeft : Phase → Nat
  | .more => 1
  | .calling => 3
  | .returned _ => 2
  | .exited => 0

theorem stepsLeft_le (p : Phase) : stepsLeft p ≤ 3 := by
  cases p <;> simp [stepsLeft]

/-- **A step spends one step**: the steps taken and the steps left add up to three per `true`
answer, and one for the last `More()`. -/
theorem stepsLeft_step {as : List Action} {w w' : Worker} {a : Action}
    (hinv : as.length + stepsLeft w.phase = 3 * as.count (.more true) + 1)
    (h : w.step a = some w') :
    (as ++ [a]).length + stepsLeft w'.phase = 3 * (as ++ [a]).count (.more true) + 1 := by
  obtain ⟨b, rfl, hp, rfl⟩ | ⟨r, rfl, hp, rfl⟩ | ⟨r, rfl, hp, rfl⟩ := step_eq_some.mp h <;>
    rw [hp] at hinv
  · cases b <;> simp [stepsLeft, List.count_append] at hinv ⊢ <;> omega
  · simp [stepsLeft, List.count_append] at hinv ⊢; omega
  · simp [stepsLeft, List.count_append] at hinv ⊢; omega

/-- **A worker's steps are bounded by its grants**, after every run of a fresh worker. -/
theorem run_stepsLeft {statter : Statter} {as : List Action} {w : Worker}
    (h : run ⟨.more, BenchmarkState.new statter⟩ as = some w) :
    as.length + stepsLeft w.phase = 3 * as.count (.more true) + 1 :=
  run_induction (fun as w => as.length + stepsLeft w.phase = 3 * as.count (.more true) + 1) (by rfl)
    stepsLeft_step h

end Worker

/-! ## The pool -/

/-- The `n` worker goroutines of a run. -/
def Pool (n : Nat) := Fin n → Worker

variable {n : Nat}

namespace Pool

/-- The pool `runBenchmark` starts: every worker at `More()`, with a fresh state on its sink. -/
def init (statters : Fin n → Statter) : Pool n := fun i => ⟨.more, BenchmarkState.new (statters i)⟩

/-- One step of the pool: worker `i` takes action `a`; the others do not move. -/
def step (p : Pool n) (l : Fin n × Action) : Option (Pool n) :=
  ((p l.1).step l.2).map (Function.update p l.1)

/-- A run of the pool: one interleaving of the workers' steps. -/
def run (p : Pool n) : List (Fin n × Action) → Option (Pool n)
  | [] => some p
  | l :: ls => (p.step l).bind (·.run ls)

@[simp] theorem run_nil (p : Pool n) : p.run [] = some p := rfl

@[simp] theorem run_cons (p : Pool n) (i : Fin n) (a : Action) (ls : List (Fin n × Action)) :
    p.run ((i, a) :: ls) = ((p i).step a).bind fun w => run (Function.update p i w) ls := by
  simp only [run, step]
  cases (p i).step a <;> rfl

/-- A pool step moves its own worker by that worker's step and leaves the rest alone. -/
theorem step_eq_some {p q : Pool n} {l : Fin n × Action} (h : p.step l = some q) :
    (p l.1).step l.2 = some (q l.1) ∧ ∀ j, j ≠ l.1 → q j = p j := by
  obtain ⟨w, hw, rfl⟩ := Option.map_eq_some'.mp h
  exact ⟨by simpa using hw, fun j hj => Function.update_noteq hj _ _⟩

end Pool

/-- The actions of worker `i`, in order, out of an interleaving. -/
def actionsOf (i : Fin n) (ls : List (Fin n × Action)) : List Action :=
  ls.filterMap fun l => if l.1 = i then some l.2 else none

@[simp] theorem actionsOf_nil (i : Fin n) : actionsOf i [] = [] := rfl

theorem actionsOf_cons (i : Fin n) (l : Fin n × Action) (ls : List (Fin n × Action)) :
    actionsOf i (l :: ls) = if l.1 = i then l.2 :: actionsOf i ls else actionsOf i ls := by
  by_cases h : l.1 = i <;> simp [actionsOf, h]

theorem actionsOf_append (i : Fin n) (ls ls' : List (Fin n × Action)) :
    actionsOf i (ls ++ ls') = actionsOf i ls ++ actionsOf i ls' := List.filterMap_append _ _ _

/-- **A pool run, seen from one worker, is that worker's own run** on its own actions. -/
theorem run_actionsOf {p q : Pool n} {ls : List (Fin n × Action)} (h : p.run ls = some q)
    (i : Fin n) : (p i).run (actionsOf i ls) = some (q i) := by
  induction ls generalizing p with
  | nil => cases h; rfl
  | cons l ls ih =>
    obtain ⟨p', hs, hr⟩ := Option.bind_eq_some.mp h
    obtain ⟨hown, hframe⟩ := Pool.step_eq_some hs
    rw [actionsOf_cons]
    by_cases hi : l.1 = i
    · subst hi
      simp only [if_true, Worker.run_cons, hown, Option.some_bind]
      exact ih hr
    · simp only [hi, if_false]
      rw [← hframe i (Ne.symm hi)]
      exact ih hr

/-- Each `true` answer is given to exactly one worker. -/
theorem sum_count_actionsOf (a : Action) (ls : List (Fin n × Action)) :
    ∑ i, (actionsOf i ls).count a = ls.countP (fun l => l.2 = a) := by
  induction ls with
  | nil => simp
  | cons l ls ih =>
    have hterm : ∀ i, (actionsOf i (l :: ls)).count a =
        (actionsOf i ls).count a + if l.1 = i then (if l.2 = a then 1 else 0) else 0 := by
      intro i
      rw [actionsOf_cons]
      by_cases hi : l.1 = i <;> by_cases ha : l.2 = a <;> simp [hi, ha, List.count_cons]
    simp [hterm, Finset.sum_add_distrib, ih, List.countP_cons]

/-- Each label belongs to exactly one worker. -/
theorem sum_length_actionsOf (ls : List (Fin n × Action)) :
    ∑ i, (actionsOf i ls).length = ls.length := by
  induction ls with
  | nil => simp
  | cons l ls ih =>
    have hterm : ∀ i, (actionsOf i (l :: ls)).length =
        (actionsOf i ls).length + if l.1 = i then 1 else 0 := by
      intro i
      rw [actionsOf_cons]
      by_cases hi : l.1 = i <;> simp [hi]
    simp [hterm, Finset.sum_add_distrib, ih]

/-- The results of the calls worker `i` completed in a run. -/
def callsOf (i : Fin n) (ls : List (Fin n × Action)) : List CallResult :=
  (actionsOf i ls).filterMap Action.result?

/-- A list of actions holds a call result as often as it holds that call's return. -/
theorem count_filterMap_result (r : CallResult) (as : List Action) :
    (as.filterMap Action.result?).count r = as.count (.call r) := by
  induction as with
  | nil => rfl
  | cons a as ih =>
    cases a <;> simp only [List.filterMap_cons, Action.result?, List.count_cons, ih] <;> simp

/-- Each call result of a run is one worker's. -/
theorem sum_count_callsOf (r : CallResult) (ls : List (Fin n × Action)) :
    ∑ i, (callsOf i ls).count r = (ls.filterMap fun l => l.2.result?).count r := by
  have h := count_filterMap_result r (ls.map Prod.snd)
  rw [List.filterMap_map] at h
  simp only [callsOf, count_filterMap_result, sum_count_actionsOf]
  rw [show (fun l : Fin n × Action => l.2.result?) = Action.result? ∘ Prod.snd from rfl, h,
    List.count, List.countP_map]
  rfl

/-- **The calls of all workers are the calls of the run**, in another order. -/
theorem flatten_callsOf_perm (ls : List (Fin n × Action)) :
    (List.ofFn fun i => callsOf i ls).flatten.Perm (ls.filterMap fun l => l.2.result?) :=
  List.perm_iff_count.mpr fun r => by
    rw [List.count_flatten, List.map_ofFn, List.sum_ofFn, ← sum_count_callsOf]
    rfl

section Run
variable {statters : Fin n → Statter} {ls : List (Fin n × Action)} {q : Pool n}

/-- Every worker of a run keeps its accounts. -/
theorem pool_run_accounts (hrun : (Pool.init statters).run ls = some q) (i : Fin n) :
    Worker.Accounts (statters i) (actionsOf i ls) (q i) :=
  Worker.run_accounts (run_actionsOf hrun i)

/-- **A pool's steps are bounded by its grants**: the steps taken and the steps left add up to
three per `true` answer, and one per worker. -/
theorem pool_run_steps (hrun : (Pool.init statters).run ls = some q) :
    ls.length + ∑ i, Worker.stepsLeft (q i).phase =
      3 * ls.countP (fun l => l.2 = .more true) + n := by
  have h : ∀ i, (actionsOf i ls).length + Worker.stepsLeft (q i).phase =
      3 * (actionsOf i ls).count (.more true) + 1 := fun i =>
    Worker.run_stepsLeft (run_actionsOf hrun i)
  rw [← sum_length_actionsOf, ← sum_count_actionsOf, ← Finset.sum_add_distrib, Finset.mul_sum,
    Finset.sum_congr rfl fun i _ => h i, Finset.sum_add_distrib]
  simp

/-- **No worker acts after a `false` answer**, whatever the other workers do meanwhile. -/
theorem pool_run_more_false (hrun : (Pool.init statters).run ls = some q) {i : Fin n}
    {ls₁ ls₂ : List (Fin n × Action)} (heq : ls = ls₁ ++ (i, .more false) :: ls₂) (a : Action) :
    (i, a) ∉ ls₂ := by
  have h := run_actionsOf hrun i
  rw [heq, actionsOf_append, actionsOf_cons, if_pos rfl] at h
  have hnil : actionsOf i ls₂ = [] := Worker.run_more_false h
  intro hmem
  have : a ∈ actionsOf i ls₂ := List.mem_filterMap.mpr ⟨(i, a), hmem, by simp⟩
  simp [hnil] at this

/-- **An exited worker heard a `false`.** -/
theorem pool_run_heard_false (hrun : (Pool.init statters).run ls = some q) {i : Fin n}
    (hex : (q i).phase = .exited) : (i, .more false) ∈ ls := by
  have h := Worker.run_exited (by simp [Pool.init]) (run_actionsOf hrun i) hex
  obtain ⟨l, hl, he⟩ := List.mem_filterMap.mp h
  by_cases hi : l.1 = i
  · simp only [hi, if_true, Option.some.injEq] at he
    rwa [← hi, ← he]
  · simp [hi] at he

/-- Once every worker has exited, each state records exactly the calls its worker completed,
and they are as many as the `true` answers it received. -/
theorem pool_run_exited (hrun : (Pool.init statters).run ls = some q) {i : Fin n}
    (hex : (q i).phase = .exited) :
    (q i).state = BenchmarkState.ofResults (statters i) (callsOf i ls) ∧
      (actionsOf i ls).count (.more true) = (callsOf i ls).length := by
  obtain ⟨hcount, done, hres, hstate⟩ := pool_run_accounts hrun i
  rw [hex] at hcount hres
  simp only [Worker.pending, List.append_nil] at hres
  exact ⟨by rw [hstate, callsOf, hres], hcount⟩

end Run

/-! ## After the barrier -/

/-- **The merge loop** after `wg.Wait()`: `overall := states[0]`, then `overall.merge(s)` for each
`s` in `states[1:]`. -/
def mergeStates (states : List BenchmarkState) : Except String BenchmarkState := do
  let overall ← sliceIndex states 0
  let rest ← sliceFrom states 1
  return rest.foldl BenchmarkState.merge overall

theorem mergeStates_cons (s : BenchmarkState) (rest : List BenchmarkState) :
    mergeStates (s :: rest) = .ok (rest.foldl BenchmarkState.merge s) := by
  simp [mergeStates, bind, Except.bind, pure, Except.pure]

/-- Folding states that recorded lists of results records their concatenation, in order. -/
theorem foldl_merge_ofResults (statter : Statter) (rs : List CallResult)
    (xs : List (Statter × List CallResult)) :
    (xs.map fun x => BenchmarkState.ofResults x.1 x.2).foldl BenchmarkState.merge
        (BenchmarkState.ofResults statter rs) =
      BenchmarkState.ofResults statter (rs ++ (xs.map Prod.snd).flatten) := by
  induction xs generalizing rs with
  | nil => simp
  | cons x xs ih =>
    simp only [List.map_cons, List.foldl_cons, BenchmarkState.merge_ofResults, ih,
      List.flatten_cons, List.append_assoc]

/-- **Merging every worker's state** records every completed call, worker by worker, under the
first worker's sink. -/
theorem mergeStates_ofFn (h : 0 < n) (statters : Fin n → Statter)
    (calls : Fin n → List CallResult) :
    mergeStates (List.ofFn fun i => BenchmarkState.ofResults (statters i) (calls i)) =
      .ok (BenchmarkState.ofResults (statters ⟨0, h⟩) (List.ofFn calls).flatten) := by
  cases n with
  | zero => exact absurd h (Nat.lt_irrefl 0)
  | succ m =>
    have hxs : (List.ofFn fun i : Fin m => BenchmarkState.ofResults (statters i.succ)
        (calls i.succ)) = (List.ofFn fun i : Fin m => (statters i.succ, calls i.succ)).map
          fun x => BenchmarkState.ofResults x.1 x.2 := by
      simp [List.map_ofFn, Function.comp_def]
    rw [List.ofFn_succ, mergeStates_cons, hxs, foldl_merge_ofResults, List.ofFn_succ (f := calls),
      List.flatten_cons, List.map_ofFn]
    rfl

/-- All the calls of a run, once every worker has exited, are as many as the `true` answers the
limiter gave. -/
theorem length_flatten_callsOf {statters : Fin n → Statter} {ls : List (Fin n × Action)}
    {q : Pool n} (hrun : (Pool.init statters).run ls = some q)
    (hex : ∀ i, (q i).phase = .exited) :
    (List.ofFn fun i => callsOf i ls).flatten.length = ls.countP (fun l => l.2 = .more true) := by
  rw [List.length_flatten, List.map_ofFn, List.sum_ofFn, ← sum_count_actionsOf]
  exact Finset.sum_congr rfl fun i _ => ((pool_run_exited hrun (hex i)).2).symm

/-- **Once every worker has exited, the merge loop's state records the run's calls**, each once,
whichever worker made it and in whatever order they returned. -/
theorem pool_run_report (hn : 0 < n) {statters : Fin n → Statter} {ls : List (Fin n × Action)}
    {q : Pool n} (hrun : (Pool.init statters).run ls = some q)
    (hex : ∀ i, (q i).phase = .exited) :
    mergeStates (List.ofFn fun i => (q i).state) =
      .ok (BenchmarkState.ofResults (statters ⟨0, hn⟩) (ls.filterMap fun l => l.2.result?)) := by
  have hstates : (fun i => (q i).state) =
      fun i => BenchmarkState.ofResults (statters i) (callsOf i ls) :=
    funext fun i => (pool_run_exited hrun (hex i)).1
  rw [hstates, mergeStates_ofFn hn, BenchmarkState.ofResults_perm _ (flatten_callsOf_perm ls)]

/-- **Every call is issued on a `true` answer and recorded exactly once.**  For `L` connections
and concurrency `C`, under any interleaving of the `L·C` workers, any answers of `More()` and any
results of `b.Call`: each worker's `true` answers are its completed calls and the one in flight;
no worker acts after a `false`; each state records exactly its worker's completed calls but the
one pending; and once all have exited, the merge loop yields a state recording every completed
call once — as many as the `true` answers given. -/
theorem pool_run_records_each_call {L C : Nat} (hL : 0 < L) (hC : 0 < C)
    (statters : Fin (L * C) → Statter) {ls : List (Fin (L * C) × Action)} {q : Pool (L * C)}
    (hrun : (Pool.init statters).run ls = some q) :
    (∀ i, (actionsOf i ls).count (.more true) =
      (callsOf i ls).length + Worker.inFlight (q i).phase) ∧
    (∀ i ls₁ ls₂, ls = ls₁ ++ (i, .more false) :: ls₂ → ∀ a, (i, a) ∉ ls₂) ∧
    (∀ i, ∃ done, callsOf i ls = done ++ Worker.pending (q i).phase ∧
      (q i).state = BenchmarkState.ofResults (statters i) done) ∧
    ((∀ i, (q i).phase = .exited) →
      mergeStates (List.ofFn fun i => (q i).state) =
        .ok (BenchmarkState.ofResults (statters ⟨0, Nat.mul_pos hL hC⟩)
          (List.ofFn fun i => callsOf i ls).flatten) ∧
      (List.ofFn fun i => callsOf i ls).flatten.length =
        ls.countP (fun l => l.2 = .more true)) := by
  refine ⟨fun i => (pool_run_accounts hrun i).1, fun _ _ _ heq a => pool_run_more_false hrun heq a,
    fun i => (pool_run_accounts hrun i).2, fun hex => ⟨?_, length_flatten_callsOf hrun hex⟩⟩
  have hstates : (fun i => (q i).state) =
      fun i => BenchmarkState.ofResults (statters i) (callsOf i ls) :=
    funext fun i => (pool_run_exited hrun (hex i)).1
  rw [hstates, mergeStates_ofFn]

/-- Two workers of one connection, interleaved: both are granted, the second's call returns and
is recorded first, and each then hears `false`. -/
def twoWorkersRun : List (Fin (1 * 2) × Action) :=
  [(0, .more true), (1, .more true), (1, .call (.report 7 none)), (0, .call (.report 5 none)),
    (1, .record), (0, .record), (1, .more false), (0, .more false)]

/-- …and the pool it leaves: both exited, each state holding its own call. -/
def twoWorkersPool : Pool (1 * 2) := fun i =>
  ⟨.exited, BenchmarkState.ofResults ⟨[""]⟩ (if i = 0 then [.report 5 none] else [.report 7 none])⟩

theorem run_twoWorkersRun :
    (Pool.init fun _ => ⟨[""]⟩).run twoWorkersRun = some twoWorkersPool :=
  congrArg some (funext fun | ⟨0, _⟩ => rfl | ⟨1, _⟩ => rfl)

theorem pool_run_records_each_call_twoWorkers :
    (Pool.init fun _ => ⟨[""]⟩).run twoWorkersRun = some twoWorkersPool ∧
      (List.ofFn fun i => callsOf i twoWorkersRun).flatten = [.report 5 none, .report 7 none] ∧
      mergeStates (List.ofFn fun i => (twoWorkersPool i).state) =
        .ok (BenchmarkState.ofResults ⟨[""]⟩ (List.ofFn fun i => callsOf i twoWorkersRun).flatten) ∧
      (List.ofFn fun i => callsOf i twoWorkersRun).flatten.length =
        twoWorkersRun.countP (fun l => l.2 = .more true) :=
  ⟨run_twoWorkersRun, by decide,
    (pool_run_records_each_call (by decide) (by decide) _ run_twoWorkersRun).2.2.2 fun _ => rfl⟩

end Yab
