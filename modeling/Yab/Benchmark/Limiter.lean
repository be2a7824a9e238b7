import Mathlib.Data.List.Basic

/-!
# Benchmark/Limiter — the gate every worker asks before each call

Modelled from the spec: the package `limiter` is not among the sources, only its tests
(`limiter_test.go`) and its callers.  The spec (§4.1) gives it one operation, `More()`, and
`Stop()`.  `More()` is false once `Stop()` has been called or the deadline has passed, and
otherwise true at most `MaxRequests` times across all callers, `0` meaning no bound.  RPS pacing
only delays an answer.

A call of `More()` is atomic at the moment it answers, so the callers' interleaving is one
sequence of events, each `More()` carrying the time of its answer (`Event`).  The limiter's
state is the budget left, the deadline, and the stop flag; `answers` and `final` are what a
sequence of events hears and leaves.  The budget is the invariant (`answers_remaining`): the
`true` answers so far and the budget left add up to `MaxRequests`.  From it and two frame facts:

* `answers_after_stop` — after `Stop()`, every answer is `false`;
* `answers_of_expired` — past the deadline, every answer is `false`;
* `answers_before_deadline` — before the deadline and without `Stop()`, the first
  `MaxRequests` answers are `true` and all later ones `false`, as `TestSerial` checks, and
  `answers_unbounded` — every answer is `true` with no bound, as `TestStop` checks before its
  `Stop()`; so a `false` there means the budget is spent (`answers_count_true_of_false`).
-/

namespace Yab

namespace Limiter

/-- Modelled from the spec: the state of a `limiter.Run` — the budget left when `MaxRequests`
is set, the deadline (nanoseconds from the start) when `MaxDuration` is, and the stop flag. -/
structure Run where
  remaining : Option Nat
  deadline : Option Nat
  stopped : Bool
  deriving DecidableEq, Repr

/-- What reaches the limiter: a `More()` answering at time `now`, or a `Stop()`. -/
inductive Event
  | more (now : Nat)
  | stop
  deriving DecidableEq, Repr

namespace Run

/-- Modelled from the spec: `limiter.New(maxRequests, rps, maxDuration)`; a bound of `0` is no
bound, and the rate only paces the answers. -/
def new (maxRequests _rps maxDuration : Int) : Run where
  remaining := if 0 < maxRequests then some maxRequests.toNat else none
  deadline := if 0 < maxDuration then some maxDuration.toNat else none
  stopped := false

/-- Whether the deadline has passed at `now`. -/
def expired (r : Run) (now : Nat) : Bool := r.deadline.any (· ≤ now)

/-- Modelled from the spec: `More()` answering at `now`.  False when stopped or past the
deadline or out of budget; otherwise true, taking one request from the budget. -/
def more (r : Run) (now : Nat) : Bool × Run :=
  if r.stopped || r.expired now then (false, r)
  else match r.remaining with
    | some 0 => (false, r)
    | some (k + 1) => (true, { r with remaining := some k })
    | none => (true, r)

/-- Modelled from the spec: `Stop()`, idempotent. -/
def stop (r : Run) : Run := { r with stopped := true }

/-- One event: the answer of a `More()`, none for a `Stop()`, and the state after it. -/
def step (r : Run) : Event → Option Bool × Run
  | .more now => (some (r.more now).1, (r.more now).2)
  | .stop => (none, r.stop)

/-- The answers of `More()` along a sequence of events. -/
def answers (r : Run) : List Event → List Bool
  | [] => []
  | e :: es => (r.step e).1.toList ++ answers (r.step e).2 es

/-- The state after a sequence of events. -/
def final (r : Run) (es : List Event) : Run := es.foldl (fun r e => (r.step e).2) r

@[simp] theorem final_nil (r : Run) : r.final [] = r := rfl

@[simp] theorem final_cons (r : Run) (e : Event) (es : List Event) :
    r.final (e :: es) = (r.step e).2.final es := rfl

/-- What the events after `es₁` hear is what the state `es₁` leaves hears. -/
theorem answers_append (r : Run) (es₁ es₂ : List Event) :
    r.answers (es₁ ++ es₂) = r.answers es₁ ++ (r.final es₁).answers es₂ := by
  induction es₁ generalizing r with
  | nil => rfl
  | cons e es₁ ih => rw [List.cons_append, answers, answers, ih, final_cons, List.append_assoc]

/-! ## One answer -/

/-- **What one answer does**: a `true` takes a request from a budget that had one, or leaves an
unbounded budget alone; a `false` changes nothing. -/
theorem more_spec (r : Run) (now : Nat) :
    ((r.more now).1 = true ∧ r.stopped = false ∧ r.expired now = false ∧
        (r.remaining = none ∧ (r.more now).2 = r ∨
          ∃ k, r.remaining = some (k + 1) ∧ (r.more now).2 = { r with remaining := some k })) ∨
      ((r.more now).1 = false ∧ (r.more now).2 = r) := by
  unfold more
  by_cases h : (r.stopped || r.expired now) = true
  · simp [h]
  · simp only [h, Bool.false_eq_true, if_false]
    simp only [Bool.or_eq_true, not_or, Bool.not_eq_true] at h
    rcases hr : r.remaining with _ | _ | k <;> simp [h]

/-- **One event and the budget**: a `true` answer takes one request from a bounded budget. -/
theorem step_remaining {r : Run} {k : Nat} (hk : r.remaining = some k) (e : Event) :
    ∃ k', (r.step e).2.remaining = some k' ∧ (r.step e).1.toList.count true + k' = k := by
  cases e with
  | stop => exact ⟨k, hk, by simp [step]⟩
  | more now =>
    rcases more_spec r now with ⟨ht, -, -, ⟨hn, -⟩ | ⟨k', hk', heq⟩⟩ | ⟨hf, heq⟩
    · simp [hn] at hk
    · rw [hk] at hk'
      cases hk'
      exact ⟨k', by simp [step, heq], by simp [step, ht, Nat.add_comm]⟩
    · exact ⟨k, by simp [step, heq, hk], by simp [step, hf]⟩

theorem step_deadline (r : Run) (e : Event) : (r.step e).2.deadline = r.deadline := by
  cases e with
  | stop => rfl
  | more now =>
    rcases more_spec r now with ⟨-, -, -, ⟨-, heq⟩ | ⟨_, -, heq⟩⟩ | ⟨-, heq⟩ <;> simp [step, heq]

/-- A stopped limiter stays stopped and answers `false`. -/
theorem step_of_stopped {r : Run} (h : r.stopped = true) (e : Event) :
    true ∉ (r.step e).1.toList ∧ (r.step e).2.stopped = true := by
  cases e with
  | stop => exact ⟨by simp [step], rfl⟩
  | more now => simp [step, more, h]

/-! ## Whole runs -/

/-- **The budget**: along any events, the `true` answers and the budget left add up to the
budget at the start. -/
theorem answers_remaining {r : Run} {k : Nat} (hk : r.remaining = some k) (es : List Event) :
    ∃ k', (r.final es).remaining = some k' ∧ (r.answers es).count true + k' = k := by
  induction es generalizing r k with
  | nil => exact ⟨k, hk, by simp [answers]⟩
  | cons e es ih =>
    obtain ⟨k₁, h₁, hc₁⟩ := step_remaining hk e
    obtain ⟨k₂, h₂, hc₂⟩ := ih h₁
    refine ⟨k₂, h₂, ?_⟩
    rw [answers, List.count_append]
    omega

theorem final_deadline (r : Run) (es : List Event) : (r.final es).deadline = r.deadline := by
  induction es generalizing r with
  | nil => rfl
  | cons e es ih => rw [final_cons, ih, step_deadline]

/-- **A stopped limiter answers `false` to everything.** -/
theorem answers_of_stopped {r : Run} (h : r.stopped = true) (es : List Event) :
    true ∉ r.answers es := by
  induction es generalizing r with
  | nil => simp [answers]
  | cons e es ih =>
    simp only [answers, List.mem_append, not_or]
    exact ⟨(step_of_stopped h e).1, ih (step_of_stopped h e).2⟩

/-- **After `Stop()`, every answer is `false`**, whatever came before it. -/
theorem answers_after_stop (r : Run) (es₁ es₂ : List Event) :
    r.answers (es₁ ++ .stop :: es₂) = r.answers es₁ ++ (r.final es₁).stop.answers es₂ ∧
      true ∉ (r.final es₁).stop.answers es₂ :=
  ⟨by rw [answers_append]; rfl, answers_of_stopped rfl es₂⟩

/-- **Past the deadline, every answer is `false`**: on events all at or after the deadline. -/
theorem answers_of_expired {r : Run} {d : Nat} (hd : r.deadline = some d) (es : List Event)
    (hes : ∀ now, Event.more now ∈ es → d ≤ now) : true ∉ r.answers es := by
  induction es generalizing r with
  | nil => simp [answers]
  | cons e es ih =>
    have hhead : true ∉ (r.step e).1.toList := by
      cases e with
      | stop => simp [step]
      | more now => simp [step, more, expired, hd, hes now (List.mem_cons_self _ _)]
    simp only [answers, List.mem_append, not_or]
    exact ⟨hhead, ih ((step_deadline r e).trans hd) fun now h => hes now (List.mem_cons_of_mem _ h)⟩

section Clock

variable {r : Run} (hs : r.stopped = false) (times : List Nat)
  (ht : ∀ now ∈ times, r.expired now = false)
include hs ht

/-- **Before the deadline and without `Stop()`**, a budget of `k` answers `true` to the first
`k` calls of `More()` and `false` to every later one. -/
theorem answers_before_deadline {k : Nat} (hr : r.remaining = some k) :
    r.answers (times.map .more) =
      List.replicate (min times.length k) true ++ List.replicate (times.length - k) false := by
  induction times generalizing r k with
  | nil => simp [answers]
  | cons now times ih =>
    have hnow := ht now (List.mem_cons_self _ _)
    have htail : ∀ t ∈ times, r.expired t = false := fun t h => ht t (List.mem_cons_of_mem _ h)
    cases k with
    | zero =>
      have hmore : r.more now = (false, r) := by simp [more, hs, hnow, hr]
      simp [answers, step, hmore, ih hs htail hr, List.replicate_succ]
    | succ k =>
      have hmore : r.more now = (true, { r with remaining := some k }) := by
        simp [more, hs, hnow, hr]
      simp [answers, step, hmore, ih (r := { r with remaining := some k }) hs htail rfl,
        Nat.succ_min_succ, List.replicate_succ]

/-- **A `false` before the deadline and without `Stop()` means the budget is spent**: every
request of it was granted. -/
theorem answers_count_true_of_false {k : Nat} (hr : r.remaining = some k)
    (hf : false ∈ r.answers (times.map .more)) : (r.answers (times.map .more)).count true = k := by
  rw [answers_before_deadline hs times ht hr] at hf ⊢
  have hk : k < times.length := by
    simp only [List.mem_append, List.mem_replicate, Bool.false_eq_true, and_false, false_or] at hf
    omega
  simp [List.count_replicate]
  omega

/-- **With no bound on the count**, every `More()` before the deadline and without `Stop()` is
`true`. -/
theorem answers_unbounded (hr : r.remaining = none) :
    r.answers (times.map .more) = List.replicate times.length true := by
  induction times with
  | nil => rfl
  | cons now times ih =>
    have hmore : r.more now = (true, r) := by
      simp [more, hs, ht now (List.mem_cons_self _ _), hr]
    simp [answers, step, hmore, ih fun t h => ht t (List.mem_cons_of_mem _ h),
      List.replicate_succ]

end Clock

end Run

end Limiter

end Yab
