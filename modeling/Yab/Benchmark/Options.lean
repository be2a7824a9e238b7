import Mathlib.Tactic.SplitIfs
import Yab.Go.Float

/-!
# Benchmark/Options — the options a benchmark run starts from, and what `runBenchmark` makes of them

`BenchmarkOptions` carries the fields the controller reads.  Before any call is made,
`runBenchmark` `validate`s them (a negative duration or request count is fatal), returns at once
unless they are `enabled`, and then lets the product of RPS and duration **cap** the request
budget (`capMaxRequests`).  The capped budget is what `limiter.New` receives and what the
parameters block reports.

Go's `int` and `time.Duration` (nanoseconds) are `Int` here.  The cap's product
`float64(RPS) * MaxDuration.Seconds()` is float64 arithmetic (`Go/Float`), so `rpsMax` can fall
a request below the exact `⌊RPS · D / 1s⌋` or one above it, and an out-of-range product converts
to `math.MinInt64`.

The cap keeps a bounded budget bounded only while `rpsMax` is positive:
`capMaxRequests_maxRequests_le` and `capMaxRequests_maxRequests_le_rpsMax` bound it from above,
and `capMaxRequests_unbounded_iff` says exactly when a positive budget becomes `0` or negative,
which `limiter.New` reads as no bound.

Two versions of the format switch stand side by side in the sources: `formatChoice` lowers
`opts.Format` before matching it, `formatChoiceExact` compares it with two spellings
(`formatChoice_formatAsJSON_of_exact`).
-/

namespace Yab

/-- The benchmark options the controller reads.  Durations are in nanoseconds. -/
structure BenchmarkOptions where
  maxRequests : Int
  maxDuration : Int
  rps : Int
  connections : Int
  concurrency : Int
  numCPUs : Int
  perPeerStats : Bool
  format : String
  deriving DecidableEq, Repr

/-- `errNegativeDuration`. -/
def errNegativeDuration : String := "duration cannot be negative"

/-- `errNegativeMaxReqs`. -/
def errNegativeMaxReqs : String := "max requests cannot be negative"

namespace BenchmarkOptions

variable (o : BenchmarkOptions)

/-- `validate`: a negative duration, then a negative request count, is an error. -/
def validate : Except String Unit :=
  if o.maxDuration < 0 then .error errNegativeDuration
  else if o.maxRequests < 0 then .error errNegativeMaxReqs
  else .ok ()

/-- `enabled`: at least one of the two bounds is set. -/
def enabled : Bool := o.maxDuration ≠ 0 || o.maxRequests ≠ 0

/-- `rpsMax := int(float64(opts.RPS) * opts.MaxDuration.Seconds())`: the product is a rounded
float64, truncated towards zero, and `math.MinInt64` once it leaves `int`'s range. -/
def rpsMax : Int := F64.toInt (F64.mul (F64.ofInt o.rps) (F64.seconds o.maxDuration))

/-- The cap of `runBenchmark`: when RPS and duration are both set, `rpsMax` replaces the budget
if it is lower, or if the budget is `0`.  No other option changes. -/
def capMaxRequests : BenchmarkOptions :=
  { o with maxRequests :=
      if 0 < o.rps ∧ 0 < o.maxDuration ∧ (o.rpsMax < o.maxRequests ∨ o.maxRequests = 0) then
        o.rpsMax
      else o.maxRequests }

/-- `setGoMaxProcs`: `runtime.GOMAXPROCS(NumCPUs)` when it is set, then the setting in force;
`current` is the runtime's setting before the call. -/
def setGoMaxProcs (current : Nat) : Nat :=
  if 0 < o.numCPUs then o.numCPUs.toNat else current

/-- `getNumConnections`: the option when set, else two per usable CPU. -/
def getNumConnections (goMaxProcs : Nat) : Int :=
  if 0 < o.connections then o.connections else goMaxProcs * 2

/-- `strings.ToLower`, letter by letter.  `Char.toLower` lowers ASCII letters only; no other
letter lowers to one of the ASCII letters the format switch compares with. -/
def toLower (s : String) : String := ⟨s.toList.map Char.toLower⟩

/-- What `runBenchmark` makes of `opts.Format`: whether the report is one JSON document,
printed after the run, and the warning printed before it (the format string, applied to
`opts.Format`). -/
structure FormatChoice where
  formatAsJSON : Bool
  warning : Option String
  deriving DecidableEq, Repr

/-- The `switch` on `strings.ToLower(opts.Format)`: `"text"` and `""` print the parameters block,
`"json"` defers to one JSON document, anything else warns and prints text. -/
def formatChoice : FormatChoice :=
  match toLower o.format with
  | "text" | "" => ⟨false, none⟩
  | "json" => ⟨true, none⟩
  | _ => ⟨false, some ("Unrecognized format option %q, please specify \x27json\x27 for JSON " ++
      "output. Printing plaintext output as default.\n\n")⟩

/-- The other version of the same choice: `opts.Format == "json" || opts.Format == "JSON"`,
and a warning for any other non-empty format. -/
def formatChoiceExact : FormatChoice :=
  if o.format = "json" ∨ o.format = "JSON" then ⟨true, none⟩
  else if o.format ≠ "" then
    ⟨false, some ("Unrecognized format option <%s>, please specify <json> or <JSON> for JSON " ++
      "output. Printing plaintext output as default.\n\n")⟩
  else ⟨false, none⟩

/-- **The two versions of the format switch agree on JSON where the older one sees it**: a format
the exact comparison reads as JSON, the lowered switch reads as JSON too.  Not conversely — the
lowered switch also takes `"Json"`, and it prints `"text"` without the older version's
warning. -/
theorem formatChoice_formatAsJSON_of_exact (h : o.formatChoiceExact.formatAsJSON = true) :
    o.formatChoice.formatAsJSON = true := by
  unfold formatChoiceExact at h
  split_ifs at h with hj
  rcases hj with hj | hj <;> rw [formatChoice, hj] <;> decide

example : (BenchmarkOptions.mk 0 0 0 0 1 0 false "Json").formatChoice = ⟨true, none⟩ ∧
    (BenchmarkOptions.mk 0 0 0 0 1 0 false "Json").formatChoiceExact.formatAsJSON = false ∧
    (BenchmarkOptions.mk 0 0 0 0 1 0 false "text").formatChoice.warning = none ∧
    (BenchmarkOptions.mk 0 0 0 0 1 0 false "text").formatChoiceExact.warning ≠ none := by
  decide

/-! ## `validate` -/

/-- `validate` admits exactly the options with no negative bound. -/
theorem validate_eq_ok_iff : o.validate = .ok () ↔ 0 ≤ o.maxDuration ∧ 0 ≤ o.maxRequests := by
  unfold validate
  split_ifs with h₁ h₂ <;> simp <;> omega

/-- …and each rejection names the bound it checks, the duration first. -/
theorem validate_eq_error_iff (e : String) :
    o.validate = .error e ↔
      (o.maxDuration < 0 ∧ e = errNegativeDuration) ∨
      (0 ≤ o.maxDuration ∧ o.maxRequests < 0 ∧ e = errNegativeMaxReqs) := by
  unfold validate
  by_cases h₁ : o.maxDuration < 0
  · simp [h₁, Int.not_le.mpr h₁, eq_comm]
  · by_cases h₂ : o.maxRequests < 0 <;> simp [h₁, h₂, Int.not_lt.mp h₁, eq_comm]

/-! ## The RPS × duration cap -/

set_option exponentiation.threshold 10000 in
/-- The cap in float64: `25` RPS for `1.16s` is `28.999999999999996` requests, truncated to `28`
where the exact product floors to `29`… -/
example : (BenchmarkOptions.mk 0 1160000000 25 0 1 0 false "").rpsMax = 28 := by
  decide

set_option exponentiation.threshold 10000 in
/-- …and `2^62` RPS for `10s` overflows `int` to `math.MinInt64`. -/
example : (BenchmarkOptions.mk 1000 10000000000 (2 ^ 62) 0 1 0 false "").rpsMax = -2 ^ 63 := by
  decide

/-- The cap changes the budget alone. -/
theorem capMaxRequests_maxRequests :
    o.capMaxRequests.maxRequests =
      if 0 < o.rps ∧ 0 < o.maxDuration ∧ (o.rpsMax < o.maxRequests ∨ o.maxRequests = 0) then
        o.rpsMax
      else o.maxRequests := rfl

/-- **The cap never raises a bounded budget.** -/
theorem capMaxRequests_maxRequests_le (hm : 0 < o.maxRequests) :
    o.capMaxRequests.maxRequests ≤ o.maxRequests := by
  rw [capMaxRequests_maxRequests]
  split_ifs with h
  · omega
  · exact Int.le_refl _

/-- **With both rates set, the capped budget is within `rpsMax`.** -/
theorem capMaxRequests_maxRequests_le_rpsMax (hr : 0 < o.rps) (hd : 0 < o.maxDuration) :
    o.capMaxRequests.maxRequests ≤ o.rpsMax := by
  rw [capMaxRequests_maxRequests]
  split_ifs with h
  · exact Int.le_refl _
  · simp only [hr, hd, true_and, not_or] at h
    omega

/-- **When a positive budget loses its bound**: the capped budget is `0` or negative, which
`limiter.New` reads as no bound, exactly when both rates are set and `rpsMax` is — the product
truncates to no request, or overflows to `math.MinInt64`. -/
theorem capMaxRequests_unbounded_iff (hm : 0 < o.maxRequests) :
    o.capMaxRequests.maxRequests ≤ 0 ↔ 0 < o.rps ∧ 0 < o.maxDuration ∧ o.rpsMax ≤ 0 := by
  rw [capMaxRequests_maxRequests]
  split_ifs with h
  · exact ⟨fun h0 => ⟨h.1, h.2.1, h0⟩, fun h0 => h0.2.2⟩
  · refine ⟨fun h0 => by omega, fun ⟨hr, hd, h0⟩ => absurd ⟨hr, hd, .inl (by omega)⟩ h⟩

end BenchmarkOptions

/-- A run bounded at ten requests, half a second, one request per second. -/
def halfSecondOneRPS : BenchmarkOptions where
  maxRequests := 10
  maxDuration := 500000000
  rps := 1
  connections := 0
  concurrency := 1
  numCPUs := 0
  perPeerStats := false
  format := ""

set_option exponentiation.threshold 10000 in
/-- **The cap unbounds a bounded run**: ten requests at one per second for half a second leave a
budget of `int(0.5) = 0`, which `limiter.New` reads as no bound on the count. -/
theorem capMaxRequests_halfSecondOneRPS :
    halfSecondOneRPS.validate = .ok () ∧ halfSecondOneRPS.enabled = true ∧
      halfSecondOneRPS.capMaxRequests.maxRequests = 0 :=
  ⟨rfl, rfl, by decide⟩

end Yab
