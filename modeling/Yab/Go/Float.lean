import Mathlib.Algebra.Group.Int

/-!
# Go/Float — float64 arithmetic, as Go's conversions and operators compute it

A float64 is exact: every finite double is an integer multiple of the least subnormal
`2^-1074`, so `F64.finite neg mag` stands for `±mag · 2^-1074`.  Each operation the code performs
is its exact result followed by one rounding (`round`), to nearest with ties to even, as IEEE 754
binary64 prescribes: the significand keeps 53 bits, in the unit `2^ulpExp` of the result's binade
(no lower than the subnormals' unit), and a result that rounds to `2^1024` or more is an infinity.

`float64(i)` of an `int` is `ofInt`; `+`, `*` and `/` are `add`, `mul` and `div`; `int(x)` is
`toInt`, which truncates towards zero and, as amd64's `CVTTSD2SQ` does, gives `math.MinInt64` for
a value out of `int`'s range, an infinity or NaN.  `seconds` is `time.Duration.Seconds` and
`roundHalfAway` is `math.Round`, the nearest integer (`roundHalfAway_finite`).

The binade is found with `log2`, a `⌊log₂⌋` by structural recursion on a bound of the exponent,
so that `decide` evaluates the arithmetic (`Nat.log2` is well-founded); `log2_eq` shows it is
`Nat.log2`.
-/

namespace Yab

/-- A float64: `finite neg mag` is `±mag · 2^-1074`; then the two infinities and NaN. -/
inductive F64 where
  | finite (neg : Bool) (mag : Nat)
  | inf (neg : Bool)
  | nan
  deriving DecidableEq, Repr

namespace F64

/-! ## The binade of a ratio -/

/-- `⌊log₂ n⌋` for `n < 2^2^k`, halving the range of exponents at each level. -/
def log2Below : Nat → Nat → Nat
  | 0, _ => 0
  | k + 1, n => if 2 ^ 2 ^ k ≤ n then 2 ^ k + log2Below k (n / 2 ^ 2 ^ k) else log2Below k n

/-- The least level `j ≥ k` with `n < 2^2^j`, searched for at most `f` steps. -/
def expBound : Nat → Nat → Nat → Nat
  | 0, k, _ => k
  | f + 1, k, n => if n < 2 ^ 2 ^ k then k else expBound f (k + 1) n

/-- `⌊log₂ n⌋`, `0` for `0`. -/
def log2 (n : Nat) : Nat := log2Below (expBound n 0 n) n

/-- The unit exponent of `a / d` (in units of `2^-1074`): the `p` with
`2^(p+52) ≤ a / d < 2^(p+53)`, or `0` below the normal range. -/
def ulpExp (a d : Nat) : Nat :=
  let k := log2 a - (log2 d + 52)
  if 0 < k ∧ a < d * 2 ^ (k + 52) then k - 1 else k

/-- `a / d` rounded to the nearest natural number, ties to the even one. -/
def rne (a d : Nat) : Nat :=
  if 2 * (a % d) < d then a / d
  else if d < 2 * (a % d) then a / d + 1
  else if a / d % 2 = 0 then a / d else a / d + 1

/-- **Rounding**: the double nearest `±a / d` units, ties to an even significand; from
`2^1024 = 2^2098` units on, an infinity. -/
def round (neg : Bool) (a d : Nat) : F64 :=
  let p := ulpExp a d
  let mag := rne a (d * 2 ^ p) * 2 ^ p
  if mag < 2 ^ 2098 then finite neg mag else inf neg

/-! ## Conversions and operators -/

/-- `float64(i)`. -/
def ofInt (i : Int) : F64 := round (i < 0) (i.natAbs * 2 ^ 1074) 1

/-- `x + y`; an exact zero sum is `-0` only when both terms are. -/
def add : F64 → F64 → F64
  | finite s a, finite t b =>
    let z : Int := (if s then -(a : Int) else a) + (if t then -(b : Int) else b)
    round (if z = 0 then s && t else z < 0) z.natAbs 1
  | nan, _ | _, nan => nan
  | inf s, inf t => if s = t then inf s else nan
  | inf s, finite .. | finite .., inf s => inf s

/-- `x * y`. -/
def mul : F64 → F64 → F64
  | finite s a, finite t b => round (s != t) (a * b) (2 ^ 1074)
  | nan, _ | _, nan => nan
  | inf s, finite t b | finite t b, inf s => if b = 0 then nan else inf (s != t)
  | inf s, inf t => inf (s != t)

/-- `x / y`. -/
def div : F64 → F64 → F64
  | finite s a, finite t b =>
    if b = 0 then (if a = 0 then nan else inf (s != t)) else round (s != t) (a * 2 ^ 1074) b
  | nan, _ | _, nan => nan
  | inf _, inf _ => nan
  | inf s, finite t _ => inf (s != t)
  | finite s _, inf t => finite (s != t) 0

/-- `int(x)` on amd64: truncation towards zero, and `math.MinInt64` when that is out of range. -/
def toInt : F64 → Int
  | finite s a =>
    let v : Int := if s then -((a / 2 ^ 1074 : Nat) : Int) else (a / 2 ^ 1074 : Nat)
    if -2 ^ 63 ≤ v ∧ v < 2 ^ 63 then v else -2 ^ 63
  | _ => -2 ^ 63

/-- `math.Round`: the nearest integer, halves away from zero. -/
def roundHalfAway : F64 → F64
  | finite s a => finite s ((a + 2 ^ 1073) / 2 ^ 1074 * 2 ^ 1074)
  | x => x

/-- `time.Duration.Seconds`: `float64(d / Second) + float64(d % Second) / 1e9`, with Go's
truncated integer division. -/
def seconds (d : Int) : F64 :=
  add (ofInt (d.tdiv 1000000000)) (div (ofInt (d.tmod 1000000000)) (ofInt 1000000000))

/-! ## `math.Round` -/

set_option exponentiation.threshold 10000 in
/-- **`math.Round` of a finite double is the nearest integer**: a whole number `m` of units
`2^1074`, within half a unit of the argument, a half rounding away from zero. -/
theorem roundHalfAway_finite (neg : Bool) (a : Nat) :
    ∃ m, roundHalfAway (finite neg a) = finite neg (m * 2 ^ 1074) ∧
      m * 2 ^ 1074 ≤ a + 2 ^ 1073 ∧ a + 2 ^ 1073 < (m + 1) * 2 ^ 1074 := by
  refine ⟨(a + 2 ^ 1073) / 2 ^ 1074, rfl, Nat.div_mul_le_self _ _, ?_⟩
  rw [Nat.add_mul, Nat.one_mul]
  exact Nat.lt_div_mul_add (Nat.two_pow_pos _)

/-! ## `log2` is `Nat.log2` -/

theorem log2_eq_of_bounds {n m : Nat} (h₁ : 2 ^ m ≤ n) (h₂ : n < 2 ^ (m + 1)) :
    n.log2 = m := by
  have hn : n ≠ 0 := Nat.pos_iff_ne_zero.mp (Nat.lt_of_lt_of_le (Nat.two_pow_pos m) h₁)
  have := (Nat.le_log2 hn).mpr h₁
  have := (Nat.log2_lt hn).mpr h₂
  omega

theorem log2Below_eq : ∀ (k n : Nat), n < 2 ^ 2 ^ k → log2Below k n = n.log2
  | 0, n, h => by
    rcases Nat.lt_or_ge n 1 with h0 | h0
    · rw [Nat.lt_one_iff.mp h0, Nat.log2_zero]; rfl
    · exact (@log2_eq_of_bounds n 0 h0 h).symm
  | k + 1, n, h => by
    have hsq : 2 ^ 2 ^ (k + 1) = 2 ^ 2 ^ k * 2 ^ 2 ^ k := by
      rw [Nat.pow_succ, Nat.pow_mul, Nat.pow_two]
    rw [log2Below]
    split_ifs with hle
    · have hq : n / 2 ^ 2 ^ k < 2 ^ 2 ^ k :=
        (Nat.div_lt_iff_lt_mul (Nat.two_pow_pos _)).mpr (hsq ▸ h)
      have hq0 : n / 2 ^ 2 ^ k ≠ 0 :=
        Nat.pos_iff_ne_zero.mp (Nat.div_pos hle (Nat.two_pow_pos _))
      rw [log2Below_eq k _ hq]
      have h₁ := Nat.log2_self_le hq0
      have h₂ := @Nat.lt_log2_self (n / 2 ^ 2 ^ k)
      refine (log2_eq_of_bounds ?_ ?_).symm
      · rw [Nat.pow_add]
        exact Nat.le_trans (Nat.mul_le_mul_left _ h₁) (Nat.mul_div_le n _)
      · rw [Nat.add_assoc, Nat.pow_add]
        exact Nat.lt_of_lt_of_le (Nat.lt_mul_div_succ n (Nat.two_pow_pos _))
          (Nat.mul_le_mul_left _ h₂)
    · exact log2Below_eq k n (Nat.lt_of_not_le hle)

theorem lt_expBound : ∀ (f k n : Nat), n < 2 ^ 2 ^ (k + f) → n < 2 ^ 2 ^ expBound f k n
  | 0, _, _, h => h
  | f + 1, k, n, h => by
    rw [expBound]
    split_ifs with hk
    · exact hk
    · exact lt_expBound f (k + 1) n (by rwa [show k + 1 + f = k + (f + 1) by omega])

/-- **The computable `⌊log₂⌋` is the library's.** -/
theorem log2_eq (n : Nat) : log2 n = n.log2 := by
  refine log2Below_eq _ n (lt_expBound n 0 n ?_)
  have hn := Nat.lt_two_pow n
  calc n < 2 ^ n := hn
    _ ≤ 2 ^ 2 ^ (0 + n) := Nat.pow_le_pow_right (by decide) (by rw [Nat.zero_add]; omega)

end F64

end Yab
