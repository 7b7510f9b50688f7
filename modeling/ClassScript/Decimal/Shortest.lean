import ClassScript.Decimal.Binary

set_option autoImplicit false

/-!
# Decimal: the fewest digits that read back

The reals that round to a given double form an interval around it, half-way to each neighbour; the
two ends belong to it exactly when the mantissa is even.  A decimal reads back to the double when
it lies in that interval.  The shortest decimal is sought on the grids `10 ^ k`, coarse ones first:
if any point of a grid lies in the interval, then so does the point of the grid just below the value
or the one just above it.  The first grid with a hit wins, of two hits the nearer one, and an exact
tie is left to the format that asks.
-/

namespace ClassScript.Decimal

/-- The non-negative decimal `digits * 10 ^ exponent`. -/
structure Scaled where
  digits : Nat
  exponent : Int
  deriving DecidableEq, Repr, Inhabited

/-- Which of two equally near candidates is written. -/
inductive Tie where
  | toEven
  | awayFromZero
  deriving DecidableEq, Repr, Inhabited

/-- Quarters of the last binary place and points of a decimal grid, both counted in one common
unit: a quarter is `quarter` of them and one step of the grid is `step` of them. -/
structure Ruler where
  quarter : Nat
  step : Nat
  deriving Repr

/-- The ruler for a last binary place `2 ^ binary` and the grid `10 ^ decimal`. -/
def Ruler.of (binary decimal : Int) : Ruler where
  quarter := Nat.pow 2 (binary - 2).toNat * Nat.pow 10 (-decimal).toNat
  step := Nat.pow 10 decimal.toNat * Nat.pow 2 (2 - binary).toNat

namespace Binary

/-- The lower end of the interval that reads back, in quarters of the last place. -/
def lowerEnd (x : Binary) : Nat :=
  if x.narrowBelow then 4 * x.mantissa - 1 else 4 * x.mantissa - 2

/-- The upper end of the interval that reads back, in quarters of the last place. -/
def upperEnd (x : Binary) : Nat :=
  4 * x.mantissa + 2

/-- Whether `point` steps of the grid read back to `x`. -/
def readsBack (x : Binary) (ruler : Ruler) (point : Nat) : Bool :=
  let place := point * ruler.step
  let low := x.lowerEnd * ruler.quarter
  let high := x.upperEnd * ruler.quarter
  if x.mantissa % 2 = 0 then low ≤ place && place ≤ high else low < place && place < high

/-- The point of the grid `10 ^ k` that stands for `x`, if one reads back. -/
def onGrid? (x : Binary) (tie : Tie) (k : Int) : Option Nat :=
  let ruler := Ruler.of x.exponent k
  let value := 4 * x.mantissa * ruler.quarter
  let below := value / ruler.step
  match x.readsBack ruler below, x.readsBack ruler (below + 1) with
  | false, false => none
  | true, false => some below
  | false, true => some (below + 1)
  | true, true =>
    match compare (2 * value) ((2 * below + 1) * ruler.step), tie with
    | .lt, _ => some below
    | .gt, _ => some (below + 1)
    | .eq, .awayFromZero => some (below + 1)
    | .eq, .toEven => some (below + below % 2)

/-- A power of ten above the value, or at most one step below it. -/
def decimalCeiling (x : Binary) : Int :=
  ((x.mantissa.log2 : Int) + 1 + x.exponent) * 30103 / 100000 + 1

/-- The first hit on `count` grids, the coarsest being `10 ^ k`. -/
def searchFrom (x : Binary) (tie : Tie) : Nat → Int → Option Scaled
  | 0, _ => none
  | count + 1, k =>
    match x.onGrid? tie k with
    | some digits => some { digits, exponent := k }
    | none => searchFrom x tie count (k - 1)

/-- The exact decimal value, which always reads back. -/
def exactDecimal (x : Binary) : Scaled :=
  if 0 ≤ x.exponent then
    { digits := x.mantissa * Nat.pow 2 x.exponent.toNat, exponent := 0 }
  else
    { digits := x.mantissa * Nat.pow 5 (-x.exponent).toNat, exponent := x.exponent }

/-- The shortest decimal that reads back.  Seventeen digits always suffice; the search starts a
little above the leading digit, and the exact value stands behind it. -/
def shortest (x : Binary) (tie : Tie) : Scaled :=
  if x.mantissa = 0 then { digits := 0, exponent := 0 }
  else (x.searchFrom tie 24 x.decimalCeiling).getD x.exactDecimal

/-- What a grid offers reads back. -/
theorem readsBack_of_onGrid? {x : Binary} {tie : Tie} {k : Int} {point : Nat}
    (h : x.onGrid? tie k = some point) :
    x.readsBack (Ruler.of x.exponent k) point = true := by
  simp only [onGrid?] at h
  split at h
  · cases h
  · cases h; assumption
  · cases h; assumption
  · rename_i hb ha
    have hboth : ∀ i, i < 2 → x.readsBack (Ruler.of x.exponent k)
        (4 * x.mantissa * (Ruler.of x.exponent k).quarter / (Ruler.of x.exponent k).step + i)
          = true
      | 0, _ => hb
      | 1, _ => ha
    split at h <;> cases h <;> try assumption
    exact hboth _ (Nat.mod_lt _ (by omega))

/-- The search answers with a point of one of its grids that reads back. -/
theorem readsBack_of_searchFrom {x : Binary} {tie : Tie} {count : Nat} {k : Int} {d : Scaled}
    (h : x.searchFrom tie count k = some d) :
    x.readsBack (Ruler.of x.exponent d.exponent) d.digits = true := by
  induction count generalizing k with
  | zero => cases h
  | succ count ih =>
    simp only [searchFrom] at h
    split at h
    · rename_i hit
      cases h
      exact readsBack_of_onGrid? hit
    · exact ih h

/-- No coarser grid of the search holds a decimal that reads back. -/
theorem onGrid?_eq_none_of_searchFrom {x : Binary} {tie : Tie} {count : Nat} {k j : Int}
    {d : Scaled} (h : x.searchFrom tie count k = some d) (hj : d.exponent < j) (hk : j ≤ k) :
    x.onGrid? tie j = none := by
  induction count generalizing k with
  | zero => cases h
  | succ count ih =>
    simp only [searchFrom] at h
    split at h
    · cases h
      simp only at hj
      omega
    · rename_i miss
      by_cases e : j = k
      · rw [e]; exact miss
      · exact ih h (by omega)

end Binary

end ClassScript.Decimal
