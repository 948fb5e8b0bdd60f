import Questionnaire.Decimal.Basic

/-! # Shortest decimals

A binary64 number is written with the fewest decimal digits that no other such
number lies closer to; of two such decimals the nearer one is taken, and the
even one on a tie.
-/

namespace Questionnaire.Decimal

/-- A positive number `center · 2 ^ scale` with the ends of the interval that rounds to
it, in the same scale. -/
structure Neighbourhood where
  low : Nat
  center : Nat
  high : Nat
  scale : Int
  closed : Bool

namespace Neighbourhood

/-- The neighbourhood of `m · 2 ^ q`; the gap below a power of two is half as wide. -/
def ofBinary (m : Nat) (q : Int) (narrow : Bool) : Neighbourhood where
  low := if narrow then 4 * m - 1 else 4 * m - 2
  center := 4 * m
  high := 4 * m + 2
  scale := q - 2
  closed := m % 2 = 0

/-- Factors that bring `x · 2 ^ scale` and `y · 10 ^ k` to natural numbers. -/
def factors (n : Neighbourhood) (k : Int) : Nat × Nat :=
  (Nat.pow 2 n.scale.toNat * Nat.pow 10 (-k).toNat,
    Nat.pow 2 (-n.scale).toNat * Nat.pow 10 k.toNat)

def contains (n : Neighbourhood) (c : Nat) (k : Int) : Bool :=
  let (binary, decimal) := n.factors k
  if n.closed then n.low * binary ≤ c * decimal && c * decimal ≤ n.high * binary
  else n.low * binary < c * decimal && c * decimal < n.high * binary

/-- The point of the grid of multiples of `10 ^ k` that stands for the number, if one of
its two neighbours on the grid does. -/
def onGrid? (n : Neighbourhood) (k : Int) : Option Nat :=
  let (binary, decimal) := n.factors k
  let down := n.center * binary / decimal
  let up := down + 1
  let below := n.center * binary - down * decimal
  let above := up * decimal - n.center * binary
  let preferDown := below < above || (below = above && down % 2 = 0)
  match n.contains down k, n.contains up k with
  | true, true => some (if preferDown then down else up)
  | true, false => some down
  | false, true => some up
  | false, false => none

/-- Coefficient and exponent on the coarsest grid with a point for the number. -/
def coarsest (n : Neighbourhood) : Nat → Int → Nat × Int
  | 0, k => ((n.onGrid? k).getD 0, k)
  | fuel + 1, k =>
    match n.onGrid? k with
    | some c => (c, k)
    | none => coarsest n fuel (k - 1)

end Neighbourhood

/-- The shortest decimal of a finite binary64 number. -/
def ofFloat (x : Float) : Decimal :=
  let bits : Nat := x.toBits.toNat
  let fraction : Nat := bits % Nat.pow 2 52
  let biased : Nat := bits / Nat.pow 2 52 % Nat.pow 2 11
  let negative := Nat.pow 2 63 ≤ bits
  if fraction = 0 ∧ biased = 0 then ⟨negative, 0, 0⟩
  else
    let n :=
      if biased = 0 then Neighbourhood.ofBinary fraction (-1074) false
      else Neighbourhood.ofBinary (Nat.pow 2 52 + fraction) ((biased : Int) - 1075)
        (fraction = 0 && 1 < biased)
    let (c, k) := n.coarsest 660 310
    ⟨negative, c, k⟩

end Questionnaire.Decimal
