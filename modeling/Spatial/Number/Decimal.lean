/-!
# The shortest decimal that reads back

A positive binary32 number is `m · 2ᵉ` with `e ≥ -149`.  The real numbers that round to it are those
of an interval around it, which reaches half way to each neighbour and contains its ends exactly
when `m` is even.  The decimals with exponent `k` are the multiples of `10ᵏ`, a grid that gets
finer as `k` falls.

The shortest decimal is found on the coarsest grid that meets the interval.  If a point of a grid
lies in the interval then so does one of the two points next to the number itself, so two points
are tried on each grid, and of two hits the nearer one is taken.  All comparisons are of natural
numbers: the interval is measured in quarters of `2ᵉ` and both sides are multiplied by the powers of
two and ten that would stand in a denominator.
-/

namespace Spatial

/-- The number `digits · 10 ^ exponent`. -/
structure Decimal where
  /-- The significant digits, as one number. -/
  digits : Nat
  /-- The power of ten that the last digit counts. -/
  exponent : Int
deriving BEq, DecidableEq, Repr

namespace Decimal

/-- Which of two equally near decimals is taken. -/
inductive Tie where
  /-- The larger one. -/
  | away
  /-- The one with the even last digit. -/
  | even
deriving DecidableEq

/-- The lower end of the interval of `m · 2ᵉ`, in quarters of `2ᵉ`.  Just above a power of two the
neighbour below is only half as far away. -/
def lowerQuarters (m : Nat) (e : Int) : Nat :=
  if m = 0x800000 ∧ e > -149 then 4 * m - 1 else 4 * m - 2

/-- The upper end of the interval of `m · 2ᵉ`, in quarters of `2ᵉ`. -/
def upperQuarters (m : Nat) : Nat := 4 * m + 2

/-- The factor that a quarter of `2ᵉ` is multiplied by when it is compared with `10ᵏ`. -/
def quarterFactor (e k : Int) : Nat :=
  Nat.pow 2 (e - 2).toNat * Nat.pow 10 (-k).toNat

/-- The factor that `10ᵏ` is multiplied by when it is compared with a quarter of `2ᵉ`. -/
def gridFactor (e k : Int) : Nat :=
  Nat.pow 2 (2 - e).toNat * Nat.pow 10 k.toNat

/-- The real number `n · 10ᵏ` rounds to `m · 2ᵉ`. -/
def reads (m : Nat) (e k : Int) (n : Nat) : Bool :=
  let point := n * gridFactor e k
  let lower := lowerQuarters m e * quarterFactor e k
  let upper := upperQuarters m * quarterFactor e k
  if m % 2 = 0 then lower ≤ point && point ≤ upper else lower < point && point < upper

/-- The multiple of `10ᵏ` that rounds to `m · 2ᵉ` and is nearest to it, if there is one. -/
def onGrid? (tie : Tie) (m : Nat) (e k : Int) : Option Decimal :=
  let value := 4 * m * quarterFactor e k
  let below := value / gridFactor e k
  let above := below + 1
  let lowGap := value - below * gridFactor e k
  let highGap := above * gridFactor e k - value
  let high : Bool :=
    if lowGap = highGap then
      match tie with
      | .away => true
      | .even => below % 2 == 1
    else highGap < lowGap
  match reads m e k below, reads m e k above with
  | true, true => some ⟨if high then above else below, k⟩
  | true, false => some ⟨below, k⟩
  | false, true => some ⟨above, k⟩
  | false, false => none

/-- The shortest decimal that rounds to `m · 2ᵉ`, of those the nearest.  A binary32 number lies
below `10³⁹`, and no two of them are nearer than `10⁻⁴⁵`. -/
def shortest (tie : Tie) (m : Nat) (e : Int) : Decimal :=
  ((List.range 86).findSome? fun (i : Nat) => onGrid? tie m e (39 - i)).getD ⟨0, 0⟩

end Decimal

end Spatial
