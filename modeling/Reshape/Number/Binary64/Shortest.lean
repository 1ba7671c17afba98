import Reshape.Number.Binary64

/-!
Shortest numerals: the fewest digits that read back as the same number, and of those the nearest to
it. `decimalOf` finds them on the decimal grids from the coarsest on; `toNumeral` lays them out.
-/

namespace Reshape.Binary64

/-- The exponent of the first digit of a positive quotient. -/
def leadingPower (numerator denominator : Nat) : Int :=
  if denominator ≤ numerator then (Digit.ofNat (numerator / denominator)).length - 1
  else -(Digit.ofNat ((denominator - 1) / numerator)).length

/-- The reals that round to a number, in quarters of its last unit: the number itself, how far they
reach below and above it, and whether the two ends belong to them. -/
structure Interval where
  centre : Nat
  below : Nat
  above : Nat
  closed : Bool

/-- Below a power of two the numbers lie twice as close. -/
def intervalOf (significand : Nat) (exponent : Int) : Interval where
  centre := 4 * significand
  below := if significand = leadingBit ∧ -1074 < exponent then 1 else 2
  above := 2
  closed := significand % 2 == 0

/-- Whether the grid point `point` lies in the interval, a quarter unit being `unit / grid` of the
distance of two grid points. -/
def Interval.holds (i : Interval) (unit grid point : Nat) : Bool :=
  let least := (i.centre - i.below) * unit
  let greatest := (i.centre + i.above) * unit
  if i.closed then least ≤ point * grid && point * grid ≤ greatest
  else least < point * grid && point * grid < greatest

/-- The nearer of the two grid points around the centre that lie in the interval; of two equally
near ones the even point. -/
def Interval.gridPoint? (i : Interval) (unit grid : Nat) : Option Nat :=
  let low := i.centre * unit / grid
  let r := i.centre * unit % grid
  match i.holds unit grid low, i.holds unit grid (low + 1) with
  | true, true =>
    some (if 2 * r < grid then low else if grid < 2 * r then low + 1 else low + low % 2)
  | true, false => some low
  | false, true => some (low + 1)
  | false, false => none

/-- The first of `count` grids, each ten times finer than the one before, that has a point in the
interval; the point and the grid's power of ten. -/
def searchGrids (i : Interval) (numerator denominator : Nat) : Nat → Int → Option (Nat × Int)
  | 0, _ => none
  | count + 1, power =>
    match i.gridPoint? (numerator * tenPow (-power).toNat) (denominator * tenPow power.toNat) with
    | some point => some (point, power)
    | none => searchGrids i numerator denominator count (power - 1)

/-- The shortest decimal `point * 10 ^ power` of a positive number. Seventeen digits are always
enough. -/
def decimalOf (significand : Nat) (exponent : Int) : Nat × Int :=
  let quarter := exponent - 2
  let numerator := twoPow quarter.toNat
  let denominator := twoPow (-quarter).toNat
  let lead := leadingPower (4 * significand * numerator) denominator
  (searchGrids (intervalOf significand exponent) numerator denominator 17 lead).getD (0, 0)

/-- Plain notation is used while the first digit stands at most five places after the point or
sixteen before it. -/
def layOut (negative : Bool) (ds : List Digit) (lead : Int) : Numeral :=
  if 0 ≤ lead ∧ lead ≤ 15 then
    let places := lead.toNat + 1
    let fraction := ds.drop places
    ⟨negative, ds.take places ++ List.replicate (places - ds.length) Digit.zero,
      some (if fraction.isEmpty then [Digit.zero] else fraction), none⟩
  else if -5 ≤ lead ∧ lead < 0 then
    ⟨negative, [Digit.zero], some (List.replicate (-lead - 1).toNat Digit.zero ++ ds), none⟩
  else
    ⟨negative, ds.take 1, if ds.length ≤ 1 then none else some (ds.drop 1),
      some ⟨lead < 0, Digit.ofNat lead.natAbs⟩⟩

/-- The shortest numeral of a finite number; it has a point or an exponent. -/
def toNumeral? : Binary64 → Option Numeral
  | finite s m e =>
    if m = 0 then some ⟨s, [Digit.zero], some [Digit.zero], none⟩
    else
      let (point, power) := decimalOf m e
      let ds := Digit.ofNat point
      let lead := power + ds.length - 1
      some (layOut s (ds.reverse.dropWhile (·.val == 0)).reverse lead)
  | _ => none

end Reshape.Binary64
