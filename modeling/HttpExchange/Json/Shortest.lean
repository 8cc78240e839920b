import HttpExchange.Text.Numeral

/-!
The shortest decimal that reads back as a given floating-point number. A finite number is `m * 2 ^ q`;
the reals that round to it lie between its neighbours' midpoints, ends included when `m` is even.
The coarsest decimal grid with a point among them gives the digits, and of two such points the
nearer one.
-/

namespace HttpExchange.Shortest

/-- A positive real as a fraction, with the ends of the interval that rounds to it, all over one
denominator. -/
structure Interval where
  low : Nat
  value : Nat
  high : Nat
  denominator : Nat
  closed : Bool

/-- The interval of the number with this significand and this power of two. At the least
significand of a binade (`edge`) the neighbour below is half as far away. -/
def interval (m : Nat) (q : Int) (edge : Bool) : Interval :=
  let up := Nat.pow 2 (q - 2).toNat
  let down := Nat.pow 2 (2 - q).toNat
  { low := (4 * m - if edge then 1 else 2) * up
    value := 4 * m * up
    high := (4 * m + 2) * up
    denominator := down
    closed := m % 2 == 0 }

/-- Whether `d` times a power of ten lies in the interval, which is scaled to that grid. -/
def Interval.holds (i : Interval) (point : Nat) : Bool :=
  if i.closed then i.low ≤ point && point ≤ i.high else i.low < point && point < i.high

/-- The point of the grid of `10 ^ p` in the interval that is nearest to the value. -/
def Interval.gridPoint? (i : Interval) (p : Int) : Option Nat :=
  let scale := Nat.pow 10 (-p).toNat
  let scaled : Interval :=
    { i with low := i.low * scale, value := i.value * scale, high := i.high * scale }
  let unit := i.denominator * Nat.pow 10 p.toNat
  let below := scaled.value / unit
  let above := below + 1
  match scaled.holds (below * unit), scaled.holds (above * unit) with
  | true, true =>
    let left := scaled.value - below * unit
    let right := above * unit - scaled.value
    if left < right || (left == right && below % 2 == 0) then some below else some above
  | true, false => some below
  | false, true => some above
  | false, false => none

/-- Looks for a point on grids from `10 ^ p` down, at most `grids` of them. -/
def Interval.search (i : Interval) : (grids : Nat) → (p : Int) → Nat × Int
  | 0, p => (0, p)
  | grids + 1, p => match i.gridPoint? p with
    | some d => (d, p)
    | none => i.search grids (p - 1)

/-- The bit that a significand has in front of its fraction. -/
def hidden : Nat := 0x10000000000000

/-- Digits and power of ten of a positive finite number, from its bits. -/
def digits (bits : UInt64) : Nat × Int :=
  let exponent := (bits >>> 52).toNat % 2048
  let fraction := bits.toNat % hidden
  let found :=
    if exponent = 0 then interval fraction (-1074) false
    else interval (hidden + fraction) (exponent - 1075) (fraction == 0 && exponent > 1)
  found.search 660 309

end HttpExchange.Shortest
