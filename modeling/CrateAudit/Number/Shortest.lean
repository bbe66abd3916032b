import CrateAudit.Number.Double

namespace CrateAudit.Number

/-- The real numbers that round to a positive double `mantissa * 2 ^ exponent`, scaled by four: from
`low` to `high` in units of `2 ^ exponent / 4`, the ends included when the mantissa is even. -/
structure Interval where
  mantissa : Nat
  exponent : Int
  low : Nat
  high : Nat

namespace Interval

/-- Below a power of two the next double is only half as far away. -/
def around (m : Nat) (q : Int) : Interval where
  mantissa := m
  exponent := q
  low := if m = Nat.pow 2 52 ∧ -1074 < q then 4 * m - 1 else 4 * m - 2
  high := 4 * m + 2

/-- The point `n / 4 * 2 ^ exponent` over the common denominator of the grid `10 ^ k`. -/
def point (i : Interval) (k : Int) (n : Nat) : Nat :=
  n * Nat.pow 2 i.exponent.toNat * Nat.pow 10 (-k).toNat

def grid (i : Interval) (k : Int) (c : Nat) : Nat :=
  c * Nat.pow 10 k.toNat * (4 * Nat.pow 2 (-i.exponent).toNat)

def contains (i : Interval) (k : Int) (c : Nat) : Bool :=
  let x := i.grid k c
  let lo := i.point k i.low
  let hi := i.point k i.high
  if i.mantissa % 2 = 0 then lo ≤ x && x ≤ hi else lo < x && x < hi

/-- The grid point nearest to the double among its two neighbours on the grid that round to it. -/
def nearest? (i : Interval) (k : Int) : Option Nat :=
  let v := i.point k (4 * i.mantissa)
  let c := v / i.grid k 1
  match i.contains k c, i.contains k (c + 1) with
  | true, true =>
    let middle := i.grid k c + i.grid k (c + 1)
    if 2 * v < middle then some c
    else if middle < 2 * v then some (c + 1)
    else some (if c % 2 = 0 then c else c + 1)
  | true, false => some c
  | false, true => some (c + 1)
  | false, false => none

def magnitude (i : Interval) : Int :=
  let n := i.mantissa * Nat.pow 2 i.exponent.toNat
  let d := Nat.pow 2 (-i.exponent).toNat
  if d ≤ n then (Double.digitCount (n / d) : Int) - 1
  else -(Double.digitCount ((d - 1) / n) : Int)

/-- The fewest decimal digits that read back as the double, as a number and a power of ten.
Seventeen are always enough. -/
def shortest (i : Interval) : Nat × Int :=
  let e := i.magnitude
  let found := (List.range 17).findSome? fun (n : Nat) =>
    (i.nearest? (e - n)).map fun c => (c, e - n)
  found.getD (0, 0)

end Interval

structure DecimalFormat where
  /-- Decimal exponents from here on are written positionally, -/
  least : Int
  /-- up to but not including this one. -/
  beyond : Int
  notANumber : String
  infinite : String

def exponentText (e : Int) : List Char :=
  let ds := Nat.toDigits 10 e.natAbs
  (if e < 0 then '-' else '+') :: (if ds.length < 2 then '0' :: ds else ds)

def positional (ds : List Char) (point : Int) : List Char :=
  if point ≤ 0 then '0' :: '.' :: List.replicate (-point).toNat '0' ++ ds
  else if (ds.length : Int) ≤ point then
    ds ++ List.replicate (point.toNat - ds.length) '0' ++ ['.', '0']
  else ds.take point.toNat ++ '.' :: ds.drop point.toNat

def scientific (ds : List Char) (e : Int) : List Char :=
  match ds with
  | [] => []
  | [d] => d :: 'e' :: exponentText e
  | d :: rest => d :: '.' :: rest ++ 'e' :: exponentText e

def dropZeros (ds : List Char) : List Char :=
  (ds.reverse.dropWhile (· == '0')).reverse

namespace Double

def write (format : DecimalFormat) (x : Double) : String :=
  let sign := if x.negative then ['-'] else []
  match x.kind with
  | .notANumber => format.notANumber
  | .infinite => String.ofList sign ++ format.infinite
  | .finite m q =>
    if m = 0 then String.ofList (sign ++ ['0', '.', '0'])
    else
      let (c, k) := (Interval.around m q).shortest
      let all := Nat.toDigits 10 c
      let e := k + all.length - 1
      let ds := dropZeros all
      String.ofList (sign ++
        if format.least ≤ e ∧ e < format.beyond then positional ds (e + 1) else scientific ds e)

end Double

end CrateAudit.Number
