namespace CrateAudit.Number

structure Double where
  bits : UInt64
deriving DecidableEq

namespace Double

def negative (x : Double) : Bool :=
  Nat.pow 2 63 ≤ x.bits.toNat

def magnitude (x : Double) : Nat :=
  x.bits.toNat % Nat.pow 2 63

/-- What the bits stand for: a finite number is its sign times `mantissa * 2 ^ exponent`. -/
inductive Kind where
  | notANumber
  | infinite
  | finite (mantissa : Nat) (exponent : Int)

def kind (x : Double) : Kind :=
  let e : Nat := x.magnitude / Nat.pow 2 52
  let f : Nat := x.magnitude % Nat.pow 2 52
  if e = 2047 then if f = 0 then .infinite else .notANumber
  else if e = 0 then .finite f (-1074)
  else .finite (Nat.pow 2 52 + f) ((e : Int) - 1075)

def isZero (x : Double) : Bool :=
  x.magnitude == 0

def ofMagnitude (negative : Bool) (n : Nat) : Double :=
  ⟨UInt64.ofNat (if negative then Nat.pow 2 63 + n else n)⟩

def infinity (negative : Bool) : Double :=
  ofMagnitude negative (2047 * Nat.pow 2 52)

def nan : Double :=
  ofMagnitude false (2047 * Nat.pow 2 52 + Nat.pow 2 51)

/-- The quotient `n / d` to the nearest integer, a half to the even one. -/
def roundDiv (n d : Nat) : Nat :=
  let q := n / d
  let r := n % d
  if 2 * r < d then q
  else if d < 2 * r then q + 1
  else if q % 2 = 0 then q else q + 1

/-- The numerator and denominator of `n / d * 2 ^ (-q)`. -/
def scaled (n d : Nat) (q : Int) : Nat × Nat :=
  (n * Nat.pow 2 (-q).toNat, d * Nat.pow 2 q.toNat)

/-- The number nearest to `n / d`, both positive; a half goes to the even mantissa, too much to
infinity. -/
def ofRatio (negative : Bool) (n d : Nat) : Double :=
  let low : Int := max (-1074) ((Nat.log2 n : Int) - Nat.log2 d - 53)
  let (a, b) := scaled n d low
  let q := if Nat.pow 2 53 ≤ a / b then low + 1 else low
  let (a, b) := scaled n d q
  let m := roundDiv a b
  let mag := if m < Nat.pow 2 52 then m else (q + 1074).toNat * Nat.pow 2 52 + m
  if 2047 * Nat.pow 2 52 ≤ mag then infinity negative else ofMagnitude negative mag

def digitCount (n : Nat) : Nat :=
  (Nat.toDigits 10 n).length

def ofDecimal (negative : Bool) (m : Nat) (e : Int) : Double :=
  let top := e + digitCount m
  if m = 0 ∨ top < -400 then ofMagnitude negative 0
  else if 400 < top then infinity negative
  else ofRatio negative (m * Nat.pow 10 e.toNat) (Nat.pow 10 (-e).toNat)

def truncate? (x : Double) : Option Int :=
  match x.kind with
  | .finite m q =>
    let n : Int := m * Int.pow 2 q.toNat / Int.pow 2 (-q).toNat
    some (if x.negative then -n else n)
  | _ => none

end Double

end CrateAudit.Number
