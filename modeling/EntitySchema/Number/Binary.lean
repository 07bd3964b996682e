/-!
Binary floating-point numbers as exact values: a finite number is a mantissa times a power of
two. Rounding a ratio of natural numbers to a format goes to the nearest representable value, a
tie to the even mantissa, and everything is computed with exact integers.
-/

namespace EntitySchema

/-- A finite number `mantissa * 2 ^ exponent`, an infinity, or no number at all. -/
inductive Binary where
  | finite (negative : Bool) (mantissa : Nat) (exponent : Int)
  | infinite (negative : Bool)
  | nan
  deriving DecidableEq, Repr

structure BinaryFormat where
  precision : Nat
  leastExponent : Int
  greatestExponent : Int
  deriving DecidableEq, Repr

namespace BinaryFormat

def double : BinaryFormat := ⟨53, -1074, 971⟩

def single : BinaryFormat := ⟨24, -149, 104⟩

end BinaryFormat

def scaleRatio (base : Nat) (exponent : Int) (ratio : Nat × Nat) : Nat × Nat :=
  if 0 ≤ exponent then (ratio.1 * base.pow exponent.natAbs, ratio.2)
  else (ratio.1, ratio.2 * base.pow exponent.natAbs)

namespace Binary

def zero (format : BinaryFormat) (negative : Bool) : Binary :=
  .finite negative 0 format.leastExponent

/-- The quotient rounded to the nearest whole number, a tie to the even one. -/
def roundQuotient (numerator denominator : Nat) : Nat :=
  let quotient := numerator / denominator
  let remainder := numerator % denominator
  if denominator < 2 * remainder ∨ (2 * remainder = denominator ∧ quotient % 2 = 1) then
    quotient + 1
  else quotient

def floorLog2 (numerator denominator : Nat) : Int :=
  let estimate : Int := (Nat.log2 numerator : Int) - Nat.log2 denominator
  let scaled := scaleRatio 2 (-estimate) (numerator, denominator)
  if scaled.2 ≤ scaled.1 then estimate else estimate - 1

def ofRatio (format : BinaryFormat) (negative : Bool) (numerator denominator : Nat) : Binary :=
  if numerator = 0 then zero format negative
  else
    let exponent :=
      max format.leastExponent (floorLog2 numerator denominator - (format.precision - 1))
    let scaled := scaleRatio 2 (-exponent) (numerator, denominator)
    let mantissa := roundQuotient scaled.1 scaled.2
    let (mantissa, exponent) :=
      if mantissa = Nat.pow 2 format.precision then (mantissa / 2, exponent + 1)
      else (mantissa, exponent)
    if format.greatestExponent < exponent then .infinite negative
    else .finite negative mantissa exponent

def ofInt (format : BinaryFormat) (value : Int) : Binary :=
  ofRatio format (decide (value < 0)) value.natAbs 1

def convert (format : BinaryFormat) : Binary → Binary
  | .finite negative mantissa exponent =>
    let ratio := scaleRatio 2 exponent (mantissa, 1)
    ofRatio format negative ratio.1 ratio.2
  | .infinite negative => .infinite negative
  | .nan => .nan

def isFinite : Binary → Bool
  | .finite .. => true
  | _ => false

def toInt? : Binary → Option Int
  | .finite negative mantissa exponent =>
    let ratio := scaleRatio 2 exponent (mantissa, 1)
    if ratio.1 % ratio.2 = 0 then
      let size : Int := (ratio.1 / ratio.2 : Nat)
      some (if negative then -size else size)
    else none
  | _ => none

def toBits : Binary → Nat
  | .finite negative mantissa exponent =>
    let sign := if negative then 0x8000000000000000 else 0
    let leastNormal := 0x10000000000000
    if mantissa < leastNormal then sign + mantissa
    else sign + (exponent - BinaryFormat.double.leastExponent + 1).toNat * leastNormal +
      (mantissa - leastNormal)
  | .infinite negative => if negative then 0xFFF0000000000000 else 0x7FF0000000000000
  | .nan => 0x7FF8000000000001

end Binary

end EntitySchema
