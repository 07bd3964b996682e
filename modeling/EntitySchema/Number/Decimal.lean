import EntitySchema.Number.Binary
import EntitySchema.Text.Basic

/-!
Decimal numbers as text. Reading takes digits with an optional fraction and exponent; writing a
binary number takes the fewest digits that read back as the same number, and of those the nearest.
-/

namespace EntitySchema

structure Decimal where
  negative : Bool
  coefficient : Nat
  exponent : Int
  deriving DecidableEq, Repr

namespace Decimal

def digitCount (number : Nat) : Nat := (Nat.toDigits 10 number).length

/--
The nearest binary number. A decimal beyond `10 ^ 400` or below `10 ^ -400` is infinite or zero
in every format here, so its power of ten is never computed.
-/
def toBinary (format : BinaryFormat) (decimal : Decimal) : Binary :=
  if decimal.coefficient = 0 then Binary.zero format decimal.negative
  else
    let size : Int := digitCount decimal.coefficient + decimal.exponent
    if 400 < size then .infinite decimal.negative
    else if size < -400 then Binary.zero format decimal.negative
    else
      let ratio := scaleRatio 10 decimal.exponent (decimal.coefficient, 1)
      Binary.ofRatio format decimal.negative ratio.1 ratio.2

def readExponent? : Text → Option Int
  | [] => some 0
  | mark :: rest =>
    if mark = 0x65 || mark = 0x45 then
      match rest with
      | [] => none
      | sign :: digits =>
        let negative := sign = 0x2D
        let digits := if negative || sign = 0x2B then digits else sign :: digits
        if digits.isEmpty || !digits.all Text.isAsciiDigit then none
        else
          let size : Int := Text.digitsValue digits
          some (if negative then -size else size)
    else none

def readUnsigned? (negative : Bool) (text : Text) : Option Decimal :=
  let whole := text.takeWhile Text.isAsciiDigit
  let rest := text.dropWhile Text.isAsciiDigit
  let (fraction, rest) := match rest with
    | 0x2E :: rest => (rest.takeWhile Text.isAsciiDigit, rest.dropWhile Text.isAsciiDigit)
    | rest => ([], rest)
  if whole.isEmpty && fraction.isEmpty then none
  else
    (readExponent? rest).map fun exponent =>
      ⟨negative, Text.digitsValue (whole ++ fraction), exponent - fraction.length⟩

def read? : Text → Option Decimal
  | 0x2D :: text => readUnsigned? true text
  | 0x2B :: text => readUnsigned? false text
  | text => readUnsigned? false text

def trimZeros (fuel coefficient : Nat) (exponent : Int) : Nat × Int :=
  match fuel with
  | 0 => (coefficient, exponent)
  | fuel + 1 =>
    if coefficient % 10 = 0 ∧ coefficient ≠ 0 then
      trimZeros fuel (coefficient / 10) (exponent + 1)
    else (coefficient, exponent)

def trim (decimal : Decimal) : Decimal :=
  let (coefficient, exponent) :=
    trimZeros (digitCount decimal.coefficient) decimal.coefficient decimal.exponent
  ⟨decimal.negative, coefficient, exponent⟩

def exact (negative : Bool) (mantissa : Nat) (exponent : Int) : Decimal :=
  if 0 ≤ exponent then ⟨negative, mantissa * Nat.pow 2 exponent.natAbs, 0⟩
  else ⟨negative, mantissa * Nat.pow 5 exponent.natAbs, exponent⟩

def floorLog10 (ratio : Nat × Nat) : Int :=
  let estimate := Binary.floorLog2 ratio.1 ratio.2 * 30103 / 100000
  let fits (exponent : Int) : Bool :=
    let scaled := scaleRatio 10 (-exponent) ratio
    scaled.2 ≤ scaled.1
  if fits (estimate + 1) then estimate + 1
  else if fits estimate then estimate
  else estimate - 1

def neighbour? (format : BinaryFormat) (target : Binary) (negative : Bool) (ratio : Nat × Nat)
    (magnitude : Int) (count : Nat) : Option Decimal :=
  let unit := magnitude - (count - 1 : Nat)
  let scaled := scaleRatio 10 (-unit) ratio
  let below : Decimal := ⟨negative, scaled.1 / scaled.2, unit⟩
  let above : Decimal := ⟨negative, scaled.1 / scaled.2 + 1, unit⟩
  let nearest : Decimal := ⟨negative, Binary.roundQuotient scaled.1 scaled.2, unit⟩
  let readsBack (decimal : Decimal) : Bool := decimal.toBinary format == target
  match readsBack below, readsBack above with
  | true, true => some nearest
  | true, false => some below
  | false, true => some above
  | false, false => none

/-- The fewest digits that read back as the same number, the nearest of them. -/
def shortest (format : BinaryFormat) (negative : Bool) (mantissa : Nat) (exponent : Int) :
    Decimal :=
  if mantissa = 0 then ⟨negative, 0, 0⟩
  else
    let ratio := scaleRatio 2 exponent (mantissa, 1)
    let magnitude := floorLog10 ratio
    let target := Binary.finite negative mantissa exponent
    let found := (List.range 17).findSome? fun index =>
      neighbour? format target negative ratio magnitude (index + 1)
    match found with
    | some decimal =>
      if decimal.trim.toBinary format = target then decimal.trim
      else exact negative mantissa exponent
    | none => exact negative mantissa exponent

/-- When a number is written with an exponent, and how. -/
structure Layout where
  below : Option Int
  upFrom : Option Int
  exponentWidth : Nat

namespace Layout

def positional : Layout := ⟨none, none, 0⟩

def general : Layout := ⟨some (-4), some 6, 2⟩

def json : Layout := ⟨some (-6), some 21, 1⟩

def usesExponent (layout : Layout) (magnitude : Int) : Bool :=
  layout.below.any (fun least => decide (magnitude < least)) ||
    layout.upFrom.any (fun limit => decide (limit ≤ magnitude))

end Layout

def padLeft (width : Nat) (digits : Text) : Text :=
  List.replicate (width - digits.length) 0x30 ++ digits

def renderPositional (digits : Text) (exponent : Int) : Text :=
  if 0 ≤ exponent then digits ++ List.replicate exponent.natAbs 0x30
  else
    let places := exponent.natAbs
    let padded := padLeft (places + 1) digits
    padded.take (padded.length - places) ++ utf8 "." ++ padded.drop (padded.length - places)

def renderScientific (exponentWidth : Nat) (digits : Text) (magnitude : Int) : Text :=
  let fraction := digits.drop 1
  digits.take 1 ++ (if fraction.isEmpty then [] else utf8 "." ++ fraction) ++ utf8 "e" ++
    (if magnitude < 0 then utf8 "-" else utf8 "+") ++
    padLeft exponentWidth (Text.ofNat magnitude.natAbs)

def render (layout : Layout) (decimal : Decimal) : Text :=
  let digits := Text.ofNat decimal.coefficient
  let magnitude := decimal.exponent + (digits.length - 1 : Nat)
  (if decimal.negative then utf8 "-" else []) ++
    if decimal.coefficient ≠ 0 ∧ layout.usesExponent magnitude = true then
      renderScientific layout.exponentWidth digits magnitude
    else renderPositional digits decimal.exponent

end Decimal

namespace Binary

def render (format : BinaryFormat) (layout : Decimal.Layout) : Binary → Text
  | .finite negative mantissa exponent =>
    (Decimal.shortest format negative mantissa exponent).render layout
  | .infinite true => utf8 "-Inf"
  | .infinite false => utf8 "+Inf"
  | .nan => utf8 "NaN"

def readDouble? (text : Text) : Option Binary :=
  match Decimal.read? text with
  | none => none
  | some decimal =>
    let value := decimal.toBinary .double
    if value.isFinite then some value else none

end Binary

end EntitySchema
