/-!
# Decimal numbers as IEEE doubles

`Binary64.ofDecimal` rounds a decimal number to the nearest double, ties to the even one, in
exact arithmetic.  Numbers that round beyond the largest double have no bits.
-/

namespace PluginHost.Binary64

/-- The quotient rounded to the nearest integer, a tie to the even one. -/
def roundHalfEven (num den : Nat) : Nat :=
  let q := num / den
  let r := num % den
  if den < 2 * r ∨ (2 * r = den ∧ q % 2 = 1) then q + 1 else q

/-- The bits of infinity: a magnitude has smaller ones. -/
def infinity : Nat := 0x7FF0000000000000

/-- The bit of the sign, above those of a magnitude. -/
def signBit : Nat := 0x8000000000000000

/-- The lowest bit of the exponent, in whose place the leading bit of a significand is left out. -/
def impliedBit : Nat := 0x10000000000000

/-- The bits of the double nearest to `num / den` for positive `num` and `den`, carried past
the largest double where the quotient is too large.

The unit in the last place is `2 ^ unit`, chosen so that the significand has 53 bits where the
exponent range allows it.  The sum at the end lets a significand that was rounded up to 54 bits
carry into the exponent. -/
def magnitudeBits (num den : Nat) : Nat :=
  let scale : Int := (num.log2 : Int) - (den.log2 : Int)
  let below : Bool :=
    if 0 ≤ scale then decide (num < den <<< scale.toNat)
    else decide (num <<< (-scale).toNat < den)
  let unit : Int := max (if below then scale - 53 else scale - 52) (-1074)
  let significand :=
    if 0 ≤ unit then roundHalfEven num (den <<< unit.toNat)
    else roundHalfEven (num <<< (-unit).toNat) den
  (unit + 1074).toNat * impliedBit + significand

/-- The bits of the double nearest to `digits * 10 ^ exponent` with the given sign; none if it
is beyond the largest double.

An exponent far outside the range of doubles is decided by the number of digits alone. -/
def ofDecimal (negative : Bool) (digits : Nat) (exponent : Int) : Option UInt64 :=
  let sign : Nat := if negative then signBit else 0
  let order : Int := (Nat.toDigits 10 digits).length + exponent
  if digits = 0 ∨ order < -330 then some (UInt64.ofNat sign)
  else if 310 < order then none
  else
    let bits :=
      if 0 ≤ exponent then magnitudeBits (digits * Nat.pow 10 exponent.toNat) 1
      else magnitudeBits digits (Nat.pow 10 (-exponent).toNat)
    if bits < infinity then some (UInt64.ofNat (sign + bits)) else none

/-- The exact value of finite bits as a sign, a significand and a power of two. -/
def parts (bits : UInt64) : Bool × Nat × Int :=
  let n := bits.toNat
  let exponent : Nat := n / impliedBit % 0x800
  let fraction : Nat := n % impliedBit
  let negative := decide (signBit ≤ n)
  if exponent = 0 then (negative, fraction, -1074)
  else (negative, fraction + impliedBit, (exponent : Int) - 1075)

/-- Whether the bits are those of a number. -/
def isFinite (bits : UInt64) : Bool := bits.toNat % signBit < infinity

end PluginHost.Binary64
