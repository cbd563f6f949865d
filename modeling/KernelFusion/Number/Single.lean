/-
Single precision numbers as natural numbers.

Every finite single is a whole multiple of `2 ^ (-149)`, the smallest positive one. Counted in
these units, the magnitudes of singles are the natural numbers below `2 ^ 277` with at most 24
significant binary digits, and rounding is a function on natural numbers. So is the text of a
single with six decimal places, which has the whole integer part and rounds to the nearest
millionth.
-/

namespace KernelFusion.Single

/-- The quotient rounded to the nearest integer, a tie to the even neighbour. -/
def roundHalfEven (num den : Nat) : Nat :=
  let q := num / den
  let r := num % den
  if 2 * r < den then q
  else if den < 2 * r then q + 1
  else if q % 2 = 0 then q
  else q + 1

/-- Rounding leaves an exact quotient as it is. -/
theorem roundHalfEven_mul (q : Nat) {den : Nat} (h : 0 < den) :
    roundHalfEven (q * den) den = q := by
  simp [roundHalfEven, h]

/-- The magnitude of the finite single with the given biased exponent and fraction, in units. A
subnormal number has no leading one. -/
def units (exponent fraction : Nat) : Nat :=
  if exponent = 0 then fraction else (fraction + Nat.pow 2 23) * Nat.pow 2 (exponent - 1)

/-- The nearest number of units with at most 24 significant binary digits, a tie to the even
neighbour. -/
def round (n : Nat) : Nat :=
  if n < Nat.pow 2 24 then n
  else
    let ulp := Nat.pow 2 (n.log2 - 23)
    roundHalfEven n ulp * ulp

/-- Rounding does not depend on the sign. -/
def roundSigned : Int → Int
  | .ofNat n => round n
  | .negSucc n => -round (n + 1)

/-- The number one, in units. -/
def one : Nat := Nat.pow 2 149

/-- Magnitudes from here on are infinite. -/
def limit : Nat := Nat.pow 2 128 * one

/-- The biased exponent of a bit pattern. -/
def exponent (bits : UInt32) : Nat := bits.toNat / Nat.pow 2 23 % 256

/-- The fraction of a bit pattern. -/
def fraction (bits : UInt32) : Nat := bits.toNat % Nat.pow 2 23

/-- The bit pattern of a whole number below `2 ^ 24`. -/
def ofNat (n : Nat) : UInt32 :=
  if n = 0 then 0
  else
    let implicit := Nat.pow 2 23
    UInt32.ofNat ((n.log2 + 127) * implicit + (n * Nat.pow 2 (23 - n.log2) - implicit))

/-- Is the sign bit set? -/
def isNegative (bits : UInt32) : Bool := Nat.pow 2 31 ≤ bits.toNat

/-! ### Six decimal places -/

/-- A number below a million with leading zeros. -/
def sixDigits (n : Nat) : String :=
  let digits := Nat.toDigits 10 n
  String.ofList (List.replicate (6 - digits.length) '0' ++ digits)

/-- The text of a finite magnitude that is given in units. -/
def unitsText (n : Nat) : String :=
  let millionths := roundHalfEven (n * 1000000) one
  toString (millionths / 1000000) ++ "." ++ sixDigits (millionths % 1000000)

/-- The text of the magnitude of a single. -/
def magnitudeText (bits : UInt32) : String :=
  if exponent bits = 255 then (if fraction bits = 0 then "inf" else "nan")
  else unitsText (units (exponent bits) (fraction bits))

/-- The text of the single with the given bit pattern. The sign is shown whenever the sign bit is
set, so also for negative zero. -/
def sixPlaces (bits : UInt32) : String :=
  if isNegative bits then "-" ++ magnitudeText bits else magnitudeText bits

end KernelFusion.Single
