/-
Costs.

A cost says how much work it takes to compute a value. Costs are numbers in single precision, so a
sum keeps 24 significant binary digits. A sum beyond all singles is infinite, and infinities of
different signs have no sum. Zero has no sign here, and what is undefined has none either.
-/
import KernelFusion.Number.Single

namespace KernelFusion

/-- What it takes to compute a value. -/
inductive Cost where
  | units (n : Int)
  | infinite (negative : Bool)
  | undefined
deriving DecidableEq, Repr, Inhabited

namespace Cost

/-- No cost at all. -/
def zero : Cost := units 0

/-- The cost nearest to a number of units. -/
def ofUnits (n : Int) : Cost :=
  if Single.round n.natAbs < Single.limit then units (Single.roundSigned n) else infinite (n < 0)

/-- The sum of two costs. -/
def add : Cost → Cost → Cost
  | units a, units b => ofUnits (a + b)
  | units _, infinite s => infinite s
  | infinite s, units _ => infinite s
  | infinite s, infinite t => if s = t then infinite s else undefined
  | _, _ => undefined

instance : Add Cost := ⟨add⟩

/-- The cost that the single with the given bit pattern stands for. -/
def ofSingle (bits : UInt32) : Cost :=
  if Single.exponent bits = 255 then
    if Single.fraction bits = 0 then infinite (Single.isNegative bits) else undefined
  else
    let n := Single.units (Single.exponent bits) (Single.fraction bits)
    units (if Single.isNegative bits then -n else n)

/-- Is a cost less than a whole number? -/
def below (c : Cost) (n : Nat) : Bool :=
  match c with
  | units a => a < n * Single.one
  | infinite negative => negative
  | undefined => false

/-- The text of a cost, with six decimal places. -/
def text : Cost → String
  | units n => (if n < 0 then "-" else "") ++ Single.unitsText n.natAbs
  | infinite negative => if negative then "-inf" else "inf"
  | undefined => "nan"

end Cost

end KernelFusion
