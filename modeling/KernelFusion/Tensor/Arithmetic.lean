/-
Arithmetic with constant folding.

The four operators look at constant operands before they record anything. A neutral operand is
dropped, a product with zero is zero, and two constants are computed at once. The type of a folded
constant is that of the left operand, and its words are read accordingly on both sides.
-/
import KernelFusion.Tensor.Factory

namespace KernelFusion

/-- The four operators that fold. -/
inductive Arithmetic where
  | add
  | sub
  | mul
  | div
deriving DecidableEq, Repr, Inhabited

namespace Arithmetic

/-- The name of the operation that is recorded if nothing folds. -/
def operation : Arithmetic → String
  | add => "add"
  | sub => "sub"
  | mul => "mul"
  | div => "div"

/-- The operator on singles. -/
def onFloats : Arithmetic → Float32 → Float32 → Float32
  | add => (· + ·)
  | sub => (· - ·)
  | mul => (· * ·)
  | div => (· / ·)

/-- The operator on unsigned words. -/
def onWords : Arithmetic → UInt32 → UInt32 → UInt32
  | add => (· + ·)
  | sub => (· - ·)
  | mul => (· * ·)
  | div => (· / ·)

/-- The operator on words read by a type; there is none on truth values. Sums, differences and
products of signed words are those of unsigned words, while a signed quotient goes toward zero. -/
def evaluate (f : Arithmetic) (type : Scalar) (a b : UInt32) : Option UInt32 :=
  match type with
  | .float => some (f.onFloats (Float32.ofBits a) (Float32.ofBits b)).toBits
  | .uint => some (f.onWords a b)
  | .int =>
    match f with
    | div => some (a.toInt32 / b.toInt32).toUInt32
    | _ => some (f.onWords a b)
  | .bool | .void => none

end Arithmetic

/-- Is a constant of the given type and word equal to a number? Integers are compared after
conversion to single precision. -/
def constantEquals (type : Scalar) (w : UInt32) (value : Float32) : Except Fault Bool :=
  match type with
  | .float => .ok (Float32.ofBits w == value)
  | .int => .ok (Float32.ofInt (signed w) == value)
  | .uint => .ok (Float32.ofNat w.toNat == value)
  | .bool | .void => .error .constantType

namespace Build

/-- Is a node a constant equal to a number? -/
def isConstant (n : NodeId) (value : Float32) : Build Bool := do
  let entry := (← get).node n
  if entry.isConst then
    match constantEquals entry.type entry.word value with
    | .ok b => return b
    | .error e => throw e
  else
    return false

/-- The constant zero in a number type. -/
def zero? (type : Scalar) : Option (Build NodeId) :=
  match type with
  | .float | .int | .uint => some (constant type 0)
  | .bool | .void => none

/-- Computes two constants at once, or records the operation. -/
def foldOrApply (f : Arithmetic) (a b : NodeId) : Build NodeId := do
  let g ← get
  let left := g.node a
  let right := g.node b
  if left.isConst && right.isConst then
    match f.evaluate left.type left.word right.word with
    | some w => constant left.type w
    | none => apply f.operation [a, b]
  else
    apply f.operation [a, b]

/-- An operator with a neutral number: `front` is done if the left operand is that number, and the
left operand is given if the right one is. -/
def pastNeutral (f : Arithmetic) (neutral : Float32) (front : Build NodeId) (a b : NodeId) :
    Build NodeId := do
  if ← isConstant a neutral then front
  else if ← isConstant b neutral then return a
  else foldOrApply f a b

/-- The sum. -/
def add (a b : NodeId) : Build NodeId := pastNeutral .add 0 (pure b) a b

/-- The difference; taken from zero it is the negation. -/
def sub (a b : NodeId) : Build NodeId := pastNeutral .sub 0 (apply "neg" [b]) a b

/-- The product without a factor zero. -/
def mulNonzero (a b : NodeId) : Build NodeId := pastNeutral .mul 1 (pure b) a b

/-- Is one of two nodes the constant zero? The second is looked at only if the first is not. -/
def eitherZero (a b : NodeId) : Build Bool := do
  if ← isConstant a 0 then return true else isConstant b 0

/-- The product. -/
def mul (a b : NodeId) : Build NodeId := do
  if ← eitherZero a b then
    match zero? ((← get).node a).type with
    | some constantZero => constantZero
    | none => mulNonzero a b
  else
    mulNonzero a b

/-- The quotient of a dividend that is not the constant zero. -/
def divNonzero (a b : NodeId) : Build NodeId := do
  if ← isConstant b 1 then return a else foldOrApply .div a b

/-- The quotient. -/
def div (a b : NodeId) : Build NodeId := do
  if ← isConstant a 0 then
    match zero? ((← get).node a).type with
    | some constantZero => constantZero
    | none => divNonzero a b
  else
    divNonzero a b

/-- An operator with folding. -/
def arithmetic : Arithmetic → NodeId → NodeId → Build NodeId
  | .add => add
  | .sub => sub
  | .mul => mul
  | .div => div

end Build

end KernelFusion
