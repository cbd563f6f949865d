/-
The functions and operators on tensors by their written form.

Four operators fold constants; every other form records one operation. Some forms stand for
operations that no table entry has, and fail when they are applied.
-/
import KernelFusion.Tensor.Arithmetic

namespace KernelFusion

/-- What a written form means. -/
inductive TensorFunction where
  | folding (f : Arithmetic)
  | named (operation : String)
deriving DecidableEq, Repr, Inhabited

namespace TensorFunction

/-- The written forms that differ from the name of their operation, with their number of
operands. -/
def symbols : List ((String × Nat) × TensorFunction) :=
  [ (("-", 1), named "neg"),
    (("!", 1), named "not"),
    (("~", 1), named "bnot"),
    (("tofloat", 1), named "float"),
    (("toint", 1), named "int"),
    (("touint", 1), named "uint"),
    (("+", 2), folding .add),
    (("-", 2), folding .sub),
    (("*", 2), folding .mul),
    (("/", 2), folding .div),
    (("%", 2), named "mod"),
    ((">", 2), named "gt"),
    (("<", 2), named "lt"),
    ((">=", 2), named "gte"),
    (("<=", 2), named "lte"),
    (("==", 2), named "eq"),
    (("!=", 2), named "neq"),
    (("&&", 2), named "and"),
    (("||", 2), named "or"),
    (("&", 2), named "band"),
    (("|", 2), named "bor"),
    (("^", 2), named "bxor"),
    (("<<", 2), named "blshift"),
    ((">>", 2), named "brshift"),
    (("ifcond", 3), named "cond") ]

/-- The meaning of a written form with a number of operands. A form that is no symbol is the name of
its operation. -/
def ofSymbol (form : String) (arity : Nat) : TensorFunction :=
  (symbols.lookup (form, arity)).getD (named form)

/-- Applies a function to tensors. -/
def run (f : TensorFunction) (operands : List NodeId) : Build NodeId :=
  match f, operands with
  | folding op, [a, b] => Build.arithmetic op a b
  | folding op, _ => Build.apply op.operation operands
  | named op, _ => Build.apply op operands

end TensorFunction

end KernelFusion
