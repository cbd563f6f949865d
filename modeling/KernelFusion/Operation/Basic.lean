/-
Operations and their overloads.

An operation has a name, the code it is written with, a cost, a kind that decides how it is
written, and a list of overloads. Types are resolved by the first overload whose inputs are exactly
the given types. An overload has a short written form: the letters of its inputs, an underscore,
and the letter of its output.
-/
import KernelFusion.Fault
import KernelFusion.Number.Cost

namespace KernelFusion

/-- The kinds of operations, which differ in how they are written and in what they may touch. -/
inductive OpKind where
  | operator
  | function
  | keyword
  | load
  | store
  | scatter
  | loop
  | conditional
  | special
  | builtin
  | memory
  | unaryOperator
  | typeCast
  | typeReinterpret
  | dimensionIndex
  | constant
deriving DecidableEq, Repr, Inhabited

/-- Does an operation of this kind read or write a memory operand? -/
def OpKind.accesses : OpKind → Bool
  | load | store | scatter => true
  | _ => false

/-- Does an operation of this kind write a memory operand? -/
def OpKind.writes : OpKind → Bool
  | store | scatter => true
  | _ => false

/-- One typing of an operation. -/
structure Overload where
  inputs : List Scalar
  output : Scalar
deriving DecidableEq, Repr, Inhabited

namespace Overload

/-- The type a letter stands for. -/
def letter? : Char → Option Scalar
  | 'f' => some .float
  | 'u' => some .uint
  | 'i' => some .int
  | 'b' => some .bool
  | _ => none

/-- Reads the part of an overload behind its underscore. The last letter decides; a further
underscore takes back what stood before it. -/
def parseOutput (output : Scalar) : List Char → Except Fault Scalar
  | [] => .ok output
  | c :: cs =>
    if c = '_' then parseOutput .void cs
    else
      match letter? c with
      | some t => parseOutput t cs
      | none => .error .overloadLetter

/-- Reads an overload; the letters in front of the first underscore are its inputs. -/
def parseChars : List Char → Except Fault Overload
  | [] => .ok ⟨[], .void⟩
  | c :: cs =>
    if c = '_' then do
      let output ← parseOutput .void cs
      return ⟨[], output⟩
    else
      match letter? c with
      | some t => do
        let rest ← parseChars cs
        return ⟨t :: rest.inputs, rest.output⟩
      | none => .error .overloadLetter

/-- Reads the written form of an overload. -/
def parse (text : String) : Except Fault Overload := parseChars text.toList

end Overload

/-- An operation of the recorded language. Its cost is the bit pattern of a single. -/
structure Operation where
  name : String
  code : String
  cost : UInt32
  kind : OpKind
  overloads : List Overload
deriving DecidableEq, Repr

instance : Inhabited Operation := ⟨⟨"", "", 0, .function, []⟩⟩

namespace Operation

/-- An operation from the written forms of its overloads. Without code of its own it is written by
its name. -/
def make (name : String) (overloads : List String) (cost : UInt32) (code : String)
    (kind : OpKind) : Except Fault Operation := do
  let parsed ← overloads.mapM Overload.parse
  return ⟨name, if code = "" then name else code, cost, kind, parsed⟩

/-- The overload that takes exactly the given types. -/
def overload? (op : Operation) (types : List Scalar) : Option Overload :=
  op.overloads.find? fun o => o.inputs = types

/-- Does some overload take the given types? -/
def accepts (op : Operation) (types : List Scalar) : Bool :=
  (op.overload? types).isSome

/-- Does some overload give this type? -/
def yields (op : Operation) (type : Scalar) : Bool :=
  op.overloads.any fun o => o.output = type

/-- The result type on operands of the given types. -/
def resultType (op : Operation) (types : List Scalar) : Except Fault Scalar :=
  match op.overload? types with
  | some o => .ok o.output
  | none => .error .overloadMissing

/-- What one execution costs. -/
def weight (op : Operation) : Cost := Cost.ofSingle op.cost

/-- The number of operands, read off the first overload. -/
def arity? (op : Operation) : Option Nat :=
  op.overloads.head?.map fun o => o.inputs.length

end Operation

end KernelFusion
