/-
The element types of tensors.

A tensor holds 32-bit words; its scalar type says how a word is read. The type `void` belongs to
operations that produce no value, such as a store.
-/

namespace KernelFusion

/-- How the words of a tensor are read. -/
inductive Scalar where
  | float
  | uint
  | int
  | bool
  | void
deriving DecidableEq, Repr, Inhabited

namespace Scalar

/-- The name of a type in generated code and in messages. -/
def name : Scalar → String
  | float => "float"
  | uint => "uint"
  | int => "int"
  | bool => "bool"
  | void => "void"

/-- All scalar types. -/
def all : List Scalar := [float, uint, int, bool, void]

end Scalar

/-- A word read as a signed integer. -/
def signed (w : UInt32) : Int := w.toInt32.toInt

/-- The word of an integer, modulo `2 ^ 32`. -/
def word (i : Int) : UInt32 := (Int32.ofInt i).toUInt32

/-- Reading a word as a signed integer loses nothing. -/
@[simp] theorem word_signed (w : UInt32) : word (signed w) = w := by
  simp [word, signed]

/-- An integer that fits into a word is read back from its word. -/
theorem signed_word {i : Int} (lo : -2147483648 ≤ i) (hi : i < 2147483648) :
    signed (word i) = i := by
  rw [word, signed, Int32.toInt32_toUInt32, Int32.toInt_ofInt]
  exact Int.bmod_eq_of_le (by simp; omega) (by simp; omega)

/-- The number of elements of a box with the given side lengths. -/
def volume (sides : List Int) : Int := sides.foldl (· * ·) 1

/-- The number of elements of a tensor. It is kept in a signed word and wraps around. -/
def elements (shape : List Int) : Int := signed (word (volume shape))

end KernelFusion
