/-
Arithmetic from constants and single operations.

The four operators record at most constants and one operation, so whatever way of recording handles
these handles the operators.
-/
import KernelFusion.Proofs.Build.Shortcuts

namespace KernelFusion.Build

/-- Constants and operations on values keep a relation between graphs and give nodes that can be
operands; what is an operand stays one. -/
structure Recorder (R : Graph → Graph → Prop) (P : NodeId → Graph → Prop) : Prop where
  stable : ∀ {n : NodeId} {g g' : Graph}, P n g → R g g' → P n g'
  constant : ∀ {n : NodeId} {g : Graph}, P n g → ∀ (type : Scalar) (w : UInt32),
    Keeps R (constant type w) g P
  apply : ∀ {n : NodeId} {g : Graph} {name : String} {ns : List NodeId}, P n g →
    Operation.computes name → (∀ m ∈ ns, P m g) → Keeps R (apply name ns) g P

section Operators

variable {R : Graph → Graph → Prop} [IsPreorder Graph R] {P : NodeId → Graph → Prop} {g : Graph}
  {n m : NodeId}

lemma keeps_isConstant (value : Float32) : Keeps R (isConstant n value) g fun _ _ => True := by
  refine keeps_get_bind ?_
  dsimp only
  split
  · split
    · exact ends_pure trivial
    · exact keeps_throw
  · exact ends_pure trivial

lemma computes_operation (f : Arithmetic) : Operation.computes f.operation := by
  cases f <;> decide +kernel

namespace Recorder

lemma keeps_arithmetic (hr : Recorder R P) (f : Arithmetic) (hn : P n g) (hm : P m g) :
    Keeps R (arithmetic f n m) g P :=
  keeps_arithmetic_of (fun _ => hn) (fun _ => hm)
    (fun _ => hr.apply hm (by decide +kernel) (by simpa using hm)) (fun w _ => hr.constant hn _ w)
    (hr.apply hn (computes_operation f) (by simp [hn, hm]))

end Recorder

end Operators

end KernelFusion.Build
