/-
A program on its way to addresses.

`Lowers` names the graphs in front of and behind the last two passes: values go through memory, and
flat addresses are computed.
-/
import KernelFusion.Proofs.Kernel.Slots
import KernelFusion.Proofs.Pass.Flatten

namespace KernelFusion.Graph

variable {l : List Step} {kernelMode : KernelMode} {tensorMode : TensorMode} {outputs : List NodeId}
  {p s f : Graph}

/-- All passes in front of the addresses succeed on a program that functions on tensors record: `p`
is what is left for spilling, and `s` comes from spilling. -/
structure Spills (l : List Step) (kernelMode : KernelMode) (tensorMode : TensorMode)
    (outputs : List NodeId) (p s : Graph) : Prop where
  regular : Step.allRegular l
  prepare : Build.prepareIn kernelMode tensorMode outputs (Script.scene l).graph = .ok ⟨⟩ p
  spill : Build.spill p = .ok ⟨⟩ s

/-- All passes succeed: `f` has addresses. -/
structure Lowers (l : List Step) (kernelMode : KernelMode) (tensorMode : TensorMode)
    (outputs : List NodeId) (p s f : Graph) : Prop extends Spills l kernelMode tensorMode
    outputs p s where
  flatten : Build.flatten s = .ok ⟨⟩ f

namespace Spills

variable (h : Spills l kernelMode tensorMode outputs p s)

include h

lemma pruned :
    ∃ o : Graph, o.Pruned p p.order ∧ p.kernelMode = kernelMode := by
  obtain ⟨p', o, lp, hprepare, hp, hmode⟩ :=
    (Script.recorded h.regular).graph.prepareIn kernelMode tensorMode outputs
  obtain rfl : p = p' := (EStateM.Result.ok.inj (h.prepare.symm.trans hprepare)).2
  exact ⟨o, hp.lists.order ▸ hp, hmode⟩

lemma spilled : Spilled p p.order s s.order := by
  obtain ⟨o, hp, -⟩ := h.pruned
  obtain ⟨ls, hs⟩ := hp.spilled h.spill
  exact hs.lists.order ▸ hs

lemma sparse : s.Sparse s.order := h.spilled.toSparse

end Spills

lemma Lowers.lists (h : Lowers l kernelMode tensorMode outputs p s f) : f.Lists f.order := by
  obtain ⟨_, ⟨lf, hlf⟩, -⟩ := h.sparse.flattened h.flatten
  exact hlf.lists.order ▸ hlf.lists

instance {q : Graph → Graph → Graph → Prop} [∀ p s f, Decidable (q p s f)] :
    Decidable (∃ p s f, Lowers l kernelMode tensorMode outputs p s f ∧ q p s f) :=
  decidable_of_iff (Step.allRegular l ∧
    ∃ p, Build.prepareIn kernelMode tensorMode outputs (Script.scene l).graph = .ok ⟨⟩ p ∧
      ∃ s, Build.spill p = .ok ⟨⟩ s ∧ ∃ f, Build.flatten s = .ok ⟨⟩ f ∧ q p s f) <| by
    constructor
    · rintro ⟨hl, p, hprepare, s, hspill, f, hflatten, hq⟩
      exact ⟨p, s, f, ⟨⟨hl, hprepare, hspill⟩, hflatten⟩, hq⟩
    · rintro ⟨p, s, f, h, hq⟩
      exact ⟨h.regular, p, h.prepare, s, h.spill, f, h.flatten, hq⟩

end KernelFusion.Graph
