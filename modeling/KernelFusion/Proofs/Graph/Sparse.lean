/-
Graphs from which nodes have been taken out.

Arguments may come from nodes that are gone, but memory still stands in front of every node that
accesses it or takes it as a value.
-/
import KernelFusion.Proofs.Graph.Tidy

namespace KernelFusion.Graph

variable {g : Graph} {l : List NodeId} {n m : NodeId}

/-- Memory stands in front of the nodes that use it for more than a size. -/
structure Sparse (g : Graph) (l : List NodeId) : Prop extends g.Formed l where
  inside : ∀ n ∈ l, ∀ x ∈ (g.node n).args, x.source < g.nodes.size
  ordered : ∀ n ∈ l, ∀ x ∈ (g.node n).args, x.kind ≠ .shape →
    (g.node x.source).isMemory → Precedes l x.source n

/-- The memory of every access is listed. -/
def MemoryListed (g : Graph) (l : List NodeId) : Prop :=
  ∀ n ∈ l, (g.node n).op.kind.accesses → ∀ m, g.memoryOf? n = some m → m ∈ l

namespace Sparse

variable (hg : g.Sparse l) (hn : n ∈ l)

include hg hn

lemma source_eq {x : Argument} (hx : x ∈ (g.node n).args) :
    g.source x = x.source := hg.labelled.source (hg.inside n hn x hx)

section

variable (hacc : (g.node n).op.kind.accesses)

include hacc

lemma isMemory_of_accesses : (g.node n).isMemory = false := by
  by_contra hmem
  obtain ⟨v, hv⟩ := (hg.regular n hn).exists_memory hacc
  obtain ⟨x, hx, hkind, -⟩ := Node.mem_labels.1 (hv ▸ List.mem_singleton_self v)
  have hshape := (hg.regular n hn).plain (by simpa using hmem) x hx
  rw [hkind] at hshape
  cases hshape

lemma memoryOf?_iff :
    g.memoryOf? n = some m ↔ (g.node n).labels .memory = [m] := by
  obtain ⟨v, hv⟩ := (hg.regular n hn).exists_memory hacc
  obtain ⟨x, hx, -, rfl⟩ := Node.mem_labels.1 (hv ▸ List.mem_singleton_self v)
  rw [memoryOf?_eq (hg.regular n hn), hv, List.head?_cons, Option.map_some,
    hg.labelled.target _ (hg.inside n hn x hx)]
  simp

lemma memoryOf?_eq_source {x : Argument} (hx : x ∈ (g.node n).args) (hkind : x.kind = .memory) :
    g.memoryOf? n = some (g.source x) := by
  obtain ⟨m, hm⟩ := (hg.regular n hn).exists_memory hacc
  have hlabel : x.source ∈ (g.node n).labels .memory := Node.mem_labels.2 ⟨x, hx, hkind, rfl⟩
  rw [hm, List.mem_singleton] at hlabel
  rw [(hg.memoryOf?_iff hn hacc).2 hm, hg.source_eq hn hx, hlabel]

end

lemma exists_argument (hm : g.memoryOf? n = some m) :
    ∃ x ∈ (g.node n).args, x.kind = .memory ∧ x.source = m := by
  obtain ⟨x, hx, hkind, hsource⟩ := exists_of_memoryOf? hm
  exact ⟨x, hx, hkind, (hg.source_eq hn hx).symm.trans hsource⟩

end Sparse

end KernelFusion.Graph
