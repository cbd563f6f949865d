/-
Definitions before uses when values go through memory.

A memory takes the sizes of its value, which are computed in front of the cluster of the value, and
the memory enters there as well.
-/
import KernelFusion.Proofs.Cluster.Sizes
import KernelFusion.Proofs.Kernel.Lowering
import KernelFusion.Proofs.Kernel.Order

namespace KernelFusion.Graph

variable {g o p s : Graph} {lp ls outputs : List NodeId} {es : List (NodeId × Entry)}
  {done : List (NodeId × Nat)} {n : NodeId} {a : Argument} {l : List Step} {kernelMode : KernelMode}
  {tensorMode : TensorMode}

/-- What every node takes is listed. -/
def Closed (g : Graph) : Prop := ∀ n ∈ g.order, ∀ a ∈ (g.node n).args, g.source a ∈ g.order

instance : Decidable g.Closed :=
  inferInstanceAs (Decidable (∀ n ∈ g.order, ∀ a ∈ (g.node n).args, _))

namespace Passing

section

variable (h : Passing p lp es done s ls) (hp : o.Pruned p lp)
  (hclosed : ∀ n ∈ lp, ∀ a ∈ (p.node n).args, a.source ∈ lp)

include h hp hclosed

lemma precedes_of_shape (hapart : p.SizesApart lp) (hn : n ∈ ls) (ha : a ∈ (s.node n).args)
    (hkind : a.kind = .shape) : Precedes ls a.source n := by
  have hnodup := h.chain.nodup
  have hold : ∀ {v}, v ∈ lp → a ∈ (p.node v).args → Precedes lp a.source v := fun hv hav =>
    hp.forward _ hv a hav (hclosed _ hv a hav)
  rcases h.entered n hn with hnp | ⟨e, he⟩
  · exact (hold hnp (h.mem_of_shape hnp ha hkind)).mono h.listed
  · obtain ⟨-, -, hfits⟩ := h.fits n e he
    cases e with
    | memory v =>
      have hav := hfits.sizes a ha
      refine hfits.behind _ (hold hfits.mem hav) ?_
      have happly := hapart v hfits.mem a hav hkind
      rwa [hp.source_eq hfits.mem hav] at happly
    | load v m user =>
      have hprec := hold hfits.before.left_mem (hfits.sizes a ha hkind)
      exact (hprec.mono h.listed).trans hfits.behind hnodup
    | store v m =>
      have hprec := hold (h.value_of_store he).1 (hfits.sizes a ha hkind)
      exact (hprec.mono h.listed).trans hfits.behind hnodup

lemma ordered (hapart : p.SizesApart lp) : s.Ordered ls := by
  intro n hn a ha
  by_cases hshape : a.kind = .shape
  · rw [(h.source_eq hp hn ha).2]
    exact h.precedes_of_shape hp hclosed hapart hn ha hshape
  · rcases h.precedes_or_old hn ha hshape with hprec | ⟨hnp, hold⟩
    · exact hprec
    · rw [(h.source_eq hp hn ha).2]
      exact h.precedes_of_old hp hnp hold (h.listed.subset (hclosed n hnp a hold))

end

end Passing

/-! ### Programs that functions on tensors record -/

lemma SharesSizes.setOutputs {outputs : List (NodeId × Nat)} (h : g.SharesSizes n) :
    (outputs.foldl (fun g (n, i) => g.setRole n .output i) g).SharesSizes n := by
  have hnode : ∀ v, ((outputs.foldl (fun g (n, i) => g.setRole n .output i) g).node v).op =
    (g.node v).op ∧
      ((outputs.foldl (fun g (n, i) => g.setRole n .output i) g).node v).args =
      (g.node v).args := by
    intro v
    obtain ⟨role, slot, hv⟩ := node_setOutputs outputs g v
    rw [hv]
    exact ⟨rfl, rfl⟩
  intro haccess a ha hkind
  rw [(hnode n).1] at haccess
  rw [(hnode n).2] at ha
  obtain ⟨y, hy, hay⟩ := h haccess a ha hkind
  exact ⟨y, hy, by rwa [(hnode y).2]⟩

namespace Spills

lemma sizesApart (h : Spills l kernelMode tensorMode outputs p s) : p.SizesApart p.order := by
  obtain ⟨hrecorded, htraces⟩ := Script.history h.regular (Step.allObey_free l)
  have hg := hrecorded.graph.toRecorded
  have hstart := (hg.setOutputs outputs.zipIdx).modes kernelMode tensorMode
  have hc := hstart.tidy_clusterize_order
  obtain ⟨o, hrecompute, lo, origin, hr⟩ := hc.arranged.recompute
  obtain rfl : p = o.prune :=
    (EStateM.Result.ok.inj (h.prepare.symm.trans (prepareIn_of_recompute hrecompute))).2
  have hshared : ∀ n < (Script.scene l).graph.nodes.size, (Script.scene l).graph.SharesSizes n :=
    htraces.sharesSizes
  have hapart := hr.sizesApart hc.arranged (hstart.sizesApart_clusterize fun n hn =>
    (hshared n ((labels_setOutputs _ _).2 ▸ hn)).setOutputs)
  obtain ⟨hlists, hthin, -⟩ := prune_spec hr.arranged.lists
  intro n hn a ha hkind
  rw [hlists.order, List.mem_filter] at hn
  rw [hthin.node_eq] at ha
  rw [SameCluster, hthin.node_eq, hthin.node_eq, source, target, hthin.labels]
  exact hapart n hn.1 a ha hkind

lemma ordered (h : Spills l kernelMode tensorMode outputs p s) (hclosed : p.Closed) :
    s.Ordered s.order := by
  obtain ⟨o, hp, -⟩ := h.pruned
  obtain ⟨es, done, ls, hs, -⟩ := hp.spillable.spill h.spill
  rw [hs.toLists.order]
  refine hs.ordered hp (fun n hn a ha => ?_) h.sizesApart
  rw [← hp.source_eq hn ha]
  exact hclosed n hn a ha

end Spills

end KernelFusion.Graph
