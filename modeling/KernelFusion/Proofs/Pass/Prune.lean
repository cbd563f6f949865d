/-
What is left when unneeded nodes are taken out.

The memory that a needed node accesses is needed as well, hence it is never taken out before the
node itself.
-/
import KernelFusion.Proofs.Graph.Removal
import KernelFusion.Proofs.Graph.Sparse
import KernelFusion.Proofs.Pass.Needed

namespace KernelFusion.Graph

open List

variable {g : Graph} {l : List NodeId} {n : NodeId} {a : Argument}

/-! ### Taking nodes out -/

/-- Is the node left when everything that is not needed has been taken out? -/
def isLeft (g : Graph) (n : NodeId) : Bool := (g.node n).isMemory || g.needed.contains n

lemma isLeft_iff (hl : g.Lists l) (ho : g.Ordered l) (hlast : g.last = l.getLast?) (hn : n ∈ l) :
    g.isLeft n ↔ (g.node n).isMemory ∨ g.IsNeeded n := by
  rw [isLeft, Bool.or_eq_true, contains_iff_mem, mem_needed_iff hl ho hlast]
  simp [hn]

lemma prune_spec (hl : g.Lists l) : g.prune.Lists (l.filter g.isLeft) ∧ g.Thinned g.prune ∧
    ∀ p : OpKind → Bool, (∀ k, p k) → g.Grouped p l →
      g.prune.Grouped p (l.filter g.isLeft) := by
  have horder := hl.order
  subst horder
  have hsub : (g.order.filter fun n =>
    !(g.node n).isMemory && !g.needed.contains n).Sublist g.order :=
    filter_sublist
  have hfilter : (g.order.filter fun n =>
      n ∉ g.order.filter fun n => !(g.node n).isMemory && !g.needed.contains n) =
      g.order.filter g.isLeft := by
    refine filter_congr fun n hn => ?_
    simp [mem_filter, hn, isLeft]
  have hwithout := hl.without (hsub.nodup hl.chain.nodup) fun n hn => hsub.subset hn
  rw [← hfilter]
  exact ⟨hwithout.lists, hwithout.toThinned, fun p hp hg => hwithout.grouped hp hg⟩

/-! ### Tidy graphs -/

lemma Tidy.source_isNeeded (ht : g.Tidy l) (hn : n ∈ l) (hneeded : g.IsNeeded n)
    (ha : a ∈ (g.node n).args) (hkind : a.kind = .memory) : g.IsNeeded (g.source a) := by
  obtain ⟨m, hm, hpath⟩ := hneeded
  rcases hpath.cases_head with rfl | ⟨v, ⟨b, hb, hkind', rfl⟩, hpath⟩
  · -- it supports the outputs, and so does what it takes
    exact (hm.takes ⟨a, ha, rfl⟩).isNeeded
  · have hunique := (ht.regular n hn).memory_unique ha hb hkind hkind'
    rw [source, hunique]
    exact ⟨m, hm, hpath⟩

lemma Tidy.mem_order_prune (ht : g.Tidy l) :
    n ∈ g.prune.order ↔ n ∈ l ∧ ((g.node n).isMemory ∨ g.IsNeeded n) := by
  rw [(prune_spec ht.lists).1.order, mem_filter]
  exact and_congr_right fun hn => isLeft_iff ht.lists ht.isOrdered ht.last hn

/-- The state when everything that is not needed has been taken out. -/
structure Pruned (g p : Graph) (l : List NodeId) : Prop extends p.Sparse l where
  thinned : g.Thinned p
  forward : ∀ n ∈ l, ∀ x ∈ (p.node n).args, x.source ∈ l → Precedes l x.source n
  accessed : ∀ n ∈ l, ∀ x ∈ (p.node n).args, x.kind = .memory → Precedes l x.source n

lemma Tidy.pruned (ht : g.Tidy l) : ∃ l', g.Pruned g.prune l' := by
  obtain ⟨hlists, hthin, hgrouped⟩ := prune_spec ht.lists
  have hleft : ∀ n ∈ l, (g.isLeft n ↔ (g.node n).isMemory ∨ g.IsNeeded n) := fun n =>
    isLeft_iff ht.lists ht.isOrdered ht.last
  refine ⟨l.filter g.isLeft, ⟨⟨⟨hlists, ht.labelled.congr hthin.nodes hthin.labels,
    hthin.recording.trans ht.recording, hgrouped _ (fun _ => rfl) ht.grouped, fun n hn => ?_,
    ht.typed.congr (fun n hn => (mem_filter.1 hn).1) (fun n => by rw [hthin.node_eq])
      (fun n => by rw [hthin.node_eq]) fun n => by rw [hthin.node_eq]⟩,
    fun n hn x hx => ?_, fun n hn x hx _ hmem => ?_⟩, hthin, fun n hn x hx hx' => ?_,
    fun n hn x hx hkind => ?_⟩⟩
  · rw [hthin.node_eq]
    exact ht.regular n (mem_filter.1 hn).1
  · rw [hthin.node_eq] at hx
    rw [hthin.nodes]
    exact ht.lists.lt_size (ht.ordered n (mem_filter.1 hn).1 x hx).left_mem
  · obtain ⟨hnl, hleftn⟩ := mem_filter.1 hn
    rw [hthin.node_eq] at hx hmem
    have hprec := ht.ordered n hnl x hx
    exact hprec.filter ((hleft _ hprec.left_mem).2 (.inl hmem)) hleftn
  · obtain ⟨hnl, hleftn⟩ := mem_filter.1 hn
    rw [hthin.node_eq] at hx
    exact (ht.ordered n hnl x hx).filter (mem_filter.1 hx').2 hleftn
  · obtain ⟨hnl, hleftn⟩ := mem_filter.1 hn
    rw [hthin.node_eq] at hx
    have hprec := ht.ordered n hnl x hx
    refine hprec.filter ((hleft _ hprec.left_mem).2 (.inr ?_)) hleftn
    rcases (hleft n hnl).1 hleftn with hmem | hneeded
    · have hshape := (ht.regular n hnl).plain hmem x hx
      rw [hkind] at hshape
      cases hshape
    · rw [← ht.source_eq hnl hx]
      exact ht.source_isNeeded hnl hneeded hx hkind

end KernelFusion.Graph
