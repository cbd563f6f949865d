/-
The cost of a node from the costs of its operands.

In an ordered program the operands of a node stand in front of it, so their costs are final when
the sweep comes to the node, and the costs satisfy one equation for each node.
-/
import KernelFusion.Cluster.Summary
import KernelFusion.Proofs.Graph.Arranged
import KernelFusion.Proofs.Number.Cost

namespace KernelFusion

open List

namespace Graph

variable {g : Graph} {l ns : List NodeId} {n m : NodeId} {costs costs' : Array Cost}

/-! ### The sweep -/

/-- The costs after some more nodes. -/
def addCosts (g : Graph) (costs : Array Cost) (ns : List NodeId) : Array Cost :=
  ns.foldl (fun costs n => costs.setIfInBounds n (g.nodeCost costs n)) costs

lemma size_addCosts : (g.addCosts costs ns).size = costs.size := by
  induction ns generalizing costs with
  | nil => rfl
  | cons n ns ih =>
    rw [addCosts, foldl_cons]
    exact ih.trans Array.size_setIfInBounds

lemma getD_addCosts (hm : m ∉ ns) : (g.addCosts costs ns).getD m .zero = costs.getD m .zero := by
  induction ns generalizing costs with
  | nil => rfl
  | cons n ns ih =>
    obtain ⟨hmn, hm⟩ := not_or.1 (mt mem_cons.2 hm)
    rw [addCosts, foldl_cons]
    refine (ih hm).trans ?_
    rw [Array.getD_eq_getD_getElem?, Array.getD_eq_getD_getElem?, Array.getElem?_setIfInBounds_ne
      (Ne.symm hmn)]

lemma nodeCost_congr (h : ∀ a ∈ (g.node n).args, costs'.getD (g.source a) .zero = costs.getD
    (g.source a) .zero) :
    g.nodeCost costs' n = g.nodeCost costs n := by
  unfold nodeCost
  refine foldl_ext _ _ _ fun c a ha => ?_
  rw [h a ha]

lemma costs_eq_addCosts : g.costs =
    g.addCosts (Array.replicate g.nodes.size .zero) (g.order.filter g.isClustered) := rfl

lemma cost_of_size_le (hn : g.nodes.size ≤ n) : g.summary.cost n = .zero := by
  have hsize : g.summary.costs.size = g.nodes.size := size_addCosts.trans Array.size_replicate
  rw [Summary.cost, Array.getD_eq_getD_getElem?, Array.getElem?_eq_none (hsize ▸ hn),
    Option.getD_none]

lemma cost_of_not_isClustered (hn : g.isClustered n = false) : g.summary.cost n = .zero := by
  have hmem : n ∉ g.order.filter g.isClustered := fun hmem =>
    Bool.false_ne_true (hn.symm.trans (mem_filter.1 hmem).2)
  rw [Summary.cost]
  refine (getD_addCosts hmem).trans ?_
  rw [Array.getD_eq_getD_getElem?, Array.getElem?_replicate]
  split <;> rfl

/-- The single sweep leaves each node the cost its operands' final costs give it. -/
lemma cost_eq (hl : g.Lists l) (ho : g.Ordered l) (hn : n ∈ l) (hclustered : g.isClustered n) :
    g.summary.cost n = g.nodeCost g.summary.costs n := by
  obtain ⟨pre, post, hsplit⟩ := append_of_mem (mem_filter.2 ⟨hn, hclustered⟩)
  have hnodup : (pre ++ n :: post).Nodup := hsplit ▸ hl.chain.nodup.filter _
  have hcosts : g.summary.costs =
      g.addCosts (g.addCosts (Array.replicate g.nodes.size .zero) pre) (n :: post) := by
    show g.costs = _
    rw [costs_eq_addCosts, hl.order, hsplit, addCosts, foldl_append]
    rfl
  have hbound : n < (g.addCosts (Array.replicate g.nodes.size Cost.zero) pre).size := by
    rw [size_addCosts, Array.size_replicate]
    exact hl.lt_size hn
  -- when the turn of the node comes, the costs of its operands are final
  have hfinal : ∀ a ∈ (g.node n).args, g.summary.costs.getD (g.source a) .zero =
      (g.addCosts (Array.replicate g.nodes.size .zero) pre).getD (g.source a) .zero := by
    intro a ha
    have hprec := ho n hn a ha
    rw [hcosts]
    refine getD_addCosts fun hmem => ?_
    rcases mem_cons.1 hmem with heq | hmem
    · exact Precedes.irrefl hl.chain.nodup (heq ▸ hprec)
    · have hbehind : Precedes (l.filter g.isClustered) n (g.source a) :=
        hsplit ▸ Precedes.of_mem_tail hmem
      exact Precedes.asymm hprec hl.chain.nodup (hbehind.mono filter_sublist)
  rw [nodeCost_congr hfinal, Summary.cost, hcosts, addCosts, foldl_cons]
  refine (getD_addCosts (not_mem_of_nodup_append hnodup).2).trans ?_
  rw [Array.getD_eq_getD_getElem?, Array.getElem?_setIfInBounds_self_of_lt hbound, Option.getD_some]

/-! ### Costs that are not negative -/

lemma nodeCost_nonneg (hweight : .zero ≤ (g.node n).op.weight)
    (hcosts : ∀ m, .zero ≤ costs.getD m .zero) :
    .zero ≤ g.nodeCost costs n := by
  unfold nodeCost
  generalize (g.node n).op.weight = c at hweight
  induction (g.node n).args generalizing c with
  | nil => exact hweight
  | cons a args ih =>
    rw [foldl_cons]
    refine ih _ ?_
    split
    · exact Cost.add_nonneg hweight (hcosts _)
    · exact hweight

lemma addCosts_nonneg (hweight : ∀ n ∈ ns, .zero ≤ (g.node n).op.weight)
    (hcosts : ∀ m, .zero ≤ costs.getD m .zero) (m : NodeId) :
    .zero ≤ (g.addCosts costs ns).getD m .zero := by
  induction ns generalizing costs with
  | nil => exact hcosts m
  | cons n ns ih =>
    obtain ⟨hn, hweight⟩ := forall_mem_cons.1 hweight
    rw [addCosts, foldl_cons]
    refine ih hweight fun m => ?_
    rw [Array.getD_eq_getD_getElem?, Array.getElem?_setIfInBounds]
    split
    · split
      · exact nodeCost_nonneg hn hcosts
      · exact le_rfl
    · rw [← Array.getD_eq_getD_getElem?]
      exact hcosts m

/-- Where no operation has a negative cost, no node has. -/
lemma cost_nonneg (hweight : ∀ n ∈ g.order, .zero ≤ (g.node n).op.weight) (m : NodeId) :
    .zero ≤ g.summary.cost m := by
  refine addCosts_nonneg (fun n hn => hweight n (mem_filter.1 hn).1) (fun m => ?_) m
  rw [Array.getD_eq_getD_getElem?, Array.getElem?_replicate]
  split <;> exact le_rfl

end Graph

/-! ### Sums of costs -/

/-- A sum grows with its terms and with every further term. -/
lemma Cost.foldl_le_foldl {α β : Type} {counts : α → Bool} {counts' : β → Bool} {cost : α → Cost}
    {cost' : β → Cost} {as : List α} {bs : List β}
    (h : Forall₂ (fun a b => counts a → counts' b ∧ cost a ≤ cost' b) as bs)
    (hnonneg : ∀ b, zero ≤ cost' b) {x y : Cost} (hxy : x ≤ y) (hy : y + zero = y) :
    as.foldl (fun c a => if counts a then c + cost a else c) x ≤
      bs.foldl (fun c b => if counts' b then c + cost' b else c) y := by
  induction h generalizing x y with
  | nil => exact hxy
  | @cons a b as bs hab _ ih =>
    rw [foldl_cons, foldl_cons]
    cases hb : counts' b with
    | false =>
      have ha : counts a = false := by
        by_contra ha
        rw [Bool.not_eq_false] at ha
        exact Bool.false_ne_true (hb.symm.trans (hab ha).1)
      rw [if_neg (by simp [ha]), if_neg (by simp)]
      exact ih hxy hy
    | true =>
      rw [if_pos rfl]
      refine ih ?_ (add_add_zero y (cost' b))
      split
      · next ha => exact add_le_add hxy (hab ha).2
      · exact hxy.trans (le_add hy (hnonneg b))

end KernelFusion
