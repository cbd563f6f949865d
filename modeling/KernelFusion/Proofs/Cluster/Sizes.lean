/-
Where sizes come from.

The sizes of a shape have to be complete before a kernel starts: no node takes a size from its own
cluster. An edge with a size separates, and copies take sizes from in front of their cluster.
-/
import KernelFusion.Proofs.Pass.Recompute
import KernelFusion.Proofs.Recording.Invariants

namespace KernelFusion.Graph

open List

variable {g g' c : Graph} {l : List NodeId} {n : NodeId} {policy : Policy} {done : List ClusterId}
  {origin : NodeId → NodeId}

/-- No listed node takes a size from its own cluster. -/
def SizesApart (g : Graph) (l : List NodeId) : Prop :=
  ∀ n ∈ l, ∀ a ∈ (g.node n).args, a.kind = .shape → ¬ g.SameCluster (g.source a) n

/-! ### Recorded graphs -/

/-- An access takes every size that it has from an earlier node. -/
def SharesSizes (g : Graph) (n : NodeId) : Prop :=
  (g.node n).op.kind.accesses →
    ∀ a ∈ (g.node n).args, a.kind = .shape → ∃ y < n, a ∈ (g.node y).args

lemma Admits.sharesSizes {op : Operation} {type : Scalar} {args : List Argument}
    (hall : ∀ m < g.nodes.size, g.SharesSizes m) (ha : g.Admits policy op type args)
    (haccess : op.kind.accesses) :
    ∀ a ∈ args, a.kind = .shape → ∃ y < g.nodes.size, a ∈ (g.node y).args := by
  intro a hmem hkind
  cases ha with
  | value _ _ hnot _ _ _ _ =>
    rw [haccess] at hnot
    cases hnot
  | @access _ _ m is _ ls _ _ _ _ hm his _ _ _ _ hshape =>
    have hls : a ∈ block .shape ls := by
      simp only [mem_append] at hmem
      rcases hmem with ((hmem | hmem) | hmem) | hmem
      · cases (kind_of_mem_block hmem).symm.trans hkind
      · cases (kind_of_mem_block hmem).symm.trans hkind
      · cases (kind_of_mem_block hmem).symm.trans hkind
      · exact hmem
    have hfirst : g.Offers policy (is.headD m) := by
      cases is with
      | nil => exact hm
      | cons i is => exact his i mem_cons_self
    rw [← hshape] at hls
    exact ⟨_, hfirst.1, (Node.mem_arguments.1 hls).1⟩
  | source _ _ hnot _ _ =>
    rw [haccess] at hnot
    cases hnot
  | @copy m hm =>
    obtain ⟨y, hy, hay⟩ := hall m hm.1 haccess a hmem hkind
    exact ⟨y, Nat.lt_trans hy hm.1, hay⟩

lemma Traces.sharesSizes (ht : Traces policy opened g) : ∀ m < g.nodes.size, g.SharesSizes m := by
  refine ht.forall_nodes (fun _ hc hlt hm haccess a ha hkind => ?_)
    fun _ hadmits hall haccess a ha hkind => ?_
  · obtain ⟨hop, -, hargs⟩ := hc.node hlt
    rw [hop] at haccess
    obtain ⟨y, hy, hay⟩ := hm haccess a (hargs ▸ ha) hkind
    exact ⟨y, hy, (hc.node (Nat.lt_trans hy hlt)).2.2 ▸ hay⟩
  · rw [node_insert_self] at haccess ha
    obtain ⟨y, hy, hay⟩ := hadmits.sharesSizes hall haccess a ha hkind
    exact ⟨y, hy, by rwa [node_insert_of_ne (Nat.ne_of_lt hy)]⟩

/-! ### The cut -/

lemma edgeSeparates?_of_shape {v : NodeId} {elementwise : Bool}
    (haccess : (g.node n).op.kind.accesses = false) :
    g.edgeSeparates? v n .shape elementwise = some true := by
  unfold edgeSeparates?
  cases hkind : (g.node n).op.kind <;> simp_all [OpKind.accesses]

/-- Clustering parts every node from the sizes it takes. -/
lemma Recorded.sizesApart_clusterize (h : g.Recorded) (hshared : ∀ n < g.nodes.size,
    g.SharesSizes n) :
    g.clusterize.SizesApart g.clusterize.order := by
  have hcut := h.recut_clusterize
  have hc := h.tidy_clusterize
  intro n hn a ha hkind hsame
  rw [hcut.order, h.order, mem_range] at hn
  rw [hcut.args] at ha
  induction n using Nat.strongRecOn with
  | ind n ih =>
    have ha' : a ∈ (g.clusterize.node n).args := by rwa [hcut.args]
    have hsource : g.clusterize.source a = a.source := hc.source_eq (mem_range.2 hn) ha'
    by_cases haccess : (g.node n).op.kind.accesses
    · obtain ⟨y, hy, hay⟩ := hshared n hn haccess a ha hkind
      refine ih y hy (Nat.lt_trans hy hn) hay ?_
      rw [hsource] at hsame ⊢
      exact h.sameCluster_between hn hsame (Nat.le_of_lt (h.earlier y a hay)) (Nat.le_of_lt hy)
    · rw [Bool.not_eq_true, ← hcut.op] at haccess
      have hnone := h.isCut_clusterize.isBoundary_source hc.lists hc.isOrdered
        (mem_range.2 hn) ha' hsame
      have hindex : 0 ≤ a.index := (h.regular n).index_nonneg ha
      rw [isBoundary, if_pos hindex, hkind, edgeSeparates?_of_shape haccess] at hnone
      cases hnone

/-! ### Copies -/

lemma Rebuilt.mem_of_shape (hr : Rebuilt c done g l origin) (hn : n ∈ c.order)
    (hlt : n < c.nodes.size) {a : Argument} (ha : a ∈ (g.node n).args) (hkind : a.kind = .shape) :
    a ∈ (c.node n).args := by
  by_cases hdone : ∀ k ∈ done, (c.node n).cluster ≠ some k
  · rwa [← hr.kept n hlt hdone]
  · push Not at hdone
    obtain ⟨k, hk, hkn⟩ := hdone
    have hlength : (g.node n).args.length = (c.node n).args.length := by
      have htraced := congrArg length (hr.covers.args n (hr.listed.subset hn))
      rwa [length_map, length_map, hr.covers.self n hn] at htraced
    obtain ⟨i, hi, rfl⟩ := mem_iff_getElem.1 ha
    have hplace := getElem?_eq_getElem (hlength ▸ hi)
    obtain ⟨hstay, hcopy⟩ := hr.moved n hn k hk hkn i _ hplace
    by_cases hcopied : i ∈ c.copyable c.summary n
    · -- sizes are not worth a copy
      obtain ⟨v, -, hv, -⟩ := hcopy hcopied
      obtain ⟨b, hb, hworth⟩ := mem_copyable.1 hcopied
      rw [getElem?_eq_getElem hi, Option.some.injEq] at hv
      rw [hplace, Option.some.injEq] at hb
      rw [hv, hb] at hkind
      simp only [isWorthCopy, Bool.and_eq_true, decide_eq_true_eq] at hworth
      exact absurd hkind hworth.1.1.1.2
    · have hsame := hstay hcopied
      rw [getElem?_eq_getElem hi, Option.some.injEq] at hsame
      rw [hsame]
      exact getElem_mem _

lemma Rebuilt.sizesApart (hr : Rebuilt c done g l origin) (hc : c.Arranged c.order)
    (hapart : c.SizesApart c.order) : g.SizesApart l := by
  intro n hn a ha hkind
  by_cases hlt : n < c.nodes.size
  · have hnc : n ∈ c.order := by
      rcases hr.fresh n hn with hnc | ⟨hge, -⟩
      · exact hnc
      · exact absurd hlt (Nat.not_lt.2 hge)
    have hold : a ∈ (c.node n).args := hr.mem_of_shape hnc hlt ha hkind
    have hmem := (hc.ordered n hnc a hold).left_mem
    rw [SameCluster, hr.source_eq hc hnc hold, hr.grown.cluster n hlt,
      hr.grown.cluster _ (hc.lists.lt_size hmem)]
    exact hapart n hnc a hold hkind
  · exact hr.apart n hn (Nat.le_of_not_lt hlt) a ha hkind

end KernelFusion.Graph
