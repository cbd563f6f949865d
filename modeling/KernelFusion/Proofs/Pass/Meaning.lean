/-
Recomputing does not change what nodes compute.

The nodes that were there are their own origins, and a copy has the origin of the node it was made
from. So an argument that has moved to a copy still gets the value it got before, but from the
cluster of its user.
-/
import KernelFusion.Proofs.Pass.Recompute

namespace KernelFusion.Graph

variable {c g : Graph} {l : List NodeId} {n : NodeId} {k : ClusterId} {origin : NodeId → NodeId}

/-- The program `o` is the program `c` with cheap values computed where they are used. -/
structure Recomputes (c o : Graph) : Prop where
  arranged : o.Arranged o.order
  listed : c.order.Sublist o.order
  cluster : ∀ n ∈ c.order, (o.node n).cluster = (c.node n).cluster
  expression : ∀ n ∈ c.order, o.expression n = c.expression n
  inside : ∀ n ∈ c.order, ∀ k, (c.node n).cluster = some k → c.isTreated k →
    ∀ i ∈ c.copyable c.summary n, ∃ a b, (c.node n).args[i]? = some a ∧
      (o.node n).args[i]? = some b ∧ o.SameCluster (o.source b) n ∧ o.Before (o.source b) n ∧
      o.expression (o.source b) = c.expression (c.source a)

lemma Arranged.mem_clusterOrder (hc : c.Arranged c.order) (hn : n ∈ c.order)
    (hk : (c.node n).cluster = some k) (htreated : c.isTreated k) : k ∈ c.clusterOrder := by
  obtain ⟨h, hh, hmem, hkh, -⟩ := hc.runs.head hn hk
  rw [isTreated, hh] at htreated
  exact Graph.mem_clusterOrder.2 ⟨h, hmem, by simpa using htreated, hkh⟩

lemma Rebuilt.recomputes (hr : Rebuilt c (c.clusterOrder.filter c.isTreated) g l origin)
    (hc : c.Arranged c.order) : c.Recomputes g := by
  have horder := hr.arranged.lists.order
  have hexpression : ∀ v ∈ l, g.expression v = c.expression (origin v) := fun v hv =>
    hr.covers.expression_eq hc.lists hc.ordered hr.arranged.lists hr.arranged.ordered hv
  refine ⟨by rw [horder]; exact hr.arranged, by rw [horder]; exact hr.listed,
    fun n hn => hr.grown.cluster n (hc.lists.lt_size hn), fun n hn => ?_,
    fun n hn k hk htreated i hi => ?_⟩
  · rw [hexpression n (hr.listed.subset hn), hr.covers.self n hn]
  · have hdone := List.mem_filter.2 ⟨hc.mem_clusterOrder hn hk htreated, htreated⟩
    obtain ⟨a, ha, -⟩ := mem_copyable.1 hi
    obtain ⟨v, hvl, hv, hcopy⟩ := (hr.moved n hn k hdone hk i a ha).2 hi
    have hsource : g.source { a with source := g.label v } = v := (hr.arranged.linked.label v hvl).2
    refine ⟨a, _, ha, hv, ?_, ?_, ?_⟩
    · rw [hsource]
      exact hcopy.cluster.trans (hr.grown.cluster n (hc.lists.lt_size hn)).symm
    · rw [hsource, Before, horder]
      exact hcopy.front n hn rfl
    · -- the argument has the origin it had
      have hargs := congrArg (fun args => args[i]?) (hr.covers.args n (hr.listed.subset hn))
      simp only [List.getElem?_map, hv, hr.covers.self n hn, ha, Option.map_some,
        Option.some.injEq] at hargs
      have horigin : origin (g.source { a with source := g.label v }) = c.source a :=
        congrArg (fun q => q.2.2) hargs
      rw [hsource] at horigin ⊢
      rw [hexpression v hvl, horigin]

/-- For every program that is being recorded, in which values are defined before they are used and
clusters are runs that start with their heads: recomputing succeeds, and every old node keeps its
place, its cluster and what it computes. -/
theorem recompute_recomputes (hc : c.Arranged c.order) :
    ∃ o, Build.recompute c = .ok ⟨⟩ o ∧ c.Recomputes o := by
  obtain ⟨o, hrun, l, origin, hr⟩ := hc.recompute
  exact ⟨o, hrun, hr.recomputes hc⟩

/-- A program that uses a value in two clusters. -/
def shared : List Step :=
  [ .act (.input .float (.sizes [4])) (some "A"),
    .act (.call (.named "sin") ["A"]) (some "v"),
    .act (.constant .int 2 (.sizes [])) (some "two"),
    .act (.index (.extent (.tensors ["two"])) 0) (some "i"),
    .act (.call (.named "cos") ["v"]) (some "w") ]

/-- Its clusters. -/
def sharedCut : Graph := (Script.scene shared).graph.clusterize

theorem recompute_recomputes_shared :
    sharedCut.Arranged sharedCut.order ∧ 0 ∈ sharedCut.copyable sharedCut.summary 5 ∧
      ∃ o, Build.recompute sharedCut = .ok ⟨⟩ o ∧ sharedCut.Recomputes o := by
  have hrecorded := (Script.recorded (l := shared) (by decide +kernel)).graph
  have harranged : sharedCut.Arranged sharedCut.order := hrecorded.tidy_clusterize_order.arranged
  exact ⟨harranged, by decide +kernel, recompute_recomputes harranged⟩

end KernelFusion.Graph
