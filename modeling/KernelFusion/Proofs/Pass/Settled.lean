/-
Recomputing once is enough.

Copying never makes a value cheaper: in its own cluster more of its operands are computed than
before, and none of those that were has gone. So the values that were too expensive still are, and
a second pass finds nothing to copy.
-/
import KernelFusion.Proofs.Cluster.Costs
import KernelFusion.Proofs.Pass.Meaning

namespace KernelFusion

open List

namespace Graph

variable {c o : Graph} {l : List NodeId} {n h : NodeId} {i : Nat} {k : ClusterId} {a b : Argument}
  {origin : NodeId → NodeId} {done : List ClusterId}

/-! ### Nothing is left to copy -/

/-- The value of an argument is computed by the cluster of its user, or it comes from memory, or it
is a value of the program `c` that cost too much there. -/
def Settled (c o : Graph) (n : NodeId) (a : Argument) : Prop :=
  o.SameCluster (o.source a) n ∨ (o.node (o.source a)).isMemory ∨
    o.source a ∈ c.order ∧ cheap (c.summary.cost (o.source a)) = false

section

variable (hr : Rebuilt c done o l origin) (hc : c.Arranged c.order)

include hr

lemma Rebuilt.cost_nonneg (hweight : ∀ n ∈ c.order, .zero ≤ (c.node n).op.weight) (n : NodeId) :
    .zero ≤ o.summary.cost n := by
  refine Graph.cost_nonneg (fun n hn => ?_) n
  rw [hr.arranged.lists.order] at hn
  rw [hr.covers.op n hn]
  exact hweight _ (hr.covers.mem n hn)

lemma Rebuilt.length_args (hn : n ∈ c.order) : (o.node n).args.length = (c.node n).args.length := by
  have hlen := congrArg length (hr.covers.args n (hr.listed.subset hn))
  rwa [length_map, length_map, hr.covers.self n hn] at hlen

include hc

/-- An argument was left alone or now lies in its user's cluster. -/
lemma Rebuilt.argument_cases (hn : n ∈ c.order) (ha : (c.node n).args[i]? = some a)
    (hb : (o.node n).args[i]? = some b) :
    b = a ∧ (∀ k ∈ done, (c.node n).cluster = some k → c.isWorthCopy c.summary n a = false) ∨
      c.isWorthCopy c.summary n a ∧ o.SameCluster (o.source b) n := by
  have hlt := hc.lists.lt_size hn
  by_cases hdone : ∃ k ∈ done, (c.node n).cluster = some k
  · obtain ⟨k, hk, hkn⟩ := hdone
    obtain ⟨hstay, hmove⟩ := hr.moved n hn k hk hkn i a ha
    by_cases hi : i ∈ c.copyable c.summary n
    · obtain ⟨v, hvl, hv, hcopy⟩ := hmove hi
      obtain rfl := Option.mem_unique hb hv
      obtain ⟨a', ha', hworth⟩ := mem_copyable.1 hi
      obtain rfl := Option.mem_unique ha ha'
      have hsource : o.source { a with source := o.label v } = v :=
        (hr.arranged.linked.label v hvl).2
      refine .inr ⟨hworth, ?_⟩
      rw [SameCluster, hsource, hcopy.cluster, hr.grown.cluster n hlt]
    · refine .inl ⟨Option.mem_unique hb (hstay hi), fun _ _ _ => ?_⟩
      by_contra hworth
      exact hi (mem_copyable.2 ⟨a, ha, by simpa using hworth⟩)
  · rw [hr.kept n hlt fun k hk hkn => hdone ⟨k, hk, hkn⟩, ha] at hb
    exact .inl ⟨(Option.some.inj hb).symm, fun k hk hkn => absurd ⟨k, hk, hkn⟩ hdone⟩

lemma Rebuilt.settled_of_not_isWorthCopy (hn : n ∈ c.order) (ha : a ∈ (c.node n).args)
    (hmemory : a.kind ≠ .memory) (hshape : a.kind ≠ .shape)
    (hworth : c.isWorthCopy c.summary n a = false) :
    c.Settled o n a := by
  have hmem := (hc.ordered n hn a ha).left_mem
  have hlt := hc.lists.lt_size hmem
  rw [Settled, SameCluster, hr.source_eq hc hn ha, hr.grown.cluster _ hlt, hr.grown.isMemory hlt,
    hr.grown.cluster n (hc.lists.lt_size hn)]
  by_cases hcluster : (c.node (c.source a)).cluster = (c.node n).cluster
  · exact .inl hcluster
  · cases hsource : (c.node (c.source a)).isMemory with
    | true => exact .inr (.inl rfl)
    | false =>
      rw [isWorthCopy, hsource] at hworth
      exact .inr (.inr ⟨hmem, by simpa [hmemory, hshape, hcluster] using hworth⟩)

/-! ### Costs do not fall -/

lemma Rebuilt.eq_of_isLocal (hn : n ∈ c.order) (ha : (c.node n).args[i]? = some a)
    (hb : (o.node n).args[i]? = some b) (hlocal : c.isLocal n a) :
    b = a ∧ o.source a = c.source a ∧ o.isLocal n a := by
  have hmem := mem_of_getElem? ha
  have hsource := hr.source_eq hc hn hmem
  have hlt := hc.lists.lt_size (hc.ordered n hn a hmem).left_mem
  rcases hr.argument_cases hc hn ha hb with ⟨rfl, -⟩ | ⟨hworth, -⟩
  · refine ⟨rfl, hsource, ?_⟩
    rwa [isLocal, hsource, hr.grown.cluster _ hlt, hr.grown.cluster n (hc.lists.lt_size hn)]
  · simp only [isLocal, isWorthCopy, Bool.and_eq_true, decide_eq_true_eq] at hlocal hworth
    exact absurd hlocal.1.1 hworth.1.2

/-- Copies make no node cheaper. -/
lemma Rebuilt.cost_le (hweight : ∀ n ∈ c.order, .zero ≤ (c.node n).op.weight) (hn : n ∈ c.order) :
    c.summary.cost n ≤ o.summary.cost n := by
  -- by induction on the place of the node: its operands stand in front of it
  induction hi : c.order.idxOf n using Nat.strongRecOn generalizing n with
  | ind i ih =>
    subst hi
    have hlt := hc.lists.lt_size hn
    cases hclustered : c.isClustered n with
    | false =>
      rw [cost_of_not_isClustered hclustered]
      exact hr.cost_nonneg hweight n
    | true =>
      have hclustered' : o.isClustered n := by
        rwa [isClustered, hr.grown.isMemory hlt, hr.grown.cluster n hlt]
      rw [cost_eq hc.lists hc.ordered hn hclustered,
        cost_eq hr.arranged.lists hr.arranged.ordered (hr.listed.subset hn) hclustered',
        nodeCost, nodeCost, hr.grown.op n hlt]
      refine Cost.foldl_le_foldl ?_ (fun b => hr.cost_nonneg hweight _) le_rfl
        (Cost.ofSingle_add_zero _)
      refine forall₂_iff_get.2 ⟨(hr.length_args hn).symm, fun i hi hi' hlocal => ?_⟩
      obtain ⟨hb, hsource, hlocal'⟩ := hr.eq_of_isLocal hc hn (getElem?_eq_getElem hi)
        (getElem?_eq_getElem hi') hlocal
      have hprec := hc.ordered n hn _ (getElem_mem hi)
      rw [get_eq_getElem, get_eq_getElem, hb, hsource]
      exact ⟨hlocal', ih _ (idxOf_lt_of_precedes hprec hc.lists.chain.nodup) hprec.left_mem rfl⟩

end

section

variable (hr : Rebuilt c (c.clusterOrder.filter c.isTreated) o l origin) (hc : c.Arranged c.order)

include hr hc

lemma Rebuilt.mem_done_of_isTreated (hn : n ∈ c.order) (hk : (c.node n).cluster = some k)
    (htreated : o.isTreated k) : k ∈ c.clusterOrder.filter c.isTreated := by
  by_contra hnot
  obtain ⟨h, hmem, hhc, hho, -⟩ := hr.head_eq hc hnot hn hk
  have hsame : c.isTreated k = o.isTreated k := by
    rw [isTreated, isTreated, hhc, hho]
    simp only
    rw [hr.grown.isMemory (hc.lists.lt_size hmem)]
  rw [← hsame] at htreated
  exact hnot (mem_filter.2 ⟨hc.mem_clusterOrder hn hk htreated, htreated⟩)

lemma Rebuilt.settled (hn : n ∈ l) (hk : (o.node n).cluster = some k) (htreated : o.isTreated k)
    (hb : b ∈ (o.node n).args) (hmemory : b.kind ≠ .memory) (hshape : b.kind ≠ .shape) :
    c.Settled o n b := by
  rcases hr.fresh n hn with hnc | ⟨hge, -⟩
  · rw [hr.grown.cluster n (hc.lists.lt_size hnc)] at hk
    obtain ⟨i, hi, rfl⟩ := getElem_of_mem hb
    have hi' := hr.length_args hnc ▸ hi
    rcases hr.argument_cases hc hnc (getElem?_eq_getElem hi') (getElem?_eq_getElem hi) with
      ⟨heq, hworth⟩ | ⟨-, hsame⟩
    · rw [heq] at hmemory hshape ⊢
      exact hr.settled_of_not_isWorthCopy hc hnc (getElem_mem hi') hmemory hshape
        (hworth k (hr.mem_done_of_isTreated hc hnc hk htreated) hk)
    · exact .inl hsame
  · exact (hr.inside n hn hge b hb hshape).imp_right .inl

/-- After the pass a cluster wants nothing more. -/
lemma Rebuilt.wanted_eq_nil (hweight : ∀ n ∈ c.order, .zero ≤ (c.node n).op.weight)
    (hh : o.head? k = some h) (hmem : h ∈ l) (hkh : (o.node h).cluster = some k)
    (hmemory : (o.node h).isMemory = false) : o.wanted o.summary k = [] := by
  have htreated : o.isTreated k := by rw [isTreated, hh]; simp [hmemory]
  refine eq_nil_iff_forall_not_mem.2 ?_
  rintro ⟨n, i⟩ hq
  obtain ⟨hrun, hi⟩ := mem_wanted.1 hq
  obtain ⟨hle, hkn⟩ := (hr.arranged.runs.mem_run_iff hr.arranged.lists hh hmem hkh).1 hrun
  have hn : n ∈ l := by
    rcases hle with rfl | hprec
    · exact hmem
    · exact hprec.right_mem
  obtain ⟨a, ha, hworth⟩ := mem_copyable.1 hi
  simp only [isWorthCopy, Bool.and_eq_true, decide_eq_true_eq, Bool.not_eq_true'] at hworth
  obtain ⟨⟨⟨⟨hkind, hshape⟩, hvalue⟩, hne⟩, hcheap⟩ := hworth
  rcases hr.settled hc hn hkn htreated (mem_of_getElem? ha)
    hkind hshape with hsame | hsource | ⟨hold, hdear⟩
  · exact hne hsame
  · exact Bool.false_ne_true (hvalue.symm.trans hsource)
  · have hbelow := Cost.below_of_le (hr.cost_le hc hweight hold) hcheap
    exact Bool.false_ne_true (hdear.symm.trans hbelow)

end

end Graph

namespace Build

variable {g : Graph} {h : NodeId} {k : ClusterId}

lemma recomputeCluster_of_wanted_eq_nil {s : Summary} (hh : g.head? k = some h)
    (hmemory : (g.node h).isMemory = false) (hwanted : g.wanted s k = []) :
    recomputeCluster s k g = .ok ⟨⟩ { g with ahead := (g.enter .before h true).ahead } := by
  have hcopy : copyComputation [] (g.enter .before h true) = .ok [] (g.enter .before h true) := by
    show copyNodes [] ((g.enter .before h true).order.filter fun _ => false)
      (g.enter .before h true) = _
    rw [filter_false]
    rfl
  rw [recomputeCluster_eq hh hmemory, Graph.wantedValues, hwanted]
  exact (bind_of_ok (placed_eq_ok.2 ⟨_, hcopy, rfl⟩)).trans rfl

end Build

namespace Graph

variable {c o : Graph} {l : List NodeId} {origin : NodeId → NodeId}

lemma Rebuilt.recompute_again (hr : Rebuilt c (c.clusterOrder.filter c.isTreated) o l origin)
    (hc : c.Arranged c.order) (hweight : ∀ n ∈ c.order, .zero ≤ (c.node n).op.weight) :
    ∃ x, Build.recompute o = .ok ⟨⟩ { o with ahead := x } := by
  obtain ⟨g, hrun, x, rfl⟩ : ∃ g, Build.recompute o = .ok ⟨⟩ g ∧ ∃ x,
    g = { o with ahead := x } := by
    refine forM_of_ok (P := fun _ g => ∃ x, g = { o with ahead := x }) ?_ ⟨o.ahead, rfl⟩
    rintro before k after g hsplit ⟨x, rfl⟩
    obtain ⟨n, hn, -, hkn⟩ := mem_clusterOrder.1 (hsplit ▸ (by simp : k ∈ before ++ k :: after))
    rw [hr.arranged.lists.order] at hn
    obtain ⟨h, hh, hmem, hkh, -⟩ := hr.arranged.runs.head hn hkn
    cases hmemory : (o.node h).isMemory with
    | true => exact ⟨_, Build.recomputeCluster_of_memory hh hmemory, x, rfl⟩
    | false =>
      have hwanted := hr.wanted_eq_nil hc hweight hh hmem hkh hmemory
      exact ⟨_, Build.recomputeCluster_of_wanted_eq_nil hh hmemory hwanted, _, rfl⟩
  exact ⟨x, hrun⟩

/-- Nothing is left to recompute in the program `o`, where `c` is the program before the pass. -/
structure FullyRecomputed (c o : Graph) : Prop where
  settled : ∀ n ∈ o.order, ∀ k, (o.node n).cluster = some k → o.isTreated k →
    ∀ a ∈ (o.node n).args, a.kind = .input ∨ a.kind = .index → c.Settled o n a
  again : ∃ x, Build.recompute o = .ok ⟨⟩ { o with ahead := x }

/-- For every program in which values are defined before they are used, clusters are runs that start
with their heads and no operation has a negative cost: recomputing succeeds and leaves nothing to
recompute. What a cluster takes from outside afterwards is memory or cost too much before the pass,
and a second pass copies nothing and moves no argument. -/
theorem recompute_settles (hc : c.Arranged c.order)
    (hweight : ∀ n ∈ c.order, Cost.zero ≤ (c.node n).op.weight) :
    ∃ o, Build.recompute c = .ok ⟨⟩ o ∧ c.FullyRecomputed o := by
  obtain ⟨o, hrun, l, origin, hr⟩ := hc.recompute
  refine ⟨o, hrun, fun n hn k hk htreated a ha hkind => ?_, hr.recompute_again hc hweight⟩
  rw [hr.arranged.lists.order] at hn
  have hkinds : a.kind ≠ .memory ∧ a.kind ≠ .shape := by
    rcases hkind with hkind | hkind <;> rw [hkind] <;> decide
  exact hr.settled hc hn hk htreated ha hkinds.1 hkinds.2

theorem recompute_settles_sharedCut :
    sharedCut.Arranged sharedCut.order ∧ 0 ∈ sharedCut.copyable sharedCut.summary 5 ∧
      ∃ o, Build.recompute sharedCut = .ok ⟨⟩ o ∧ sharedCut.FullyRecomputed o := by
  have hrecorded := (Script.recorded (l := shared) (by decide +kernel)).graph
  have harranged : sharedCut.Arranged sharedCut.order := hrecorded.tidy_clusterize_order.arranged
  exact ⟨harranged, by decide +kernel, recompute_settles harranged (by decide +kernel)⟩

end Graph

end KernelFusion
