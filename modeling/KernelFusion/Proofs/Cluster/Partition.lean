/-
The clusters of a program as a partition of it.

Clusters are runs that start with their heads, no boundary lies inside of one, and one ends only
where a boundary makes it end. This leaves no choice (`IsCut.sameCluster_iff`), whatever clusters
the nodes had before.

The labels of an earlier cut are released on the way. Where each of them stands on one run, none is
released twice and none that is released is in use afterwards (`Sweep.Sound`).
-/
import KernelFusion.Proofs.Cluster.Sweep
import KernelFusion.Proofs.Recording.Scripts

namespace KernelFusion.Graph

open List

variable {g c : Graph} {l : List NodeId}

/-- The clusters partition the program soundly: they are runs that start with their heads, no
boundary lies on an edge or between neighbours inside of one, and one ends only in front of a node
that a boundary parts from it. -/
structure Partitioned (c : Graph) : Prop where
  clustered : ∀ n ∈ c.order, ∃ k, (c.node n).cluster = some k
  contiguous : ∀ x y z, c.Before x y → c.Before y z → c.SameCluster x z → c.SameCluster x y
  head : ∀ n ∈ c.order, ∀ k, (c.node n).cluster = some k →
    ∃ h ∈ c.order, c.head? k = some h ∧ c.SameCluster h n ∧ (h = n ∨ c.Before h n)
  edge : ∀ n ∈ c.order, ∀ a ∈ (c.node n).args, c.SameCluster (c.source a) n →
    c.isBoundary (c.source a) n (some a) (c.node n).isElementwise = false
  neighbour : ∀ a p n b, c.order = a ++ p :: n :: b → c.SameCluster p n →
    c.isBoundary p n none (c.node n).isElementwise = false
  parted : ∀ a p n b, c.order = a ++ p :: n :: b → ¬ c.SameCluster p n → c.PartedFrom p n

lemma IsCut.partitioned (hc : c.IsCut l) (hl : c.Lists l) (ho : c.Ordered l) : c.Partitioned := by
  have horder := hl.order
  subst horder
  refine ⟨hc.clustered, fun x y z hxy hyz => hc.sameCluster_left hxy hyz, fun n hn k hk => ?_,
    fun n hn a => hc.isBoundary_source hl ho hn, fun a p n b hab => hc.nodesSeparate_prev hl hab,
    fun a p n b hab hnot => ?_⟩
  · obtain ⟨h, hh, hmem, hkh, hle⟩ := hc.runs.head hn hk
    exact ⟨h, hmem, hh, hkh.trans hk.symm, hle rfl⟩
  · by_contra hparted
    exact hnot ((hc.adjacent hab).2 hparted)

lemma Recut.ordered (h : g.Recut c) (ho : g.Ordered l) : c.Ordered l := by
  intro n hn a ha
  rw [h.args] at ha
  rw [h.source]
  exact ho n hn a ha

lemma Recut.sameCluster_clusterize (h : g.Recut c) (hl : g.Lists l) (ho : g.Ordered l)
    {n m : NodeId} (hn : n ∈ l)
    (hm : m ∈ l) : c.clusterize.SameCluster n m ↔ g.clusterize.SameCluster n m := by
  have hg := recut_clusterize hl ho
  have hc := recut_clusterize (h.lists hl) (h.ordered ho)
  exact (isCut_clusterize hl ho).sameCluster_iff (isCut_clusterize (h.lists hl) (h.ordered ho))
    ((hg.symm.trans h).trans hc) (hg.lists hl) (hg.ordered ho) hn hm

/-! ### Labels of an earlier cut -/

/-- A node has a size in every dimension up to its greatest one, and the constants among them have
values. -/
def FullySized (g : Graph) (n : NodeId) : Prop :=
  ∀ dim < ((g.node n).extent .shape).toNat, g.sized n dim

instance (g : Graph) (n : NodeId) : Decidable (g.FullySized n) :=
  inferInstanceAs (Decidable (∀ dim < ((g.node n).extent .shape).toNat, _))

/-- The labels that nodes carry exist, and each of them stands on one run. -/
structure LabelsRun (g : Graph) : Prop where
  lt_size : ∀ n ∈ g.order, ∀ k, (g.node n).cluster = some k → k < g.clusters.size
  between : ∀ x y z k, g.Before x y → g.Before y z → (g.node x).cluster = some k →
    (g.node z).cluster = some k → (g.node y).cluster = some k

/-- No label is released twice or is in use after it was released, and no missing size is asked
for. -/
structure Sweep.Sound (s : Sweep) : Prop where
  once : s.released.Nodup
  gone : ∀ k ∈ s.released, ∀ n ∈ s.graph.order, (s.graph.node n).cluster ≠ some k
  found : s.lost = false

lemma Recut.fullySized (h : g.Recut c) {n : NodeId} (hn : g.FullySized n) : c.FullySized n := by
  intro dim hdim
  rw [h.node] at hdim
  have hsized : c.sized n dim = g.sized n dim := by
    rw [sized, sized, h.size?]
    exact congrArg (Option.any · _)
      (funext fun size => by rw [h.node size, Node.isConst, Node.isConst])
  exact hsized.trans (hn dim hdim)

lemma mem_of_mem_searched {α : Type} {found : α → Bool} {l : List α} {x : α}
    (h : x ∈ searched found l) : x ∈ l := by
  induction l with
  | nil => exact h
  | cons y rest ih =>
    rw [searched] at h
    split at h
    · exact mem_cons.2 (.inl (mem_singleton.1 h))
    · exact mem_cons.2 ((mem_cons.1 h).imp_right ih)

lemma shapesAskMissing_eq_false {a b : NodeId} (ha : g.FullySized a) (hb : g.FullySized b) :
    g.shapesAskMissing a b = false := by
  by_contra hask
  simp only [shapesAskMissing, Bool.not_eq_false, Bool.and_eq_true, decide_eq_true_eq,
    any_eq_true] at hask
  obtain ⟨⟨-, hrank⟩, dim, hlooked, hmissing⟩ := hask
  have hdim := mem_range.1 (mem_of_mem_searched hlooked)
  rw [ha dim hdim, hb dim (hrank ▸ hdim)] at hmissing
  cases hmissing

lemma startAsksMissing_eq_false {n : NodeId} (current : Option ClusterId) (hn : g.FullySized n)
    (hprev : ∀ p, g.prev? n = some p → g.FullySized p)
    (hargs : ∀ a ∈ (g.node n).args, g.FullySized (g.source a)) :
    g.startAsksMissing current n = false := by
  by_contra hask
  simp only [startAsksMissing, Bool.not_eq_false, Bool.or_eq_true, Option.any_eq_true,
    Bool.and_eq_true, any_eq_true, boundaryAsksMissing] at hask
  rcases hask with ⟨p, hp, -, -, hshapes⟩ | ⟨a, ha, -, hshapes⟩
  · exact Bool.false_ne_true ((shapesAskMissing_eq_false (hprev p hp) hn).symm.trans hshapes)
  · have hmem := (mem_filter.1 (mem_of_mem_searched ha)).1
    exact Bool.false_ne_true ((shapesAskMissing_eq_false (hargs a hmem) hn).symm.trans hshapes)

/-- The sweep has cut the nodes of `done`. The nodes of `rest` still carry the labels they had, and
none of them carries one that has been released. -/
structure Clearing (g : Graph) (done rest : List NodeId) (s : Sweep) : Prop where
  swept : Swept g done s
  kept : ∀ n ∈ rest, (s.graph.node n).cluster = (g.node n).cluster
  fresh : ∀ n ∈ done, ∀ k, (s.graph.node n).cluster = some k → g.clusters.size ≤ k
  current : ∀ k, s.current = some k → g.clusters.size ≤ k
  grown : g.clusters.size ≤ s.graph.clusters.size
  once : s.released.Nodup
  gone : ∀ k ∈ s.released, k < g.clusters.size ∧ ∀ n ∈ rest, (g.node n).cluster ≠ some k
  found : s.lost = false

/-- What a step does to labels: the node gets the current one, which is the old one or a new one. -/
lemma Sweep.step_spec (s : Sweep) {n : NodeId} (hn : n < s.graph.nodes.size) :
    (∀ m, m ≠ n → ((s.step n).graph.node m).cluster = (s.graph.node m).cluster) ∧
      ((s.step n).graph.node n).cluster = (s.step n).current ∧
      ((s.step n).current = s.current ∨ (s.step n).current = some s.graph.clusters.size) ∧
      s.graph.clusters.size ≤ (s.step n).graph.clusters.size ∧
      (s.step n).released = (s.graph.endsRun? n).toList ++ s.released ∧
      (s.step n).lost = (s.lost || (s.graph.setCluster n none).startAsksMissing s.current n) := by
  have hother : ∀ (c : Graph) k, (∀ m, c.node m = (s.graph.setCluster n none).node m) → ∀ m, m ≠ n →
      ((c.setCluster n k).node m).cluster = (s.graph.node m).cluster := fun c k hc m hm => by
    rw [cluster_setCluster_of_ne hm, hc, cluster_setCluster_of_ne hm]
  have hsize : n < (s.graph.setCluster n none).nodes.size := by simpa [setCluster] using hn
  rw [Sweep.step_eq]
  split
  · exact ⟨hother _ _ fun _ => rfl, cluster_setCluster hsize _, .inr rfl,
      by simp [openCluster, setCluster, modifyNode], rfl, rfl⟩
  · exact ⟨hother _ _ fun _ => rfl, cluster_setCluster hsize _, .inl rfl, Nat.le_refl _, rfl, rfl⟩

/-- A label that is released with a node stands on no node behind it. -/
lemma LabelsRun.ends (h : g.LabelsRun) {done rest : List NodeId} {n m : NodeId} {k : ClusterId}
    (hl : g.Lists (done ++ n :: rest)) (hends : g.endsRun? n = some k) (hm : m ∈ rest) :
    (g.node m).cluster ≠ some k := by
  obtain ⟨hkn, hnext⟩ := Option.filter_eq_some_iff.1 hends
  rw [hl.next] at hnext
  intro hkm
  cases rest with
  | nil => cases hm
  | cons v rest =>
    have hv : (g.node v).cluster ≠ some k := by simpa using hnext
    rcases mem_cons.1 hm with rfl | hm
    · exact hv hkm
    · have horder := hl.order
      refine hv (h.between n v m k ?_ ?_ hkn hkm)
      · rw [Before, horder]
        exact Precedes.of_mem_tail mem_cons_self
      · have hsplit : done ++ n :: v :: rest = (done ++ [n]) ++ v :: rest := by simp
        rw [Before, horder, hsplit]
        exact Precedes.of_mem_tail hm

/-- One step of the sweep over a graph that carries old cluster labels. -/
lemma Clearing.step {done rest : List NodeId} {n : NodeId} {s : Sweep}
    (h : Clearing g done (n :: rest) s) (hl : g.Lists (done ++ n :: rest))
    (ho : g.Ordered (done ++ n :: rest)) (hlabels : g.LabelsRun)
    (hsized : ∀ m ∈ done ++ n :: rest, g.FullySized m) : Clearing g (done ++ [n]) rest
    (s.step n) := by
  have hmem : n ∈ done ++ n :: rest := by simp
  have hnrest : n ∉ rest := (not_mem_of_nodup_append hl.chain.nodup).2
  obtain ⟨hother, hself, hcurrent, hgrown, hreleased, hlost⟩ :=
    s.step_spec (h.swept.recut.size ▸ hl.lt_size hmem)
  have hnew : ∀ k, (s.step n).current = some k → g.clusters.size ≤ k := by
    intro k hk
    rcases hcurrent with heq | heq <;> rw [heq] at hk
    · exact h.current k hk
    · exact (Option.some.inj hk) ▸ h.grown
  have hends : s.graph.endsRun? n = g.endsRun? n := by
    rw [endsRun?, endsRun?, h.kept n mem_cons_self]
    refine congrArg (Option.filter · _) ?_
    funext k
    rw [next?, next?, h.swept.recut.chain]
    cases hnext : g.chain.next? n with
    | none => rfl
    | some m =>
      have hhead : rest.head? = some m := hl.next.symm.trans hnext
      simp [h.kept m (mem_cons_of_mem _ (mem_of_head? hhead))]
  refine
    { swept := h.swept.step hl ho
      kept := fun m hm => (hother m fun heq => hnrest
      (heq ▸ hm)).trans (h.kept m (mem_cons_of_mem _ hm))
      fresh := fun m hm k hk => ?_
      current := hnew
      grown := h.grown.trans hgrown
      once := ?_
      gone := ?_
      found := ?_ }
  · rcases mem_append.1 hm with hm | hm
    · rw [hother m (hl.ne_of_front hm)] at hk
      exact h.fresh m hm k hk
    · rw [mem_singleton.1 hm, hself] at hk
      exact hnew k hk
  · rw [hreleased, hends]
    cases hk : g.endsRun? n with
    | none => exact h.once
    | some k =>
      refine nodup_cons.2 ⟨fun hold => ?_, h.once⟩
      exact (h.gone k hold).2 n mem_cons_self (Option.filter_eq_some_iff.1 hk).1
  · rw [hreleased, hends]
    intro k hk
    rcases mem_append.1 hk with hk | hk
    · have hk := Option.mem_toList.1 hk
      refine ⟨hlabels.lt_size n (hl.order.symm ▸ hmem) k (Option.filter_eq_some_iff.1 hk).1, ?_⟩
      exact fun m hm => hlabels.ends hl hk hm
    · exact ⟨(h.gone k hk).1, fun m hm => (h.gone k hk).2 m (mem_cons_of_mem _ hm)⟩
  · have hrecut : g.Recut (s.graph.setCluster n none) := h.swept.recut.trans recut_setCluster
    have hfull : ∀ m ∈ done ++ n :: rest, (s.graph.setCluster n none).FullySized m := fun m hm =>
      hrecut.fullySized (hsized m hm)
    rw [hlost, h.found, Bool.false_or]
    refine startAsksMissing_eq_false _ (hfull n hmem) (fun p hp => hfull p ?_)
      fun a ha => hfull _ ?_
    · rw [hrecut.prev?, hl.prev] at hp
      exact mem_append_left _ (mem_of_getLast? hp)
    · rw [hrecut.args] at ha
      rw [hrecut.source]
      exact (ho n hmem a ha).left_mem

lemma Clearing.foldl {done rest : List NodeId} {s : Sweep} (h : Clearing g done rest s)
    (hl : g.Lists (done ++ rest)) (ho : g.Ordered (done ++ rest)) (hlabels : g.LabelsRun)
    (hsized : ∀ m ∈ done ++ rest, g.FullySized m) :
    Clearing g (done ++ rest) [] (rest.foldl Sweep.step s) := by
  induction rest generalizing done s with
  | nil => simpa using h
  | cons n rest ih =>
    rw [append_cons] at hl ho hsized ⊢
    exact ih (h.step (by simpa using hl) (by simpa using ho) hlabels (by simpa using hsized))
      hl ho hsized

lemma LabelsRun.sound (hlabels : g.LabelsRun) (hl : g.Lists g.order) (ho : g.Ordered g.order)
    (hsized : ∀ n ∈ g.order, g.FullySized n) : g.sweep.Sound := by
  have hstart : Clearing g [] g.order { graph := g } :=
    ⟨swept_nil g, fun _ _ => rfl, by simp, by simp, Nat.le_refl _, nodup_nil, by simp, rfl⟩
  have hend : Clearing g g.order [] g.sweep := hstart.foldl hl ho hlabels hsized
  refine ⟨hend.once, fun k hk n hn hcluster => ?_, hend.found⟩
  rw [hend.swept.recut.order] at hn
  exact Nat.not_lt.2 (hend.fresh n hn k hcluster) (hend.gone k hk).1

lemma Swept.labelsRun {s : Sweep} (h : Swept g g.order s) : s.graph.LabelsRun := by
  have horder := h.recut.order
  refine ⟨fun n hn k hk => h.lt_size n (horder ▸ hn) k hk, fun x y z k hxy hyz hx hz => ?_⟩
  rw [Before, horder] at hxy hyz
  exact h.cut.runs.between hxy hyz hx hz

/-! ### The partition -/

/-- For every program that reads the same in both directions and whose arguments come from earlier
nodes, in which no dimension of a shape is missing and each label of an earlier cut stands on one
run: cutting it releases no such label twice, changes clusters only and partitions the program
soundly. Any program that differs from it in such labels only is cut into the same clusters, and
cutting it a second time is as sound and gives these clusters again. -/
theorem clusterize_partitioned (hl : g.Lists g.order) (ho : g.Ordered g.order)
    (hsized : ∀ n ∈ g.order, g.FullySized n) (hlabels : g.LabelsRun) :
    g.sweep.Sound ∧ g.Recut g.clusterize ∧ g.clusterize.Partitioned ∧
      (∀ g', g.Recut g' → g'.LabelsRun → g'.sweep.Sound ∧ ∀ n ∈ g.order, ∀ m ∈ g.order,
        (g'.clusterize.SameCluster n m ↔ g.clusterize.SameCluster n m)) ∧
      g.clusterize.sweep.Sound ∧ ∀ n ∈ g.order, ∀ m ∈ g.order,
        (g.clusterize.clusterize.SameCluster n m ↔ g.clusterize.SameCluster n m) := by
  have hcut := recut_clusterize hl ho
  have hsound : ∀ g', g.Recut g' → g'.LabelsRun → g'.sweep.Sound := by
    intro g' hg' hlabels'
    refine hlabels'.sound ?_ ?_ ?_ <;> rw [hg'.order]
    · exact hg'.lists hl
    · exact hg'.ordered ho
    · exact fun n hn => hg'.fullySized (hsized n hn)
  refine ⟨hsound g (Recut.refl g) hlabels, hcut, ?_,
    fun g' hg' hlabels' => ⟨hsound g' hg' hlabels', fun n hn m hm => ?_⟩,
    hsound _ hcut (swept_sweep hl ho).labelsRun, fun n hn m hm => ?_⟩
  · exact (isCut_clusterize hl ho).partitioned (hcut.lists hl) (hcut.ordered ho)
  · exact hg'.sameCluster_clusterize hl ho hn hm
  · exact hcut.sameCluster_clusterize hl ho hn hm

/-- A program that gathers from a tensor it computes. -/
def gathered : List Step :=
  [ .act (.input .float (.sizes [4])) (some "A"),
    .act (.index (.like "A") 0) (some "i"),
    .act (.call (.named "sin") ["A"]) (some "s"),
    .act (.load "s" ["i"]) (some "r") ]

/-- It has been cut, and then two of its nodes were moved to the clusters before theirs. -/
def gatheredMoved : Graph :=
  ((Script.scene gathered).graph.clusterize.setCluster 2 (some 1)).setCluster 4 (some 2)

/-- It has been cut, and then two of its nodes were given other clusters. -/
def gatheredStale : Graph :=
  ((Script.scene gathered).graph.clusterize.setCluster 2 (some 0)).setCluster 4 (some 9)

/-- Two of its nodes have a third dimension and lack a second. -/
def gatheredUnsized : Graph :=
  ((Script.scene gathered).graph.addArgument 2 0 .shape 2).addArgument 3 0 .shape 2

/-- Two values of different shapes. -/
def mismatched : List Step :=
  [ .act (.constant .int 4 (.sizes [])) (some "m"),
    .act (.constant .int 8 (.sizes [])) (some "n"),
    .act (.constant .int 1 (.tensors ["m"])) (some "d"),
    .act (.constant .int 1 (.tensors ["n"])) (some "b") ]

/-- The second value takes the first size for the node in front of it, though the first value is
there. -/
def mismatchedAstray : Graph :=
  let g := (Script.scene mismatched).graph
  { g with chain := g.chain.setPrev (some 3) (some 0) }

lemma LabelsRun.of_listed (hlt : ∀ n ∈ g.order, ∀ k ∈ (g.node n).cluster, k < g.clusters.size)
    (hruns : ∀ x ∈ g.order, ∀ y ∈ g.order, ∀ z ∈ g.order, Precedes g.order x y →
    Precedes g.order y z →
      (g.node x).cluster = (g.node z).cluster → (g.node y).cluster = (g.node z).cluster) :
    g.LabelsRun := by
  refine ⟨hlt, fun x y z k hxy hyz hx hz => ?_⟩
  have h := hruns x hxy.left_mem y hxy.right_mem z hyz.right_mem hxy hyz (hx.trans hz.symm)
  exact h.trans hz

lemma listsOrdered_of_recut_gathered {c : Graph} (h : (Script.scene gathered).graph.Recut c) :
    c.Lists c.order ∧ c.Ordered c.order := by
  have hrecorded := (Script.recorded (l := gathered) (by decide +kernel)).graph
  rw [h.order.trans hrecorded.order]
  exact ⟨h.lists hrecorded.lists, h.ordered hrecorded.ordered⟩

lemma recut_moved (x y : Option ClusterId) :
    (Script.scene gathered).graph.Recut
      (((Script.scene gathered).graph.clusterize.setCluster 2 x).setCluster 4 y) := by
  have hrecorded := (Script.recorded (l := gathered) (by decide +kernel)).graph
  exact (hrecorded.recut_clusterize.trans recut_setCluster).trans recut_setCluster

theorem clusterize_partitioned_gatheredMoved :
    gatheredMoved.Lists gatheredMoved.order ∧ gatheredMoved.Ordered gatheredMoved.order ∧
      (∀ n ∈ gatheredMoved.order, gatheredMoved.FullySized n) ∧ gatheredMoved.LabelsRun ∧
      gatheredMoved.sweep.released = [2, 1, 0] ∧
      gatheredMoved.clusterize.SameCluster 2 3 ∧ ¬ gatheredMoved.clusterize.SameCluster 3 4 ∧
      gatheredMoved.sweep.Sound ∧ gatheredMoved.Recut gatheredMoved.clusterize ∧
      gatheredMoved.clusterize.Partitioned ∧
      (∀ g', gatheredMoved.Recut g' → g'.LabelsRun → g'.sweep.Sound ∧
        ∀ n ∈ gatheredMoved.order, ∀ m ∈ gatheredMoved.order,
          (g'.clusterize.SameCluster n m ↔ gatheredMoved.clusterize.SameCluster n m)) ∧
      gatheredMoved.clusterize.sweep.Sound ∧
      ∀ n ∈ gatheredMoved.order, ∀ m ∈ gatheredMoved.order,
        (gatheredMoved.clusterize.clusterize.SameCluster n m ↔
          gatheredMoved.clusterize.SameCluster n m) := by
  obtain ⟨hl, ho⟩ := listsOrdered_of_recut_gathered (recut_moved (some 1) (some 2))
  have hsized : ∀ n ∈ gatheredMoved.order, gatheredMoved.FullySized n := by decide +kernel
  have hlabels : gatheredMoved.LabelsRun :=
    LabelsRun.of_listed (by decide +kernel) (by decide +kernel)
  exact ⟨hl, ho, hsized, hlabels, by decide +kernel, by unfold SameCluster; decide +kernel,
    by unfold SameCluster; decide +kernel, clusterize_partitioned hl ho hsized hlabels⟩

/-- No condition can be left out: a label on two runs is released twice, a missing dimension is
asked for, and where nodes know another node in front of them than the one that is there, a cluster
may have two shapes. -/
theorem not_forall_sweep_sound :
    (¬ ∀ g : Graph, g.Lists g.order → g.Ordered g.order → (∀ n ∈ g.order, g.FullySized n) →
        g.sweep.Sound) ∧
      (¬ ∀ g : Graph, g.Lists g.order → g.Ordered g.order → g.LabelsRun → g.sweep.Sound) ∧
      ¬ ∀ g : Graph, g.order.Nodup → g.Ordered g.order → (∀ n ∈ g.order, g.FullySized n) →
        g.LabelsRun → g.clusterize.Partitioned := by
  refine ⟨fun hall => ?_, fun hall => ?_, fun hall => ?_⟩
  · obtain ⟨hl, ho⟩ := listsOrdered_of_recut_gathered (recut_moved (some 0) (some 9))
    have hsound := hall gatheredStale hl ho (by decide +kernel)
    exact absurd hsound.once (by decide +kernel)
  · have hrecorded := (Script.recorded (l := gathered) (by decide +kernel)).graph
    have horder : gatheredUnsized.order = range 5 := by decide +kernel
    have hl : gatheredUnsized.Lists gatheredUnsized.order :=
      horder ▸ hrecorded.lists.congr rfl rfl (by simp [gatheredUnsized, addArgument])
    have hlabels : gatheredUnsized.LabelsRun :=
      LabelsRun.of_listed (by decide +kernel) (by decide +kernel)
    exact absurd (hall gatheredUnsized hl (by decide +kernel) hlabels).found (by decide +kernel)
  · have hpartitioned := hall mismatchedAstray (by decide +kernel) (by decide +kernel)
      (by decide +kernel) (LabelsRun.of_listed (by decide +kernel) (by decide +kernel))
    have hsame : mismatchedAstray.clusterize.SameCluster 2 3 := by
      unfold SameCluster
      decide +kernel
    exact absurd (hpartitioned.neighbour [0, 1] 2 3 [] (by decide +kernel) hsame)
      (by decide +kernel)

end KernelFusion.Graph
