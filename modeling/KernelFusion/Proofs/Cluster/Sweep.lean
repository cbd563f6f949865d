/-
What the sweep that cuts a program into clusters does.

A node joins the cluster of the node in front of it, or it starts a new one. Whether it starts one
depends on earlier nodes only, so it can be read off the finished cut (`IsCut.adjacent`).
-/
import KernelFusion.Proofs.Graph.Arranged
import KernelFusion.Proofs.Recording.Recorded
import Mathlib.Data.List.Induction

namespace KernelFusion.Graph

open List

/-! ### Graphs that differ in their clusters -/

/-- The second graph is the first one with other clusters. -/
structure Recut (g c : Graph) : Prop where
  node : ∀ n, c.node n = { g.node n with cluster := (c.node n).cluster }
  size : c.nodes.size = g.nodes.size
  rest : c = { g with nodes := c.nodes, clusters := c.clusters }

variable {g c c' : Graph} {n m : Nat} {k : Option ClusterId} {p w : NodeId}

namespace Recut

lemma refl (g : Graph) : g.Recut g := ⟨fun _ => rfl, rfl, rfl⟩

variable (h : g.Recut c)

include h

lemma trans (h' : c.Recut c') : g.Recut c' := by
  refine ⟨fun n => ?_, h'.size.trans h.size, ?_⟩
  · rw [h'.node, h.node]
  · rw [h'.rest, h.rest]

lemma symm : c.Recut g := by
  refine ⟨fun n => ?_, h.size.symm, ?_⟩
  · rw [h.node]
  · rw [h.rest]

lemma op (n : NodeId) : (c.node n).op = (g.node n).op := by rw [h.node]

lemma args (n : NodeId) : (c.node n).args = (g.node n).args := by rw [h.node]

lemma chain : c.chain = g.chain := by rw [h.rest]

lemma target (l : LabelId) : c.target l = g.target l := by
  have hlabels : c.labels = g.labels := by rw [h.rest]
  rw [Graph.target, Graph.target, hlabels]

lemma source (a : Argument) : c.source a = g.source a := h.target _

lemma prev? (n : NodeId) : c.prev? n = g.prev? n := by
  rw [Graph.prev?, Graph.prev?, h.chain]

lemma order : c.order = g.order := by
  have hfirst : c.first = g.first := by rw [h.rest]
  rw [Graph.order, Graph.order, h.chain, hfirst]

lemma lists {l : List NodeId} (hl : g.Lists l) : c.Lists l := by
  have hfirst : c.first = g.first := by rw [h.rest]
  exact hl.congr h.chain hfirst h.size

lemma labelled (hl : g.Labelled) : c.Labelled := by
  have hlabels : c.labels = g.labels := by rw [h.rest]
  refine ⟨by rw [hlabels, h.size, hl.size], fun n hn => ?_, fun n hn => ?_⟩
  · rw [h.target]
    exact hl.target n (h.size ▸ hn)
  · rw [Graph.label, h.node]
    exact hl.label n (h.size ▸ hn)

lemma regular (hn : (g.node n).Regular) : (c.node n).Regular :=
  hn.congr (h.op n) (h.args n)

lemma size? (n : NodeId) (dim : Nat) : c.size? n dim = g.size? n dim := by
  rw [Graph.size?, Graph.size?, h.node, funext h.source]
  rfl

lemma sizesAgree (n m : NodeId) : c.sizesAgree n m = g.sizesAgree n m := by
  have hsame : c.sameSize = g.sameSize := by
    funext a b
    rw [Graph.sameSize, Graph.sameSize, h.node a, h.node b]
    rfl
  funext dim
  rw [Graph.sizesAgree, Graph.sizesAgree, h.size?, h.size?, hsame]

lemma shapesAgree (n m : NodeId) : c.shapesAgree n m = g.shapesAgree n m := by
  rw [Graph.shapesAgree, Graph.shapesAgree, h.sizesAgree, h.node n, h.node m]
  rfl

lemma nodesSeparate (n m : NodeId) :
    c.nodesSeparate n m = g.nodesSeparate n m := by
  rw [Graph.nodesSeparate, Graph.nodesSeparate, h.shapesAgree, h.node n, h.node m]
  rfl

lemma isBoundary (n m : NodeId) (edge : Option Argument) (e : Bool) :
    c.isBoundary n m edge e = g.isBoundary n m edge e := by
  have hedge : ∀ k, c.edgeSeparates? n m k e = g.edgeSeparates? n m k e := by
    intro k
    rw [edgeSeparates?, edgeSeparates?, h.op, h.op]
  cases edge with
  | none => exact h.nodesSeparate n m
  | some a =>
    rw [Graph.isBoundary, Graph.isBoundary, hedge, h.nodesSeparate]

lemma isElementwise (n : NodeId) :
    (c.node n).isElementwise = (g.node n).isElementwise := by
  rw [h.node]
  rfl

end Recut

/-! ### Nodes that are parted -/

/-- Two nodes are in one cluster. -/
def SameCluster (g : Graph) (n m : NodeId) : Prop := (g.node n).cluster = (g.node m).cluster

/-- One node stands in front of another one in the program. -/
def Before (g : Graph) (n m : NodeId) : Prop := Precedes g.order n m

/-- A boundary lies between the cluster of a node and another node: it separates the other node
from its neighbour, or it lies on an edge. -/
def PartedFrom (g : Graph) (w n : NodeId) : Prop :=
  (∃ p, g.prev? n = some p ∧ g.SameCluster p w ∧ g.nodesSeparate p n) ∨
    ∃ a ∈ (g.node n).args, g.SameCluster (g.source a) w ∧
      g.isBoundary (g.source a) n (some a) (g.node n).isElementwise

lemma startsCluster_iff (hp : g.prev? n = some p) :
    g.startsCluster (g.node w).cluster n ↔ g.PartedFrom w n := by
  simp only [startsCluster, hp, Bool.or_eq_true, Bool.and_eq_true, decide_eq_true_eq,
    any_eq_true, PartedFrom, SameCluster, isBoundary, Option.some.injEq, exists_eq_left']

lemma Recut.partedFrom (h : g.Recut c)
    (hprev : ∀ p, g.prev? n = some p → (c.SameCluster p w ↔ g.SameCluster p w))
    (hargs : ∀ a ∈ (g.node n).args, (c.SameCluster (g.source a) w ↔ g.SameCluster (g.source a) w)) :
    c.PartedFrom w n ↔ g.PartedFrom w n := by
  unfold PartedFrom
  refine or_congr (exists_congr fun p => ?_) (exists_congr fun a => ?_)
  · rw [h.prev?, h.nodesSeparate]
    exact and_congr_right fun hp => and_congr_left fun _ => hprev p hp
  · rw [h.args, h.source, h.isBoundary, h.isElementwise]
    exact and_congr_right fun ha => and_congr_left fun _ => hargs a ha

/-! ### One step and the whole sweep -/

lemma recut_setCluster : g.Recut (g.setCluster n k) := by
  refine ⟨fun m => ?_, by simp [setCluster], rfl⟩
  rw [setCluster, node_modifyNode]
  split <;> rfl

lemma cluster_setCluster (h : n < g.nodes.size) (k : Option ClusterId) :
    ((g.setCluster n k).node n).cluster = k := by
  rw [setCluster, node_modifyNode_self h]

lemma cluster_setCluster_of_ne (h : m ≠ n) (k : Option ClusterId) :
    ((g.setCluster n k).node m).cluster = (g.node m).cluster := by
  rw [setCluster, node_modifyNode_of_ne h]

/-- The graph with a new cluster that starts at a node. -/
def openCluster (g : Graph) (n : NodeId) : Graph :=
  { g with clusters := g.clusters.push (some n) }.setCluster n (some g.clusters.size)

lemma recut_openCluster : g.Recut (g.openCluster n) :=
  Recut.trans (c := { g with clusters := g.clusters.push (some n) }) ⟨fun _ => rfl, rfl, rfl⟩
    recut_setCluster

lemma Sweep.step_eq (s : Sweep) (n : NodeId) :
    s.step n = if (s.graph.setCluster n none).startsCluster s.current n then
        ⟨(s.graph.setCluster n none).openCluster n, some s.graph.clusters.size,
          (s.graph.endsRun? n).toList ++ s.released,
          s.lost || (s.graph.setCluster n none).startAsksMissing s.current n⟩
      else ⟨(s.graph.setCluster n none).setCluster n s.current, s.current,
        (s.graph.endsRun? n).toList ++ s.released,
        s.lost || (s.graph.setCluster n none).startAsksMissing s.current n⟩ := rfl

/-! ### Cuts -/

/-- The listed nodes are cut as the sweep does it: each is in a cluster, clusters are runs, and a
node is in the cluster of the node in front of it unless it is parted from it. -/
structure IsCut (c : Graph) (l : List NodeId) : Prop where
  clustered : ∀ n ∈ l, ∃ k, (c.node n).cluster = some k
  runs : c.Runs (fun _ => true) l
  adjacent : ∀ {a p n b}, l = a ++ p :: n :: b → (c.SameCluster p n ↔ ¬ c.PartedFrom p n)

namespace IsCut

variable {l d : List NodeId} {p x : NodeId} {j : ClusterId}

lemma sameCluster_left (hc : c.IsCut l) {y z : NodeId} (hxy : Precedes l x y) (hyz : Precedes l y z)
    (h : c.SameCluster x z) : c.SameCluster x y := by
  obtain ⟨k, hk⟩ := hc.clustered x hxy.left_mem
  rw [SameCluster, hk, hc.runs.between hxy hyz hk (h.symm.trans hk)]

lemma congr (hc : c.IsCut l) (hcut : c.Recut c')
    (hsame : ∀ n ∈ l, (c'.node n).cluster = (c.node n).cluster)
    (hhead : ∀ n ∈ l, ∀ k, (c.node n).cluster = some k → c'.head? k = c.head? k)
    (hprev : ∀ {a p n b}, l = a ++ p :: n :: b → c.prev? n = some p)
    (hargs : ∀ n ∈ l, ∀ a ∈ (c.node n).args, c.source a ∈ l) : c'.IsCut l := by
  refine ⟨fun n hn => ?_, hc.runs.congr (fun n _ => hcut.op n) hsame hhead,
    fun {a p n b} hsplit => ?_⟩
  · rw [hsame n hn]
    exact hc.clustered n hn
  · have hpl : p ∈ l := by rw [hsplit]; simp
    have hnl : n ∈ l := by rw [hsplit]; simp
    have hiff : ∀ v ∈ l, ∀ w ∈ l, (c'.SameCluster v w ↔ c.SameCluster v w) := by
      intro v hv w hw
      rw [SameCluster, SameCluster, hsame v hv, hsame w hw]
    rw [hiff p hpl n hnl, hcut.partedFrom (fun q hq => ?_) fun a ha => ?_]
    · exact hc.adjacent hsplit
    · rw [hprev hsplit] at hq
      cases hq
      exact hiff p hpl p hpl
    · exact hiff _ (hargs n hnl a ha) p hpl

/-- A cut list grows by a node that joins the last cluster or opens its own. -/
lemma concat (hc : c.IsCut d) (hn : n ∉ d) (hclustered : ∃ k, (c.node n).cluster = some k)
    (hbetween : ∀ {x y k}, Precedes d x y → (c.node x).cluster = some k →
    (c.node n).cluster = some k →
      (c.node y).cluster = some k)
    (hhead : ∀ {k}, (c.node n).cluster = some k →
      ∃ h, c.head? k = some h ∧ (h = n ∨ h ∈ d) ∧ (c.node h).cluster = some k)
    (hadjacent : ∀ p, d.getLast? = some p → (c.SameCluster p n ↔ ¬ c.PartedFrom p n)) :
    c.IsCut (d ++ [n]) := by
  have hsub : d.Sublist (d ++ [n]) := sublist_append_left _ _
  refine ⟨fun v hv => ?_, ⟨fun {x y z k} hxy hyz hx hz => ?_, fun {v k} hv hk => ?_⟩,
    fun {a p m b} hsplit => ?_⟩
  · rcases mem_append.1 hv with hv | hv
    · exact hc.clustered v hv
    · rwa [mem_singleton.1 hv]
  · rcases hyz.concat_cases with ⟨rfl, hy⟩ | hyz'
    · exact hbetween (hxy.concat_cases.resolve_left fun h => hn (h.1 ▸ hy)) hx hz
    · rcases hxy.concat_cases with ⟨rfl, -⟩ | hxy'
      · exact absurd hyz'.left_mem hn
      · exact hc.runs.between hxy' hyz' hx hz
  · rcases mem_append.1 hv with hv | hv
    · obtain ⟨h, hh, hmem, hkh, hle⟩ := hc.runs.head hv hk
      exact ⟨h, hh, hsub.subset hmem, hkh, fun _ => (hle rfl).imp id fun hprec => hprec.mono hsub⟩
    · obtain rfl := mem_singleton.1 hv
      obtain ⟨h, hh, rfl | hmem, hkh⟩ := hhead hk
      · exact ⟨h, hh, by simp, hkh, fun _ => .inl rfl⟩
      · exact ⟨h, hh, hsub.subset hmem, hkh, fun _ => .inr (Precedes.of_mem hmem (by simp))⟩
  · rcases concat_eq_append_cons_cons hsplit with ⟨rfl, rfl⟩ | ⟨b, rfl⟩
    · exact hadjacent p (by simp)
    · exact hc.adjacent rfl

lemma start (hc : c.IsCut d) (hself : (c.node n).cluster = some j)
    (hnew : ∀ v ∈ d, (c.node v).cluster ≠ some j) (hhead : c.head? j = some n)
    (hparted : ∀ p, d.getLast? = some p → c.PartedFrom p n) : c.IsCut (d ++ [n]) := by
  refine hc.concat (fun hn => hnew n hn hself) ⟨j, hself⟩ (fun {x y k} hxy hx hk => ?_)
    (fun {k} hk => ?_)
    fun p hp => ?_
  · -- nothing in front of the new node is in its cluster
    obtain rfl := Option.mem_unique hself hk
    exact absurd hx (hnew x hxy.left_mem)
  · obtain rfl := Option.mem_unique hself hk
    exact ⟨n, hhead, .inl rfl, hself⟩
  · have hapart : ¬ c.SameCluster p n := fun hsame =>
      hnew p (mem_of_getLast? hp) (hsame.trans hself)
    exact ⟨fun hsame => absurd hsame hapart, fun hnot => absurd (hparted p hp) hnot⟩

lemma join (hc : c.IsCut (d ++ [p])) (hn : n ∉ d ++ [p]) (hsame : c.SameCluster p n)
    (hnot : ¬ c.PartedFrom p n) : c.IsCut (d ++ [p] ++ [n]) := by
  -- the node in front of the new one takes its part
  have hp : p ∈ d ++ [p] := by simp
  refine hc.concat hn (hsame ▸ hc.clustered p hp) (fun {x y k} hxy hx hk => ?_) (fun hk => ?_)
    fun q hq => ?_
  · rw [← hsame] at hk
    rcases mem_append.1 hxy.right_mem with hy | hy
    · exact hc.runs.between hxy (Precedes.of_mem hy (by simp)) hx hk
    · rwa [mem_singleton.1 hy]
  · obtain ⟨h, hh, hmem, hkh, -⟩ := hc.runs.head hp (hsame.trans hk)
    exact ⟨h, hh, .inr hmem, hkh⟩
  · obtain rfl : p = q := by simpa using hq
    exact ⟨fun _ => hnot, fun _ => hsame⟩

lemma sameCluster_iff_and (hc : c.IsCut l) {a b : List NodeId} (hsplit : l = a ++ p :: n :: b)
    (hx : x ∈ a ++ [p]) :
    c.SameCluster x n ↔ c.SameCluster x p ∧ c.SameCluster p n := by
  refine ⟨fun h => ?_, fun h => h.1.trans h.2⟩
  have hxp : c.SameCluster x p := by
    rcases mem_append.1 hx with hx | hx
    · refine hc.sameCluster_left (z := n) ?_ ?_ h
      · rw [hsplit]
        exact Precedes.of_mem hx (by simp)
      · rw [hsplit]
        exact Precedes.of_mem_tail (by simp)
    · rw [mem_singleton.1 hx]
      rfl
  exact ⟨hxp, hxp.symm.trans h⟩

/-- Two cuts of one list by one rule group the nodes alike. -/
lemma sameCluster_iff (hc : c.IsCut l) (hc' : c'.IsCut l) (hcut : c.Recut c') (hl : c.Lists l)
    (ho : c.Ordered l) (hn : n ∈ l) (hm : m ∈ l) : c'.SameCluster n m ↔ c.SameCluster n m := by
  -- by induction on how far the program has been cut
  have hpart : ∀ d r, l = d ++ r → ∀ x ∈ d, ∀ y ∈ d, (c'.SameCluster x y ↔ c.SameCluster x y) := by
    intro d
    induction d using reverseRecOn with
    | nil => simp
    | append_singleton d v ih =>
      intro r hsplit
      have ih := ih (v :: r) (by rw [hsplit]; simp)
      have hlast : ∀ x ∈ d, (c'.SameCluster x v ↔ c.SameCluster x v) := by
        intro x hx
        obtain ⟨d', p, rfl⟩ := exists_eq_concat hx
        have hsplit' : l = d' ++ p :: v :: r := by rw [hsplit]; simp
        have hsplit'' : l = d' ++ [p] ++ v :: r := by rw [hsplit]; simp
        rw [hc.sameCluster_iff_and hsplit' hx, hc'.sameCluster_iff_and hsplit' hx,
          ih x hx p (by simp), hc.adjacent hsplit', hc'.adjacent hsplit']
        rw [hcut.partedFrom (fun q hq => ?_) fun a ha => ?_]
        · rw [hl.prev_neighbour hsplit'] at hq
          cases hq
          exact ih p (by simp) p (by simp)
        · exact ih _ (ho.source_mem hl.chain.nodup hsplit'' ha) p (by simp)
      intro x hx y hy
      rcases mem_append.1 hx with hx | hx <;> rcases mem_append.1 hy with hy | hy
      · exact ih x hx y hy
      · rw [mem_singleton.1 hy]
        exact hlast x hx
      · rw [mem_singleton.1 hx]
        exact ⟨fun h => ((hlast y hy).1 h.symm).symm, fun h => ((hlast y hy).2 h.symm).symm⟩
      · rw [mem_singleton.1 hx, mem_singleton.1 hy]
        exact ⟨fun _ => rfl, fun _ => rfl⟩
  exact hpart l [] (by simp) n hn m hm

lemma isBoundary_source (hc : c.IsCut l) (hl : c.Lists l) (ho : c.Ordered l) (hn : n ∈ l)
    {a : Argument} (ha : a ∈ (c.node n).args) (hsame : c.SameCluster (c.source a) n) :
    c.isBoundary (c.source a) n (some a) (c.node n).isElementwise = false := by
  obtain ⟨d, b, hsplit⟩ := append_of_mem hn
  have hmem := ho.source_mem hl.chain.nodup hsplit ha
  obtain ⟨d', p, rfl⟩ := exists_eq_concat hmem
  have hsplit' : l = d' ++ p :: n :: b := by rw [hsplit]; simp
  -- the cluster goes on from the source up to the neighbour, which the node is not parted from
  obtain ⟨hsource, hneighbour⟩ := (hc.sameCluster_iff_and hsplit' hmem).1 hsame
  by_contra htrue
  rw [Bool.not_eq_false] at htrue
  exact (hc.adjacent hsplit').1 hneighbour (.inr ⟨a, ha, hsource, htrue⟩)

lemma nodesSeparate_prev (hc : c.IsCut l) (hl : c.Lists l) {a b : List NodeId}
    (hsplit : l = a ++ p :: n :: b) (hsame : c.SameCluster p n) : c.nodesSeparate p n = false := by
  by_contra htrue
  rw [Bool.not_eq_false] at htrue
  exact (hc.adjacent hsplit).1 hsame (.inl ⟨p, hl.prev_neighbour hsplit, rfl, htrue⟩)

end IsCut

/-! ### The invariant of the sweep -/

/-- The sweep has cut the given nodes. -/
structure Swept (g : Graph) (done : List NodeId) (s : Sweep) : Prop where
  recut : g.Recut s.graph
  cut : s.graph.IsCut done
  lt_size : ∀ n ∈ done, ∀ k, (s.graph.node n).cluster = some k → k < s.graph.clusters.size
  current : ∀ p, done.getLast? = some p → s.current = (s.graph.node p).cluster

section Sweeping

variable {s : Sweep} {done rest : List NodeId} {released : List ClusterId} {lost : Bool}

lemma Lists.ne_of_front {v : NodeId} (hl : g.Lists (done ++ n :: rest))
    (hv : v ∈ done) : v ≠ n := by
  rintro rfl
  exact (not_mem_of_nodup_append hl.chain.nodup).1 hv

lemma Swept.cut_congr (h : Swept g done s) (hl : g.Lists (done ++ n :: rest))
    (ho : g.Ordered (done ++ n :: rest)) (hc : s.graph.Recut c)
    (hother : ∀ m, m ≠ n → (c.node m).cluster = (s.graph.node m).cluster)
    (hhead : ∀ k < s.graph.clusters.size, c.head? k = s.graph.head? k) : c.IsCut done := by
  refine h.cut.congr hc (fun v hv => hother v (hl.ne_of_front hv))
    (fun v hv k hk => hhead k (h.lt_size v hv k hk)) (fun {a p v b} hsplit => ?_)
    fun v hv a ha => ?_
  · rw [h.recut.prev?]
    exact hl.prev_neighbour (a := a) (b := b ++ n :: rest) (by simp [hsplit])
  · obtain ⟨d, d', rfl⟩ := append_of_mem hv
    rw [h.recut.args] at ha
    rw [h.recut.source]
    have hsplit : d ++ v :: d' ++ n :: rest = d ++ v :: (d' ++ n :: rest) := by simp
    exact mem_append_left _ (ho.source_mem hl.chain.nodup hsplit ha)

/-- The test made during the sweep is the test made on the finished graph. -/
lemma Swept.startsCluster_iff (h : Swept g (done ++ [p]) s)
    (hl : g.Lists (done ++ [p] ++ n :: rest)) (ho : g.Ordered (done ++ [p] ++ n :: rest))
    (hc : s.graph.Recut c) (hother : ∀ m, m ≠ n → (c.node m).cluster = (s.graph.node m).cluster) :
    (s.graph.setCluster n none).startsCluster s.current n ↔ c.PartedFrom p n := by
  have hclear : s.graph.Recut (s.graph.setCluster n none) := recut_setCluster
  have hne : ∀ v ∈ done ++ [p], v ≠ n := fun v => hl.ne_of_front
  have hprev : (s.graph.setCluster n none).prev? n = some p := by
    rw [hclear.prev?, h.recut.prev?, hl.prev, getLast?_concat]
  have hsame : ∀ v ∈ done ++ [p], (c.node v).cluster =
      ((s.graph.setCluster n none).node v).cluster := by
    intro v hv
    rw [hother v (hne v hv), cluster_setCluster_of_ne (hne v hv)]
  have hiff : ∀ v ∈ done ++ [p],
      (c.SameCluster v p ↔ (s.graph.setCluster n none).SameCluster v p) := by
    intro v hv
    rw [SameCluster, SameCluster, hsame v hv, hsame p (by simp)]
  rw [h.current p getLast?_concat, ← hother p (hne p (by simp)), hsame p (by simp),
    Graph.startsCluster_iff hprev, (hclear.symm.trans hc).partedFrom (fun q hq => ?_)
    fun a ha => ?_]
  · rw [hprev] at hq
    cases hq
    exact hiff p (by simp)
  · rw [hclear.source, h.recut.source]
    rw [hclear.args, h.recut.args] at ha
    exact hiff _ (ho.source_mem hl.chain.nodup rfl ha)

section

variable (h : Swept g done s) (hl : g.Lists (done ++ n :: rest))

include h hl

lemma Swept.extend (hc : s.graph.Recut c)
    (hother : ∀ m, m ≠ n → (c.node m).cluster = (s.graph.node m).cluster)
    (hclusters : s.graph.clusters.size ≤ c.clusters.size)
    (hnew : ∀ j, (c.node n).cluster = some j → j < c.clusters.size) (hcut : c.IsCut (done ++ [n])) :
    Swept g (done ++ [n]) ⟨c, (c.node n).cluster, released, lost⟩ := by
  refine ⟨h.recut.trans hc, hcut, fun v hv j hj => ?_, fun p hp => ?_⟩
  · rcases mem_append.1 hv with hv | hv
    · rw [hother v (hl.ne_of_front hv)] at hj
      exact Nat.lt_of_lt_of_le (h.lt_size v hv j hj) hclusters
    · rw [mem_singleton.1 hv] at hj
      exact hnew j hj
  · rw [getLast?_concat] at hp
    cases hp
    rfl

variable (ho : g.Ordered (done ++ n :: rest))

include ho

lemma Swept.start (hstarts : (s.graph.setCluster n none).startsCluster s.current n) :
    Swept g (done ++ [n]) ⟨(s.graph.setCluster n none).openCluster n, some s.graph.clusters.size,
      released, lost⟩ := by
  have hnlt : n < s.graph.nodes.size := h.recut.size ▸ hl.lt_size (by simp)
  have hc : s.graph.Recut ((s.graph.setCluster n none).openCluster n) :=
    recut_setCluster.trans recut_openCluster
  have hother : ∀ m, m ≠ n → (((s.graph.setCluster n none).openCluster n).node m).cluster =
      (s.graph.node m).cluster := fun m hm =>
    (cluster_setCluster_of_ne hm _).trans (cluster_setCluster_of_ne hm _)
  have hself : (((s.graph.setCluster n none).openCluster n).node n).cluster =
      some s.graph.clusters.size := cluster_setCluster (by simpa [setCluster] using hnlt) _
  have hclusters : ((s.graph.setCluster n none).openCluster n).clusters =
      s.graph.clusters.push (some n) := rfl
  have hold := h.cut_congr hl ho hc hother fun k hk => by
    rw [head?, hclusters, Array.getElem?_push, if_neg (Nat.ne_of_lt hk)]
    rfl
  rw [← hself]
  refine h.extend hl hc hother (by simp [hclusters]) (fun j hj => ?_)
    (hold.start hself (fun v hv hk => ?_) ?_ fun p hp => ?_)
  · cases hself.symm.trans hj
    simp [hclusters]
  · -- no node in front has the new cluster
    rw [hother v (hl.ne_of_front hv)] at hk
    exact Nat.lt_irrefl _ (h.lt_size v hv _ hk)
  · rw [head?, hclusters, Array.getElem?_push, if_pos rfl]
    rfl
  · obtain ⟨d, rfl⟩ := getLast?_eq_some_iff.1 hp
    exact (h.startsCluster_iff hl ho hc hother).1 hstarts

lemma Swept.join (hjoins : ¬ (s.graph.setCluster n none).startsCluster s.current n) :
    Swept g (done ++ [n]) ⟨(s.graph.setCluster n none).setCluster n s.current, s.current, released,
      lost⟩ := by
  have hnlt : n < s.graph.nodes.size := h.recut.size ▸ hl.lt_size (by simp)
  have hclear : s.graph.Recut (s.graph.setCluster n none) := recut_setCluster
  have hc := hclear.trans (recut_setCluster (n := n) (k := s.current))
  have hother : ∀ m, m ≠ n → (((s.graph.setCluster n none).setCluster n s.current).node m).cluster =
      (s.graph.node m).cluster := fun m hm =>
    (cluster_setCluster_of_ne hm _).trans (cluster_setCluster_of_ne hm _)
  have hself : (((s.graph.setCluster n none).setCluster n s.current).node n).cluster = s.current :=
    cluster_setCluster (by simpa [setCluster] using hnlt) _
  have hold := h.cut_congr hl ho hc hother fun k _ => rfl
  -- the first node always starts a cluster
  obtain ⟨d, p, rfl⟩ : ∃ d p, done = d ++ [p] := by
    rcases eq_nil_or_concat done with rfl | ⟨d, p, rfl⟩
    · refine absurd ?_ hjoins
      rw [startsCluster, hclear.prev?, h.recut.prev?, hl.prev]
      rfl
    · exact ⟨d, p, concat_eq_append⟩
  have hcurrent := h.current p getLast?_concat
  have hsame : ((s.graph.setCluster n none).setCluster n s.current).SameCluster p n := by
    rw [SameCluster, hself, hother p (hl.ne_of_front (by simp)), hcurrent]
  have hcut := hold.join (fun hn => hl.ne_of_front hn rfl) hsame
    (by rwa [← h.startsCluster_iff hl ho hc hother])
  have hswept : Swept g _ ⟨_, _, released, lost⟩ := h.extend hl hc hother (Nat.le_refl _)
    (fun j hj => h.lt_size p (by simp) j (by rw [← hcurrent, ← hself, hj])) hcut
  rwa [hself] at hswept

lemma Swept.step : Swept g (done ++ [n]) (s.step n) := by
  rw [Sweep.step_eq]
  split
  · next hstarts => exact h.start hl ho hstarts
  · next hjoins => exact h.join hl ho hjoins

end

lemma Swept.foldl (h : Swept g done s) (hl : g.Lists (done ++ rest))
    (ho : g.Ordered (done ++ rest)) : Swept g (done ++ rest) (rest.foldl Sweep.step s) := by
  induction rest generalizing done s with
  | nil => simpa using h
  | cons n rest ih =>
    have hnext := h.step hl ho
    have hl' : g.Lists (done ++ [n] ++ rest) := by simpa using hl
    have ho' : g.Ordered (done ++ [n] ++ rest) := by simpa using ho
    simpa using ih hnext hl' ho'

/-- Before the sweep no node has been cut. -/
lemma swept_nil (g : Graph) : Swept g [] { graph := g } :=
  ⟨Recut.refl g, ⟨by simp, ⟨fun h => absurd h.left_mem not_mem_nil, by simp⟩, by simp⟩, by simp,
    by simp⟩

lemma swept_sweep {l : List NodeId} (hl : g.Lists l) (ho : g.Ordered l) : Swept g l g.sweep := by
  rw [sweep, hl.order]
  have hl' : g.Lists ([] ++ l) := hl
  exact (swept_nil g).foldl hl' ho

end Sweeping

/-! ### The finished cut -/

variable {l : List NodeId}

lemma recut_clusterize (hl : g.Lists l) (ho : g.Ordered l) : g.Recut g.clusterize :=
  (swept_sweep hl ho).recut

lemma isCut_clusterize (hl : g.Lists l) (ho : g.Ordered l) : g.clusterize.IsCut l :=
  (swept_sweep hl ho).cut

/-! ### Recorded programs -/

lemma range_split (h : n < m) : ∃ l, range m = range n ++ n :: l := by
  induction m with
  | zero => exact absurd h (Nat.not_lt_zero n)
  | succ m ih =>
    rw [range_succ]
    rcases Nat.lt_succ_iff_lt_or_eq.1 h with hlt | rfl
    · obtain ⟨l, hl⟩ := ih hlt
      exact ⟨l ++ [m], by rw [hl]; simp⟩
    · exact ⟨[], rfl⟩

variable (h : g.Recorded)

include h

lemma Recorded.prev?_succ (hn : n + 1 < g.nodes.size) :
    g.prev? (n + 1) = some n := by
  obtain ⟨l, hl⟩ := range_split hn
  have hlists := h.lists
  rw [hl] at hlists
  rw [hlists.prev, range_succ, getLast?_concat]

lemma Recorded.source_lt {a : Argument} (ha : a ∈ (g.node n).args) :
    g.source a < n := by
  have hlt := h.earlier n a ha
  have hn := lt_size_of_node (P := fun x => a ∈ x.args) ha not_mem_nil
  rw [h.labelled.source (Nat.lt_trans hlt hn)]
  exact hlt

lemma Recorded.ordered : g.Ordered (range g.nodes.size) := fun _ hn _ ha =>
  precedes_range_iff.2 ⟨h.source_lt ha, mem_range.1 hn⟩

lemma Recorded.recut_clusterize : g.Recut g.clusterize :=
  Graph.recut_clusterize h.lists h.ordered

lemma Recorded.isCut_clusterize :
    g.clusterize.IsCut (range g.nodes.size) :=
  Graph.isCut_clusterize h.lists h.ordered

lemma Recorded.before_iff :
    g.clusterize.Before n m ↔ n < m ∧ m < g.nodes.size := by
  rw [Before, h.recut_clusterize.order, h.order, precedes_range_iff]

lemma Recorded.sameCluster_between {a b : Nat} (hb : b < g.nodes.size)
    (hab : g.clusterize.SameCluster a b) (ham : a ≤ m) (hmb : m ≤ b) :
    g.clusterize.SameCluster a m := by
  rcases Nat.eq_or_lt_of_le ham with rfl | ham
  · rfl
  · rcases Nat.eq_or_lt_of_le hmb with rfl | hmb
    · exact hab
    · exact h.isCut_clusterize.sameCluster_left (precedes_range_iff.2 ⟨ham, Nat.lt_trans hmb hb⟩)
        (precedes_range_iff.2 ⟨hmb, hb⟩) hab

lemma Recorded.sameCluster_succ_iff (hn : n + 1 < g.nodes.size) :
    g.clusterize.SameCluster n (n + 1) ↔ ¬ g.clusterize.PartedFrom n (n + 1) := by
  obtain ⟨l, hl⟩ := range_split hn
  refine h.isCut_clusterize.adjacent (a := range n) (b := l) ?_
  rw [hl, range_succ]
  simp

/-- A cluster reaches as far as nothing parts a node from its first. -/
lemma Recorded.sameCluster_iff_forall {a b : Nat} (hab : a ≤ b) (hb : b < g.nodes.size) :
    g.clusterize.SameCluster a b ↔
      ∀ n, a < n → n ≤ b → ¬ g.clusterize.PartedFrom a n := by
  -- which node of the cluster is taken does not matter
  have hcongr : ∀ {a' n}, g.clusterize.SameCluster a a' →
      (g.clusterize.PartedFrom a n ↔ g.clusterize.PartedFrom a' n) := by
    intro a' n hsame
    simp only [PartedFrom, SameCluster] at hsame ⊢
    rw [hsame]
  induction hab with
  | refl => exact ⟨fun _ n hlt hle => absurd hlt (Nat.not_lt.2 hle), fun _ => rfl⟩
  | @step b hab ih =>
    constructor
    · intro hsame n hlt hle
      have hpred := h.sameCluster_between (m := n - 1) hb hsame (by omega) (by omega)
      have hself := h.sameCluster_between (m := n) hb hsame (by omega) (by omega)
      obtain ⟨j, rfl⟩ : ∃ j, n = j + 1 := ⟨n - 1, by omega⟩
      rw [Nat.add_sub_cancel] at hpred
      rw [hcongr hpred]
      exact (h.sameCluster_succ_iff (by omega)).1 (hpred.symm.trans hself)
    · intro hnone
      have hpred := (ih (by omega)).2 fun n hlt hle => hnone n hlt (by omega)
      have hlast := hnone (b + 1) (Nat.lt_succ_of_le hab) (Nat.le_refl _)
      rw [hcongr hpred] at hlast
      exact hpred.trans ((h.sameCluster_succ_iff hb).2 hlast)

end KernelFusion.Graph
