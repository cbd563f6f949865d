/-
What is copied need not be cheap.

The cost of a value counts the operands of its own cluster only, but everything that it is computed
from is copied with it, through all clusters in front. Those have been treated before: some of
their arguments come from copies of their own, and the others are followed, cheap or not.
-/
import KernelFusion.Proofs.Cluster.Costs
import KernelFusion.Proofs.Pass.Meaning

namespace KernelFusion

open List Relation

namespace Graph

variable {c g : Graph} {l : List NodeId} {n m t v x y h : NodeId} {i : Nat} {k : ClusterId}
  {a : Argument} {origin : NodeId → NodeId} {done rest : List ClusterId}

/-- The node is copied when the turn of the cluster comes: the clusters before it have been
treated, its head is not memory, and the node is among those for which copies are put in front of
the head. -/
def CopiedInto (c : Graph) (k : ClusterId) (n : NodeId) : Prop :=
  ∃ done rest g h copies g', c.clusterOrder = done ++ k :: rest ∧
    done.forM (Build.recomputeCluster c.summary) c = .ok ⟨⟩ g ∧
    g.head? k = some h ∧ (g.node h).isMemory = false ∧
    Build.before h true (Build.copyComputation (g.wantedValues c.summary k)) g = .ok copies g' ∧
    ∃ w, copies.lookup n = some w

/-- The value is taken by a cluster that does not start with memory, from another cluster, and it is
cheap. -/
def TakenCheap (c : Graph) (k : ClusterId) (v : NodeId) : Prop :=
  c.isTreated k ∧ ∃ n ∈ c.order, (c.node n).cluster = some k ∧
    ∃ i ∈ c.copyable c.summary n, ∃ a, (c.node n).args[i]? = some a ∧ c.source a = v

/-! ### The nodes that are copied -/

namespace Due

variable {A B : List NodeId} (hd : Due c done k g A B h origin)

include hd

lemma mem_wantedValues :
    v ∈ g.wantedValues c.summary k ↔ ∃ n ∈ c.order, (c.node n).cluster = some k ∧
      ∃ i ∈ c.copyable c.summary n, ∃ a, (c.node n).args[i]? = some a ∧ c.source a = v := by
  have hplace : ∀ {n : NodeId} {i : Nat} {a : Argument}, n ∈ c.order → (c.node n).cluster = some k →
      (c.node n).args[i]? = some a → (g.node n).args[i]? = some a ∧ g.source a = c.source a := by
    intro n i a hn hkn ha
    rw [hd.args_eq hd.untreated (hd.cut.lists.lt_size hn) hkn]
    exact ⟨ha, hd.source_eq hd.cut hn (mem_of_getElem? ha)⟩
  rw [wantedValues, mem_filterMap]
  constructor
  · rintro ⟨⟨n, i⟩, hq, hv⟩
    obtain ⟨hn, hkn, hi⟩ := hd.mem_wanted_iff.1 hq
    obtain ⟨a, ha, -⟩ := mem_copyable.1 hi
    obtain ⟨hag, hsource⟩ := hplace hn hkn ha
    rw [hag, Option.map_some, Option.some.injEq, hsource] at hv
    exact ⟨n, hn, hkn, i, hi, a, ha, hv⟩
  · rintro ⟨n, hn, hkn, i, hi, a, ha, hv⟩
    obtain ⟨hag, hsource⟩ := hplace hn hkn ha
    exact ⟨(n, i), hd.mem_wanted_iff.2 ⟨hn, hkn, hi⟩, by rw [hag, Option.map_some, hsource, hv]⟩

lemma exists_copies :
    ∃ copies g', Build.before h true (Build.copyComputation (g.wantedValues c.summary k))
    g = .ok copies g' ∧
      ∀ n, (∃ w, copies.lookup n = some w) ↔
        ∃ t ∈ g.wantedValues c.summary k, ReflTransGen g.ComputedFrom t n := by
  obtain ⟨copies, g', hrun, -, hcopies, -⟩ := (hd.arranged.lists.enter_before true).copyComputation
    hd.enter.linked hd.enter.ordered hd.enter.recording fun t ht =>
      mem_append_left _ (hd.front_of_wantedValues ht).1
  exact ⟨copies, _, Build.placed_eq_ok.2 ⟨g', hrun, rfl⟩, hcopies.domain⟩

end Due

/-- The turn of a cluster that does not start with memory. -/
structure Turn (c : Graph) (k : ClusterId) (done rest : List ClusterId) (g : Graph) : Prop where
  split : c.clusterOrder = done ++ k :: rest
  run : done.forM (Build.recomputeCluster c.summary) c = .ok ⟨⟩ g
  treated : c.isTreated k
  rebuilt : ∃ l origin, Rebuilt c (done.filter c.isTreated) g l origin

lemma Arranged.exists_turn (hc : c.Arranged c.order) (hk : k ∈ c.clusterOrder)
    (htreated : c.isTreated k) :
    ∃ done rest g, Turn c k done rest g := by
  obtain ⟨done, rest, hsplit⟩ := append_of_mem hk
  obtain ⟨g, hrun, hr⟩ := hc.turns hsplit
  exact ⟨done, rest, g, hsplit, hrun, htreated, hr⟩

section

variable (hc : c.Arranged c.order)

include hc

lemma Turn.mem_wantedValues (ht : Turn c k done rest g) :
    v ∈ g.wantedValues c.summary k ↔ c.TakenCheap k v := by
  obtain ⟨l, origin, hr⟩ := ht.rebuilt
  obtain ⟨h, A, B, hd, -⟩ := hr.due hc ht.split
  rw [hd.mem_wantedValues, TakenCheap, ht.treated]
  simp

lemma Turn.copiedInto (ht : Turn c k done rest g) (htaken : c.TakenCheap k t)
    (hpath : ReflTransGen g.ComputedFrom t n) : c.CopiedInto k n := by
  obtain ⟨l, origin, hr⟩ := ht.rebuilt
  obtain ⟨h, A, B, hd, htreated⟩ := hr.due hc ht.split
  obtain ⟨copies, g', hrun, hdomain⟩ := hd.exists_copies
  rw [ht.treated] at htreated
  exact ⟨done, rest, g, h, copies, g', ht.split, ht.run, hd.head, by simpa using htreated, hrun,
    (hdomain n).2 ⟨t, (ht.mem_wantedValues hc).2 htaken, hpath⟩⟩

lemma CopiedInto.exists_turn (hn : c.CopiedInto k n) : ∃ done rest g t, Turn c k done rest g ∧
    c.TakenCheap k t ∧ ReflTransGen g.ComputedFrom t n := by
  obtain ⟨done, rest, g, h, copies, g', hsplit, hrun, hh, hmemory, hcopy, hfound⟩ := hn
  obtain ⟨g₁, hrun₁, l, origin, hr⟩ := hc.turns hsplit
  cases hrun.symm.trans hrun₁
  obtain ⟨h', A, B, hd, htreated⟩ := hr.due hc hsplit
  obtain rfl := Option.mem_unique hh hd.head
  obtain ⟨copies', g'', hcopy', hdomain⟩ := hd.exists_copies
  cases hcopy.symm.trans hcopy'
  rw [hmemory] at htreated
  have ht : Turn c k done rest g := ⟨hsplit, hrun, htreated, l, origin, hr⟩
  obtain ⟨t, hwanted, hpath⟩ := (hdomain n).1 hfound
  exact ⟨done, rest, g, t, ht, (ht.mem_wantedValues hc).1 hwanted, hpath⟩

end

/-! ### What nodes are computed from, before and during the pass -/

lemma Rebuilt.computedFrom_origin (hr : Rebuilt c done g l origin) (hx : x ∈ l)
    (hxy : g.ComputedFrom x y) :
    y ∈ l ∧ c.ComputedFrom (origin x) (origin y) := by
  obtain ⟨a, ha, hkind, hmem, rfl⟩ := hxy
  have hy := (hr.arranged.ordered x hx a ha).left_mem
  have htraced := mem_map_of_mem (f := g.traced origin) ha
  rw [hr.covers.args x hx] at htraced
  obtain ⟨b, hb, heq⟩ := mem_map.1 htraced
  obtain ⟨hbkind, -, hbsource⟩ : b.kind = a.kind ∧ b.index = a.index ∧
    c.source b = origin (g.source a) := by
    simpa [traced] using heq
  rw [hr.covers.isMemory hy] at hmem
  exact ⟨hy, b, hb, hbkind ▸ hkind, hmem, hbsource⟩

lemma Rebuilt.reaches_origin (hr : Rebuilt c done g l origin) (hx : x ∈ l)
    (hpath : ReflTransGen g.ComputedFrom x y) :
    y ∈ l ∧ ReflTransGen c.ComputedFrom (origin x) (origin y) := by
  induction hpath with
  | refl => exact ⟨hx, .refl⟩
  | tail _ hstep ih =>
    obtain ⟨hz, hstep⟩ := hr.computedFrom_origin ih.1 hstep
    exact ⟨hz, ih.2.tail hstep⟩

lemma Rebuilt.computedFrom_or_moved (hr : Rebuilt c done g l origin) (hc : c.Arranged c.order)
    (hx : x ∈ c.order) (hxy : c.ComputedFrom x y) : g.ComputedFrom x y ∨
      ∃ k ∈ done, (c.node x).cluster = some k ∧
        ∃ i ∈ c.copyable c.summary x, ∃ a, (c.node x).args[i]? = some a ∧ c.source a = y := by
  obtain ⟨a, ha, hkind, hmem, rfl⟩ := hxy
  obtain ⟨i, hi⟩ := mem_iff_getElem?.1 ha
  have hlt := hc.lists.lt_size (hc.ordered x hx a ha).left_mem
  have hstays : (g.node x).args[i]? = some a → g.ComputedFrom x (c.source a) := by
    intro hag
    refine ⟨a, mem_of_getElem? hag, hkind, ?_, hr.source_eq hc hx ha⟩
    rw [hr.grown.isMemory hlt]
    exact hmem
  by_cases hdone : ∃ k ∈ done, (c.node x).cluster = some k
  · obtain ⟨k, hk, hkx⟩ := hdone
    by_cases hcopy : i ∈ c.copyable c.summary x
    · exact .inr ⟨k, hk, hkx, i, hcopy, a, hi, rfl⟩
    · exact .inl (hstays ((hr.moved x hx k hk hkx i a hi).1 hcopy))
  · push Not at hdone
    refine .inl (hstays ?_)
    rw [hr.kept x (hc.lists.lt_size hx) hdone]
    exact hi

/-! ### Costs -/

/-- All that a taken value is computed from is cheap, if all copies are. -/
lemma cheap_of_reaches (hc : c.Arranged c.order)
    (hcopied : ∀ k n, c.CopiedInto k n → cheap (c.summary.cost n))
    (hpath : ReflTransGen c.ComputedFrom x v) (hx : x ∈ c.order) (hturn : Turn c k done rest g)
    (htaken : c.TakenCheap k t)
    (hreach : ReflTransGen g.ComputedFrom t x) : cheap (c.summary.cost v) := by
  induction hpath using ReflTransGen.head_induction_on generalizing k done rest g t with
  | refl => exact hcopied k v (hturn.copiedInto hc htaken hreach)
  | @head x y hstep _ ih =>
    have hy : y ∈ c.order := by
      obtain ⟨a, ha, -, -, rfl⟩ := hstep
      exact (hc.ordered x hx a ha).left_mem
    obtain ⟨l, origin, hr⟩ := hturn.rebuilt
    rcases hr.computedFrom_or_moved hc hx hstep with hstep | ⟨j, hj, hjx, i, hi, a, ha, rfl⟩
    · exact ih hy hturn htaken (hreach.tail hstep)
    · obtain ⟨hjdone, hjtreated⟩ := mem_filter.1 hj
      obtain ⟨done', rest', g', hturn'⟩ :=
        hc.exists_turn (hturn.split ▸ mem_append_left _ hjdone) hjtreated
      exact ih hy hturn' ⟨hjtreated, x, hx, hjx, i, hi, a, ha, rfl⟩ .refl

/-- For every program whose values are defined before they are used and whose clusters are runs that
start with their heads: all nodes that recomputing copies had a low cost before, if and only if
whatever a cheap value of another cluster is computed from has a low cost. -/
theorem copies_cheap_iff (hc : c.Arranged c.order) :
    (∀ k n, c.CopiedInto k n → cheap (c.summary.cost n) = true) ↔
      ∀ k v, c.TakenCheap k v → ∀ n, ReflTransGen c.ComputedFrom v n →
      cheap (c.summary.cost n) = true := by
  constructor
  · intro hcopied k v htaken n hpath
    obtain ⟨htreated, m, hm, hkm, i, hi, a, ha, rfl⟩ := htaken
    obtain ⟨done, rest, g, hturn⟩ := hc.exists_turn (hc.mem_clusterOrder hm hkm htreated) htreated
    exact cheap_of_reaches hc hcopied hpath (hc.ordered m hm a (mem_of_getElem? ha)).left_mem hturn
      ⟨htreated, m, hm, hkm, i, hi, a, ha, rfl⟩ .refl
  · intro hcheap k n hn
    obtain ⟨done, rest, g, t, hturn, htaken, hpath⟩ := CopiedInto.exists_turn hc hn
    by_cases hlt : n < c.nodes.size
    · obtain ⟨l, origin, hr⟩ := hturn.rebuilt
      obtain ⟨-, m, hm, -, i, -, a, ha, rfl⟩ := id htaken
      have ht := (hc.ordered m hm a (mem_of_getElem? ha)).left_mem
      obtain ⟨hnl, hpath⟩ := hr.reaches_origin (hr.listed.subset ht) hpath
      rcases hr.fresh n hnl with hn | ⟨hge, -⟩
      · rw [hr.covers.self _ ht, hr.covers.self n hn] at hpath
        exact hcheap k _ htaken n hpath
      · exact absurd hlt (Nat.not_lt.2 hge)
    · rw [cost_of_size_le (Nat.not_lt.1 hlt)]
      decide +kernel

/-- A cluster that takes a cheap value and an expensive one from others. -/
def unequal : List Step :=
  [ .act (.input .float (.sizes [4])) (some "A"),
    .act (.load "A" []) (some "x"),
    .act (.load "A" []) (some "y"),
    .act (.call (.folding .add) ["x", "y"]) (some "u"),
    .act (.call (.named "sin") ["A"]) (some "v"),
    .act (.constant .int 2 (.sizes [])) (some "two"),
    .act (.index (.extent (.tensors ["two"])) 0) (some "i"),
    .act (.call (.folding .mul) ["v", "u"]) (some "w") ]

/-- Its clusters. -/
def unequalCut : Graph := (Script.scene unequal).graph.clusterize

/-- The sine is taken and copied; the sum costs too much, and no copied node is computed from it. -/
theorem copies_cheap_unequalCut :
    unequalCut.Arranged unequalCut.order ∧ unequalCut.TakenCheap 4 5 ∧
      cheap (unequalCut.summary.cost 4) = false ∧
      ∀ k n, unequalCut.CopiedInto k n → cheap (unequalCut.summary.cost n) = true := by
  have hrecorded := (Script.recorded (l := unequal) (by decide +kernel)).graph
  have harranged : unequalCut.Arranged unequalCut.order := hrecorded.tidy_clusterize_order.arranged
  have hall : ∀ n ∈ unequalCut.order, ∀ i ∈ unequalCut.copyable unequalCut.summary n,
      ∀ a ∈ (unequalCut.node n).args[i]?, ∀ m ∈ unequalCut.closure [unequalCut.source a],
      cheap (unequalCut.summary.cost m) = true := by decide +kernel
  refine ⟨harranged, ⟨by decide +kernel, 8, by decide +kernel, by decide +kernel,
    0, by decide +kernel,
    ⟨.input, 0, 5⟩, by decide +kernel, by decide +kernel⟩, by decide +kernel, ?_⟩
  refine (copies_cheap_iff harranged).2 fun k v htaken n hpath => ?_
  obtain ⟨-, m, hm, -, i, hi, a, ha, rfl⟩ := htaken
  exact hall m hm i hi a ha n (mem_closure_iff.2 ⟨_, mem_singleton_self _, hpath⟩)

/-- A value that passes through three clusters. -/
def passedOn : List Step :=
  [ .act (.input .float (.sizes [4])) (some "A"),
    .act (.load "A" []) (some "x"),
    .act (.load "A" []) (some "y"),
    .act (.call (.folding .add) ["x", "y"]) (some "u"),
    .act (.constant .int 2 (.sizes [])) (some "two"),
    .act (.index (.extent (.tensors ["two"])) 0) (some "i"),
    .act (.call (.named "sin") ["u"]) (some "v"),
    .act (.constant .int 3 (.sizes [])) (some "three"),
    .act (.index (.extent (.tensors ["three"])) 0) (some "j"),
    .act (.call (.named "cos") ["v"]) (some "w") ]

/-- Its clusters. -/
def passedOnCut : Graph := (Script.scene passedOn).graph.clusterize

/-- The sine costs little in its own cluster. The cluster of the cosine gets a copy of it, and with
it a copy of the sum of two loads, which costs 257. -/
theorem not_forall_copies_cheap : ¬ ∀ c : Graph, c.Arranged c.order →
    ∀ k n, c.CopiedInto k n → cheap (c.summary.cost n) = true := by
  intro hall
  have hrecorded := (Script.recorded (l := passedOn) (by decide +kernel)).graph
  have harranged : passedOnCut.Arranged passedOnCut.order :=
    hrecorded.tidy_clusterize_order.arranged
  obtain ⟨g, hturns, hhead, hmemory, copies, g', hcopy, hfound⟩ : ∃ g,
      [0, 2, 3, 4, 5].forM (Build.recomputeCluster passedOnCut.summary) passedOnCut = .ok ⟨⟩ g ∧
      g.head? 6 = some 10 ∧ (g.node 10).isMemory = false ∧ ∃ copies g',
        Build.before 10 true (Build.copyComputation (g.wantedValues passedOnCut.summary 6))
        g = .ok copies g' ∧
        (copies.lookup 4).isSome = true := by decide +kernel
  have hcopied : passedOnCut.CopiedInto 6 4 :=
    ⟨[0, 2, 3, 4, 5], [], g, 10, copies, g', by decide +kernel, hturns,
    hhead, hmemory, hcopy, Option.isSome_iff_exists.1 hfound⟩
  have hcheap := hall passedOnCut harranged 6 4 hcopied
  revert hcheap
  decide +kernel

end Graph

end KernelFusion
