/-
What recomputing does to the arguments of a program.

When the turn of a cluster comes, its nodes are still as they were cut; copies of all cheap values
that it takes from other clusters are put in front of its head, and exactly the arguments with such
values move to the copies.
-/
import KernelFusion.Proofs.Graph.Tidy
import KernelFusion.Proofs.Pass.Copies
import KernelFusion.Proofs.Recording.Scripts

namespace KernelFusion

open List

variable {v : NodeId} {a : Argument}

lemma Build.useCopy_eq {copies : Copies} {g : Graph} {n : NodeId} {i : Nat}
    (ha : (g.node n).args[i]? = some a) (hv : copies.lookup (g.source a) = some v) :
    useCopy copies n i g = .ok ⟨⟩ (g.setSource n i v) := by
  have hmodify : ∀ f : Graph → Graph, (modify f : Build Unit) g = .ok ⟨⟩ (f g) := fun _ => rfl
  rw [useCopy, hmodify, ha]
  dsimp only
  rw [hv]

namespace Graph

variable {g g₁ c : Graph} {l : List NodeId} {copies : Copies} {n m h : NodeId} {i : Nat}
  {origin : NodeId → NodeId} {s : Summary} {k : ClusterId}

/-! ### Moving arguments to copies -/

/-- The state while arguments move to copies; `done` are the places that have moved. -/
structure Moving (c g₁ : Graph) (copies : Copies) (l : List NodeId) (origin : NodeId → NodeId)
    (done : List (NodeId × Nat)) (g : Graph) : Prop where
  arranged : g.Arranged l
  grown : g₁.Grown g
  size : g.nodes.size = g₁.nodes.size
  labels : g.labels = g₁.labels
  covers : c.Covers g l origin
  moved : ∀ q ∈ done, ∀ a, (g₁.node q.1).args[q.2]? = some a →
    ∃ v ∈ l, copies.lookup (g₁.source a) = some v ∧
      (g.node q.1).args[q.2]? = some { a with source := g₁.label v }
  kept : ∀ n i, (n, i) ∉ done → (g.node n).args[i]? = (g₁.node n).args[i]?

/-- One argument moved to the copy of its source. -/
lemma Moving.step {done : List (NodeId × Nat)} (hm : Moving c g₁ copies l origin done g)
    (hnew : (n, i) ∉ done) (ha : (g₁.node n).args[i]? = some a)
    (hv : copies.lookup (g₁.source a) = some v) (hprec : Precedes l v n)
    (horigin : origin v = origin (g₁.source a)) :
    ∃ g', Build.useCopy copies n i g = .ok ⟨⟩ g' ∧
      Moving c g₁ copies l origin (done ++ [(n, i)]) g' := by
  have ha' : (g.node n).args[i]? = some a := (hm.kept n i hnew).trans ha
  have hsource : g.source a = g₁.source a := by rw [source, source, target, target, hm.labels]
  have hlabel : g.label v = g₁.label v :=
    hm.grown.label v (hm.size ▸ hm.arranged.lists.lt_size hprec.left_mem)
  have hself := args_setSource_self (m := v) (hm.arranged.lists.lt_size hprec.right_mem) i
  rw [hlabel] at hself
  refine ⟨g.setSource n i v, Build.useCopy_eq ha' (by rw [hsource, hv]),
    hm.arranged.setSource hprec i, hm.grown.trans (Grown.setSource g n i v), ?_, hm.labels,
    hm.covers.setSource hm.arranged.linked hprec.left_mem ha' (by rw [hsource, horigin]),
    fun q hq b hb => ?_, fun m j hmj => ?_⟩
  · rw [← hm.size]
    exact size_nodes_modifyNode
  · rcases mem_append.1 hq with hq | hq
    · obtain ⟨v', hv'l, hv', hb'⟩ := hm.moved q hq b hb
      refine ⟨v', hv'l, hv', ?_⟩
      by_cases hqn : q.1 = n
      · have hqi : i ≠ q.2 := fun heq => hnew (by rw [heq, ← hqn]; exact hq)
        rw [hqn, hself, getElem?_modify_ne _ _ hqi, ← hqn, hb']
      · rw [node_setSource_of_ne hqn, hb']
    · obtain rfl := mem_singleton.1 hq
      obtain rfl := Option.mem_unique ha hb
      refine ⟨v, hprec.left_mem, hv, ?_⟩
      rw [hself, getElem?_modify_eq, ha']
      rfl
  · rw [mem_append, mem_singleton, not_or] at hmj
    by_cases hmn : m = n
    · subst hmn
      have hij : i ≠ j := by
        rintro rfl
        exact hmj.2 rfl
      rw [hself, getElem?_modify_ne _ _ hij]
      exact hm.kept m j hmj.1
    · rw [node_setSource_of_ne hmn]
      exact hm.kept m j hmj.1

lemma Moving.all (ht : g₁.Arranged l) (hc : c.Covers g₁ l origin) {wanted : List (NodeId × Nat)}
    (hnodup : wanted.Nodup)
    (hwanted : ∀ q ∈ wanted, ∃ a v, (g₁.node q.1).args[q.2]? = some a ∧
      copies.lookup (g₁.source a) = some v ∧ Precedes l v q.1 ∧ origin v = origin (g₁.source a)) :
    ∃ g, (wanted.forM fun q => Build.useCopy copies q.1 q.2) g₁ = .ok ⟨⟩ g ∧
      Moving c g₁ copies l origin wanted g := by
  refine forM_of_ok (P := fun done g => Moving c g₁ copies l origin done g) ?_ ?_
  · rintro before ⟨n, i⟩ after g hsplit hm
    obtain ⟨a, v, ha, hv, hprec, horigin⟩ := hwanted (n, i) (by rw [hsplit]; simp)
    rw [hsplit] at hnodup
    exact hm.step (not_mem_of_nodup_append hnodup).1 ha hv hprec horigin
  · exact ⟨ht, Grown.refl g₁, rfl, rfl, hc, by simp, fun _ _ _ => rfl⟩

/-! ### The arguments that are worth a copy -/

/-- Is an argument worth a copy of its source? It is the value of another cluster, and cheap. -/
def isWorthCopy (g : Graph) (s : Summary) (n : NodeId) (a : Argument) : Bool :=
  a.kind ≠ .memory && a.kind ≠ .shape && !(g.node (g.source a)).isMemory
    && (g.node (g.source a)).cluster ≠ (g.node n).cluster && cheap (s.cost (g.source a))

lemma copyable_eq (s : Summary) : g.copyable s n =
    ((g.node n).args.zipIdx.filter fun q => g.isWorthCopy s n q.1).map Prod.snd := by
  rw [copyable, ← filterMap_eq_map, filterMap_filter]
  refine filterMap_congr fun q _ => ?_
  rfl

lemma mem_copyable : i ∈ g.copyable s n ↔
    ∃ a, (g.node n).args[i]? = some a ∧ g.isWorthCopy s n a := by
  rw [copyable_eq, mem_map]
  constructor
  · rintro ⟨⟨a, j⟩, hq, rfl⟩
    obtain ⟨hq, hworth⟩ := mem_filter.1 hq
    exact ⟨a, mem_zipIdx_iff_getElem?.1 hq, hworth⟩
  · rintro ⟨a, ha, hworth⟩
    exact ⟨(a, i), mem_filter.2 ⟨mem_zipIdx_iff_getElem?.2 ha, hworth⟩, rfl⟩

lemma nodup_copyable (s : Summary) : (g.copyable s n).Nodup := by
  rw [copyable_eq]
  have hsub := (filter_sublist (p := fun q => g.isWorthCopy s n q.1)
    (l := (g.node n).args.zipIdx)).map Prod.snd
  refine Nodup.sublist hsub ?_
  rw [zipIdx_map_snd]
  exact nodup_range'

/-- The places of a cluster that are worth a copy. -/
def wanted (g : Graph) (s : Summary) (k : ClusterId) : List (NodeId × Nat) :=
  (g.run k).flatMap fun n => (g.copyable s n).map fun i => (n, i)

lemma mem_wanted :
    (n, i) ∈ g.wanted s k ↔ n ∈ g.run k ∧ i ∈ g.copyable s n := by
  rw [wanted, mem_flatMap]
  constructor
  · rintro ⟨m, hm, hq⟩
    obtain ⟨j, hj, heq⟩ := mem_map.1 hq
    obtain ⟨rfl, rfl⟩ := Prod.mk.inj heq
    exact ⟨hm, hj⟩
  · rintro ⟨hn, hi⟩
    exact ⟨n, hn, mem_map_of_mem hi⟩

lemma nodup_wanted (h : (g.run k).Nodup) : (g.wanted s k).Nodup := by
  rw [wanted, nodup_flatMap]
  refine ⟨fun n _ => (nodup_copyable s).map fun i j hij => (Prod.mk.inj hij).2, ?_⟩
  refine h.imp fun hne => ?_
  intro q hq hq'
  obtain ⟨i, -, rfl⟩ := mem_map.1 hq
  obtain ⟨j, -, heq⟩ := mem_map.1 hq'
  exact hne (Prod.mk.inj heq).1.symm

/-- The values that have to be copied for a cluster. -/
def wantedValues (g : Graph) (s : Summary) (k : ClusterId) : List NodeId :=
  (g.wanted s k).filterMap fun q => (g.node q.1).args[q.2]?.map g.source

lemma run_sublist (hl : g.Lists l) (hh : g.head? k = some h) (hmem : h ∈ l) :
    (g.run k).Sublist l := by
  obtain ⟨a, b, rfl⟩ := append_of_mem hmem
  rw [run, hh]
  dsimp only
  rw [hl.fromNode]
  exact (takeWhile_sublist _).trans (sublist_append_right _ _)

lemma nodup_run (hl : g.Lists l) (hh : g.head? k = some h)
    (hmem : h ∈ l) : (g.run k).Nodup := hl.chain.nodup.sublist (run_sublist hl hh hmem)

end Graph

namespace Build

variable {g g' : Graph} {h : NodeId} {k : ClusterId} {s : Summary}

lemma recomputeCluster_of_memory (hh : g.head? k = some h)
    (hmem : (g.node h).isMemory) : recomputeCluster s k g = .ok ⟨⟩ g := by
  unfold recomputeCluster
  rw [bind_of_ok (rfl : (get : Build Graph) g = .ok g g), hh]
  dsimp only
  rw [hmem]
  rfl

lemma recomputeCluster_eq (hh : g.head? k = some h)
    (hmem : (g.node h).isMemory = false) : recomputeCluster s k g =
      (do
        let copies ← before h true (copyComputation (g.wantedValues s k))
        (g.wanted s k).forM fun q => useCopy copies q.1 q.2 : Build Unit) g := by
  unfold recomputeCluster
  rw [bind_of_ok (rfl : (get : Build Graph) g = .ok g g), hh]
  dsimp only
  rw [hmem]
  rfl

end Build

namespace Graph

variable {g g₁ c : Graph} {l : List NodeId} {copies : Copies} {n m v' : NodeId} {i : Nat}
  {origin : NodeId → NodeId}

/-! ### One cluster after the other -/

lemma nodup_firstOccurrences (nodes : List Nat) : (firstOccurrences nodes).Nodup := by
  have hall : ∀ nodes seen : List Nat, seen.Nodup → (nodes.foldl appendNew seen).Nodup := by
    intro nodes
    induction nodes with
    | nil => exact fun _ hseen => hseen
    | cons n rest ih =>
      intro seen hseen
      refine ih _ ?_
      by_cases hn : n ∈ seen
      · rw [appendNew, if_pos (contains_iff_mem.2 hn)]
        exact hseen
      · rw [appendNew, if_neg fun hc => hn (contains_iff_mem.1 hc)]
        exact nodup_append.2 ⟨hseen, nodup_singleton n, fun a ha b hb hab =>
          hn (by rwa [← mem_singleton.1 hb, ← hab])⟩
  exact hall nodes [] nodup_nil

lemma mem_clusterOrder {k : ClusterId} : k ∈ c.clusterOrder ↔ ∃ n ∈ c.order,
    (c.node n).isMemory = false ∧
    (c.node n).cluster = some k := by
  rw [clusterOrder, mem_firstOccurrences, mem_filterMap]
  constructor
  · rintro ⟨n, hn, hk⟩
    obtain ⟨hn, hclustered⟩ := mem_filter.1 hn
    rw [isClustered, Bool.and_eq_true] at hclustered
    exact ⟨n, hn, by simpa using hclustered.1, hk⟩
  · rintro ⟨n, hn, hnm, hk⟩
    exact ⟨n, mem_filter.2 ⟨hn, by simp [isClustered, hnm, hk]⟩, hk⟩

/-- The node `v'` is a copy of `v` for the cluster of `n`: it stands in front of that cluster and
behind everything else that stands in front of `n`. -/
structure IsCopy (c : Graph) (v n : NodeId) (g : Graph) (l : List NodeId) (v' : NodeId) : Prop where
  fresh : c.nodes.size ≤ v'
  op : (g.node v').op = (c.node v).op
  type : (g.node v').type = (c.node v).type
  data : (g.node v').data = (c.node v).data
  cluster : (g.node v').cluster = (c.node n).cluster
  behind : ∀ w, Precedes c.order w n → (c.node w).cluster ≠ (c.node n).cluster → Precedes l w v'
  front : ∀ w ∈ c.order, (c.node w).cluster = (c.node n).cluster → Precedes l v' w

lemma IsCopy.mono {g' : Graph} {l' : List NodeId} (h : IsCopy c v n g l v') (hframe : g.Frame g')
    (hl : l.Sublist l') (hlt : v' < g.nodes.size) : IsCopy c v n g' l' v' :=
  ⟨h.fresh, (hframe.op v' hlt).trans h.op, (hframe.type v' hlt).trans h.type,
    (hframe.data v' hlt).trans h.data, (hframe.cluster v' hlt).trans h.cluster,
    fun w hw hne => (h.behind w hw hne).mono hl, fun w hw heq => (h.front w hw heq).mono hl⟩

/-- The state when the given clusters have been treated. -/
structure Rebuilt (c : Graph) (done : List ClusterId) (g : Graph) (l : List NodeId)
    (origin : NodeId → NodeId) : Prop where
  arranged : g.Arranged l
  grown : c.Grown g
  covers : c.Covers g l origin
  listed : c.order.Sublist l
  getLast : l.getLast? = c.order.getLast?
  fresh : ∀ n ∈ l, n ∈ c.order ∨
    c.nodes.size ≤ n ∧ (g.node n).isMemory = false ∧ ∃ k ∈ done, (g.node n).cluster = some k
  kept : ∀ n < c.nodes.size, (∀ k ∈ done, (c.node n).cluster ≠ some k) →
    (g.node n).args = (c.node n).args
  moved : ∀ n ∈ c.order, ∀ k ∈ done, (c.node n).cluster = some k →
    ∀ (i : Nat) (a : Argument), (c.node n).args[i]? = some a →
      (i ∉ c.copyable c.summary n → (g.node n).args[i]? = some a) ∧
      (i ∈ c.copyable c.summary n → ∃ v ∈ l, (g.node n).args[i]? = some
      { a with source := g.label v } ∧
        IsCopy c (c.source a) n g l v)
  apart : ∀ n ∈ l, c.nodes.size ≤ n → ∀ a ∈ (g.node n).args, a.kind = .shape →
    ¬ g.SameCluster (g.source a) n
  inside : ∀ n ∈ l, c.nodes.size ≤ n → ∀ a ∈ (g.node n).args, a.kind ≠ .shape →
    g.SameCluster (g.source a) n ∨ (g.node (g.source a)).isMemory

section Cluster

variable {done : List ClusterId} {k : ClusterId}

section

variable (hr : Rebuilt c done g l origin)

include hr

lemma Rebuilt.mem_order (hk : k ∉ done) (hn : n ∈ l) (hcluster : (g.node n).cluster = some k) :
    n ∈ c.order := by
  rcases hr.fresh n hn with hn | ⟨-, -, j, hj, hnj⟩
  · exact hn
  · obtain rfl := Option.mem_unique hcluster hnj
    exact absurd hj hk

lemma Rebuilt.args_eq (hk : k ∉ done) (hn : n < c.nodes.size)
    (hcluster : (c.node n).cluster = some k) :
    (g.node n).args = (c.node n).args := by
  refine hr.kept n hn fun j hj hnj => ?_
  obtain rfl := Option.mem_unique hcluster hnj
  exact hk hj

lemma Rebuilt.source_eq (hc : c.Arranged c.order) (hn : n ∈ c.order) (ha : a ∈ (c.node n).args) :
    g.source a = c.source a :=
  hr.grown.source (hc.linked.inside n hn a ha)

lemma Rebuilt.copyable_eq (hc : c.Arranged c.order) (hk : k ∉ done) (hn : n ∈ c.order)
    (hcluster : (c.node n).cluster = some k) (s : Summary) :
    g.copyable s n = c.copyable s n := by
  have hlt := hc.lists.lt_size hn
  rw [Graph.copyable_eq, Graph.copyable_eq, hr.args_eq hk hlt hcluster]
  refine congrArg (map Prod.snd) (filter_congr fun q hq => ?_)
  have ha : q.1 ∈ (c.node n).args := fst_mem_of_mem_zipIdx hq
  have hlt' := hc.lists.lt_size (hc.ordered n hn _ ha).left_mem
  rw [isWorthCopy, isWorthCopy, hr.source_eq hc hn ha, hr.grown.isMemory hlt',
    hr.grown.cluster _ hlt', hr.grown.cluster n hlt]

end

variable {h : NodeId} {A B N : List NodeId} {g' : Graph} {origin' : NodeId → NodeId}
  {rest : List ClusterId}

/-- The turn of the cluster `k` has come; its head `h` stands between `A` and `B`. -/
structure Due (c : Graph) (done : List ClusterId) (k : ClusterId) (g : Graph) (A B : List NodeId)
    (h : NodeId)
    (origin : NodeId → NodeId) : Prop extends Rebuilt c done g (A ++ h :: B) origin where
  cut : c.Arranged c.order
  untreated : k ∉ done
  head : g.head? k = some h
  cluster : (g.node h).cluster = some k

namespace Due

variable (hd : Due c done k g A B h origin)

include hd

lemma cluster_eq (hn : n ∈ c.order) : (g.node n).cluster = (c.node n).cluster :=
  hd.grown.cluster n (hd.cut.lists.lt_size hn)

lemma enter : (g.enter .before h true).Arranged (A ++ h :: B) :=
    hd.arranged.congr rfl rfl rfl rfl rfl rfl

lemma head_le (hn : n ∈ A ++ h :: B) (hkn : (g.node n).cluster = some k) :
    h = n ∨ Precedes (A ++ h :: B) h n := by
  obtain ⟨h', hh', -, -, hle⟩ := hd.arranged.runs.head hn hkn
  obtain rfl := Option.mem_unique hd.head hh'
  exact hle rfl

/-- What a cluster wants does not depend on the clusters done before it. -/
lemma mem_wanted_iff : (n, i) ∈ g.wanted c.summary k ↔
    n ∈ c.order ∧ (c.node n).cluster = some k ∧ i ∈ c.copyable c.summary n := by
  rw [mem_wanted, hd.arranged.runs.mem_run_iff hd.arranged.lists hd.head (by simp) hd.cluster]
  constructor
  · rintro ⟨⟨hle, hkn⟩, hi⟩
    have hnl : n ∈ A ++ h :: B := by
      rcases hle with rfl | hprec
      · simp
      · exact hprec.right_mem
    have hn := hd.mem_order hd.untreated hnl hkn
    rw [hd.cluster_eq hn] at hkn
    rw [hd.copyable_eq hd.cut hd.untreated hn hkn] at hi
    exact ⟨hn, hkn, hi⟩
  · rintro ⟨hn, hkn, hi⟩
    have hkg := (hd.cluster_eq hn).trans hkn
    refine ⟨⟨hd.head_le (hd.listed.subset hn) hkg, hkg⟩, ?_⟩
    rwa [hd.copyable_eq hd.cut hd.untreated hn hkn]

lemma source_of_copyable (hn : n ∈ c.order) (hkn : (c.node n).cluster = some k)
    (hi : i ∈ c.copyable c.summary n) :
    ∃ a, (c.node n).args[i]? = some a ∧ (g.node n).args[i]? = some a ∧ g.source a = c.source a ∧
      c.source a ∈ A ∧ c.source a ∈ c.order ∧ (g.node (c.source a)).isMemory = false := by
  obtain ⟨a, ha, hworth⟩ := mem_copyable.1 hi
  have hmem := mem_of_getElem? ha
  have hsource := hd.source_eq hd.cut hn hmem
  have hargs := hd.args_eq hd.untreated (hd.cut.lists.lt_size hn) hkn
  have hsl := (hd.cut.ordered n hn a hmem).left_mem
  simp only [isWorthCopy, Bool.and_eq_true, decide_eq_true_eq, Bool.not_eq_true'] at hworth
  have hne : (g.node (c.source a)).cluster ≠ some k := by
    rw [hd.cluster_eq hsl, ← hkn]
    exact hworth.1.2
  have hprec : Precedes (A ++ h :: B) (c.source a) n := by
    rw [← hsource]
    exact hd.arranged.ordered n (hd.listed.subset hn) a (hargs ▸ hmem)
  refine ⟨a, ha, by rw [hargs, ha], hsource, ?_, hsl, ?_⟩
  · exact hd.arranged.runs.mem_front hd.cluster hprec ((hd.cluster_eq hn).trans hkn) hne
  · rw [hd.grown.isMemory (hd.cut.lists.lt_size hsl)]
    exact hworth.1.1.2

lemma isCopy (hcopying : Copying c (g.enter .before h true) A B h k copies N origin' g₁)
    (hframe : (g₁.leave g).Frame g') (hn : n ∈ c.order) (hkn : (c.node n).cluster = some k)
    (hv : v ∈ c.order) (hcopy : (v, v') ∈ copies) : IsCopy c v n g' (A ++ N ++ h :: B) v' := by
  obtain ⟨-, hN, horigin⟩ := hcopying.copied _ hcopy
  have hmem : v' ∈ A ++ N ++ h :: B := by simp [hN]
  have hlt : v' < g₁.nodes.size := hcopying.arranged.lists.lt_size hmem
  have hop := hcopying.covers.op v' hmem
  have htype := hcopying.covers.type v' hmem
  have hdata := hcopying.covers.data v' hmem
  rw [horigin, hcopying.covers.self v hv] at hop htype hdata
  refine ⟨Nat.le_trans hd.grown.size (hcopying.fresh v' hN).1, (hframe.op v' hlt).trans hop,
    (hframe.type v' hlt).trans htype, (hframe.data v' hlt).trans hdata,
    ((hframe.cluster v' hlt).trans (hcopying.fresh v' hN).2.2).trans hkn.symm,
    fun w hw hne => ?_, fun w hw heq => ?_⟩
  · have hwA : w ∈ A := by
      refine hd.arranged.runs.mem_front hd.cluster (hw.mono hd.listed)
        ((hd.cluster_eq hn).trans hkn) ?_
      rwa [hd.cluster_eq hw.left_mem, ← hkn]
    exact (Precedes.of_mem hwA hN).mono (sublist_append_left _ _)
  · refine Precedes.of_mem (by simp [hN]) ?_
    rcases hd.head_le (hd.listed.subset hw) ((hd.cluster_eq hw).trans (heq.trans hkn))
      with rfl | hprec
    · exact mem_cons_self
    · exact mem_cons_of_mem _ (hprec.mem_of_left hd.arranged.lists.chain.nodup)

lemma cluster_ne_of_front (hn : n ∈ A) : (g.node n).cluster ≠ some k := fun hkn =>
  (Precedes.of_mem hn mem_cons_self).not_le hd.arranged.lists.chain.nodup
    (hd.head_le (mem_append_left _ hn) hkn)

lemma exists_argument_of_wanted {q : NodeId × Nat} (hq : q ∈ g.wanted c.summary k) :
    ∃ a, (g.node q.1).args[q.2]? = some a ∧ a.source < g.labels.size ∧ g.source a = c.source a ∧
      c.source a ∈ A ∧ c.source a ∈ c.order ∧ (g.node (c.source a)).isMemory = false ∧
      q.1 ∈ c.order ∧
      (c.node q.1).cluster = some k := by
  obtain ⟨m, i⟩ := q
  obtain ⟨hm, hkm, hi⟩ := hd.mem_wanted_iff.1 hq
  obtain ⟨a, -, ha, hsource, haA, hac, hmema⟩ := hd.source_of_copyable hm hkm hi
  have hinside := hd.arranged.linked.inside m (hd.listed.subset hm) a (mem_of_getElem? ha)
  exact ⟨a, ha, hinside, hsource, haA, hac, hmema, hm, hkm⟩

lemma front_of_wantedValues (hv : v ∈ g.wantedValues c.summary k) :
    v ∈ A ∧ (g.node v).isMemory = false := by
  obtain ⟨q, hq, hqv⟩ := mem_filterMap.1 hv
  obtain ⟨a, ha, -, hsource, haA, -, hmema, -⟩ := hd.exists_argument_of_wanted hq
  rw [ha, Option.map_some, hsource] at hqv
  cases hqv
  exact ⟨haA, hmema⟩

lemma exists_copy_of_wanted (hcopying : Copying c (g.enter .before h true)
    A B h k copies N origin' g₁)
    (hfound : ∀ n ∈ g.wantedValues c.summary k, (copies.lookup n).isSome) {q : NodeId × Nat}
    (hq : q ∈ g.wanted c.summary k) :
    ∃ a v, ((g₁.leave g).node q.1).args[q.2]? = some a ∧
      copies.lookup ((g₁.leave g).source a) = some v ∧ Precedes (A ++ N ++ h :: B) v q.1 ∧
      origin' v = origin' ((g₁.leave g).source a) := by
  obtain ⟨a, ha, hinside, hsource, haA, hac, -, hqc, hkq⟩ := hd.exists_argument_of_wanted hq
  have hmemq : c.source a ∈ g.wantedValues c.summary k :=
    mem_filterMap.2 ⟨q, hq, by rw [ha, Option.map_some, hsource]⟩
  obtain ⟨v, hv⟩ := Option.isSome_iff_exists.1 (hfound _ hmemq)
  have hsource₁ : (g₁.leave g).source a = c.source a :=
    (hcopying.grown.source (a := a) hinside).trans hsource
  have hcopyv := hd.isCopy hcopying (Frame.refl _) hqc hkq hac (mem_of_lookup hv)
  have hsame := hcopying.same q.1 (Nat.lt_of_lt_of_le (hd.cut.lists.lt_size hqc) hd.grown.size)
  refine ⟨a, v, ?_, by rw [hsource₁, hv], hcopyv.front q.1 hqc rfl, ?_⟩
  · exact (congrArg (fun v => v.args[q.2]?) hsame).trans ha
  · rw [hsource₁]
    exact (hcopying.copied _ (mem_of_lookup hv)).2.2

end Due

/-- One round: the copies `N` have entered in front of the head of the cluster `k`, which gives the
graph `g₁`, and the arguments that are worth a copy have moved to them. -/
structure Round (c : Graph) (done : List ClusterId) (k : ClusterId) (g : Graph) (A B : List NodeId)
    (h : NodeId) (origin : NodeId → NodeId) (copies : Copies) (N : List NodeId)
    (origin' : NodeId → NodeId) (g₁ g' : Graph) : Prop extends Due c done k g A B h origin where
  copying : Copying c (g.enter .before h true) A B h k copies N origin' g₁
  moving : Moving c (g₁.leave g) copies (A ++ N ++ h :: B) origin' (g.wanted c.summary k) g'

namespace Round

lemma sublist : (A ++ h :: B).Sublist (A ++ N ++ h :: B) :=
  (sublist_append_left A N).append (Sublist.refl _)

lemma mem_cases (hn : n ∈ A ++ N ++ h :: B) : n ∈ N ∨ n ∈ A ++ h :: B := by
  simp only [mem_append] at hn ⊢
  tauto

variable (ht : Round c done k g A B h origin copies N origin' g₁ g')

include ht

lemma growth : g.Grown g' := by
  have hentered : g.Grown (g.enter .before h true) := Grown.of_nodes rfl rfl rfl rfl rfl
  have hleft : g₁.Grown (g₁.leave g) := Grown.of_nodes rfl rfl rfl rfl rfl
  exact ((hentered.trans ht.copying.grown).trans hleft).trans ht.moving.grown

lemma lt_size (hn : n ∈ A ++ h :: B) : n < g.nodes.size := ht.arranged.lists.lt_size hn

lemma same (hn : n < c.nodes.size) : (g₁.leave g).node n = g.node n :=
  ht.copying.same n (Nat.lt_of_lt_of_le hn ht.grown.size)

/-- Copying changes no old node, and moving touches the wanted places only. -/
lemma getElem?_args_eq (hn : n < c.nodes.size) (hi : (n, i) ∉ g.wanted c.summary k) :
    (g'.node n).args[i]? = (g.node n).args[i]? := by
  rw [ht.moving.kept n i hi, ht.same hn]

lemma new (hn : n ∈ N) :
    c.nodes.size ≤ n ∧ (g'.node n).isMemory = false ∧ (g'.node n).cluster = some k := by
  obtain ⟨hge, hmem, hcluster⟩ := ht.copying.fresh n hn
  have hlt : n < g₁.nodes.size := ht.copying.arranged.lists.lt_size (by simp [hn])
  exact ⟨Nat.le_trans ht.grown.size hge, (ht.moving.grown.isMemory hlt).trans hmem,
    (ht.moving.grown.cluster n hlt).trans hcluster⟩

/-- Moving leaves the copies alone, those of this round and those of the rounds before. -/
lemma argument_of_copy (hn : n ∈ A ++ N ++ h :: B) (hge : c.nodes.size ≤ n)
    (ha : a ∈ (g'.node n).args) :
    n ∈ N ∧ a ∈ (g₁.node n).args ∧ g'.source a = g₁.source a ∨
      n ∈ A ++ h :: B ∧ a ∈ (g.node n).args ∧ g'.source a = g.source a := by
  have hargs : (g'.node n).args = (g₁.node n).args := ext_getElem? fun i =>
    ht.moving.kept n i fun hni =>
      absurd (ht.cut.lists.lt_size (ht.mem_wanted_iff.1 hni).1) (Nat.not_lt.2 hge)
  have hsource : g'.source a = g₁.source a := by
    rw [source, source, target, target, ht.moving.labels]
    rfl
  rw [hargs] at ha
  rcases mem_cases hn with hnN | hnl
  · exact .inl ⟨hnN, ha, hsource⟩
  · rw [ht.copying.same n (ht.lt_size hnl)] at ha
    have hinside := ht.arranged.linked.inside n hnl a ha
    exact .inr ⟨hnl, ha, hsource.trans (ht.copying.grown.source hinside)⟩

lemma fresh_next (hn : n ∈ A ++ N ++ h :: B) : n ∈ c.order ∨ c.nodes.size ≤ n ∧
    (g'.node n).isMemory = false ∧ ∃ j ∈ done ++ [k], (g'.node n).cluster = some j := by
  rcases mem_cases hn with hnN | hnl
  · obtain ⟨hge, hmem, hcluster⟩ := ht.new hnN
    exact .inr ⟨hge, hmem, k, by simp, hcluster⟩
  · rw [ht.growth.isMemory (ht.lt_size hnl), ht.growth.cluster n (ht.lt_size hnl)]
    refine (ht.fresh n hnl).imp_right fun ⟨hge, hmem, j, hj, hnj⟩ => ?_
    exact ⟨hge, hmem, j, by simp [hj], hnj⟩

lemma kept_next (hn : n < c.nodes.size) (hdone : ∀ j ∈ done ++ [k], (c.node n).cluster ≠ some j) :
    (g'.node n).args = (c.node n).args := by
  rw [← ht.kept n hn fun j hj => hdone j (by simp [hj])]
  refine ext_getElem? fun i => ht.getElem?_args_eq hn fun hni => ?_
  exact hdone k (by simp) (ht.mem_wanted_iff.1 hni).2.1

/-- The arguments of the cluster whose round it is that are worth a copy move to one. -/
lemma moved_now (hn : n ∈ c.order) (hk : (c.node n).cluster = some k)
    (ha : (c.node n).args[i]? = some a) (hi : i ∈ c.copyable c.summary n) :
    ∃ v ∈ A ++ N ++ h :: B, (g'.node n).args[i]? = some { a with source := g'.label v } ∧
      IsCopy c (c.source a) n g' (A ++ N ++ h :: B) v := by
  obtain ⟨b, hb, hbg, hsource, -, hbc, -⟩ := ht.source_of_copyable hn hk hi
  obtain rfl := Option.mem_unique ha hb
  rw [← ht.same (ht.cut.lists.lt_size hn)] at hbg
  obtain ⟨v, hvl, hv, hmoved⟩ := ht.moving.moved (n, i) (ht.mem_wanted_iff.2 ⟨hn, hk, hi⟩) a hbg
  have hsource₁ : (g₁.leave g).source a = c.source a := by
    rw [← hsource]
    refine ht.copying.grown.source (Nat.lt_of_lt_of_le ?_ ht.grown.labels)
    exact ht.cut.linked.inside n hn a (mem_of_getElem? ha)
  rw [hsource₁] at hv
  have hlabel : g'.label v = (g₁.leave g).label v :=
    ht.moving.grown.label v (ht.moving.size ▸ ht.moving.arranged.lists.lt_size hvl)
  refine ⟨v, hvl, by rw [hmoved, hlabel], ?_⟩
  exact ht.isCopy ht.copying ht.moving.grown.toFrame hn hk hbc (mem_of_lookup hv)

lemma moved_next {j : ClusterId} (hn : n ∈ c.order) (hj : j ∈ done ++ [k])
    (hnj : (c.node n).cluster = some j) (ha : (c.node n).args[i]? = some a) :
    (i ∉ c.copyable c.summary n → (g'.node n).args[i]? = some a) ∧
    (i ∈ c.copyable c.summary n → ∃ v ∈ A ++ N ++ h :: B,
      (g'.node n).args[i]? = some { a with source := g'.label v } ∧
      IsCopy c (c.source a) n g' (A ++ N ++ h :: B) v) := by
  have hlt := ht.cut.lists.lt_size hn
  rcases mem_append.1 hj with hdone | hjk
  · -- the clusters before stay as they are
    obtain ⟨hstay, hcopy⟩ := ht.moved n hn j hdone hnj i a ha
    rw [ht.getElem?_args_eq hlt fun hni => ?_]
    · refine ⟨hstay, fun hi => ?_⟩
      obtain ⟨v, hvl, hv, hcopy⟩ := hcopy hi
      have hvlt := ht.lt_size hvl
      exact ⟨v, sublist.subset hvl, by rw [hv, ht.growth.label v hvlt],
        hcopy.mono ht.growth.toFrame sublist hvlt⟩
    · obtain rfl := Option.mem_unique hnj (ht.mem_wanted_iff.1 hni).2.1
      exact ht.untreated hdone
  · obtain rfl := mem_singleton.1 hjk
    refine ⟨fun hi => ?_, ht.moved_now hn hnj ha⟩
    rw [ht.getElem?_args_eq hlt fun hni => hi (ht.mem_wanted_iff.1 hni).2.2,
      ht.args_eq ht.untreated hlt hnj, ha]

lemma apart_next (hn : n ∈ A ++ N ++ h :: B) (hge : c.nodes.size ≤ n) (ha : a ∈ (g'.node n).args)
    (hkind : a.kind = .shape) : ¬ g'.SameCluster (g'.source a) n := by
  rcases ht.argument_of_copy hn hge ha with ⟨hnN, ha, hsource⟩ | ⟨hnl, ha, hsource⟩
  · have hfront := ht.copying.sizes n hnN a ha hkind
    rw [SameCluster, hsource, (ht.new hnN).2.2,
      ht.growth.cluster _ (ht.lt_size (mem_append_left _ hfront))]
    exact ht.cluster_ne_of_front hfront
  · have hmem := ht.lt_size (ht.arranged.ordered n hnl a ha).left_mem
    rw [SameCluster, hsource, ht.growth.cluster n (ht.lt_size hnl), ht.growth.cluster _ hmem]
    exact ht.apart n hnl hge a ha hkind

lemma inside_next (hn : n ∈ A ++ N ++ h :: B) (hge : c.nodes.size ≤ n) (ha : a ∈ (g'.node n).args)
    (hkind : a.kind ≠ .shape) :
    g'.SameCluster (g'.source a) n ∨ (g'.node (g'.source a)).isMemory := by
  rcases ht.argument_of_copy hn hge ha with ⟨hnN, ha, hsource⟩ | ⟨hnl, ha, hsource⟩
  · rw [SameCluster, hsource, (ht.new hnN).2.2]
    refine (ht.copying.values n hnN a ha hkind).imp (fun hv => (ht.new hv).2.2) fun hmem => ?_
    have hlt := ht.copying.arranged.lists.lt_size (ht.copying.arranged.ordered n hn a ha).left_mem
    exact (ht.moving.grown.isMemory hlt).trans hmem
  · have hmem := ht.lt_size (ht.arranged.ordered n hnl a ha).left_mem
    rw [SameCluster, hsource, ht.growth.cluster n (ht.lt_size hnl), ht.growth.cluster _ hmem,
      ht.growth.isMemory hmem]
    exact ht.inside n hnl hge a ha hkind

lemma next : Rebuilt c (done ++ [k]) g' (A ++ N ++ h :: B) origin' where
  arranged := ht.moving.arranged
  grown := ht.grown.trans ht.growth
  covers := ht.moving.covers
  listed := ht.listed.trans sublist
  getLast := by rw [← ht.getLast, getLast?_append_cons, getLast?_append_cons]
  fresh _ := ht.fresh_next
  kept _ := ht.kept_next
  moved _ hn _ hj hnj _ _ := ht.moved_next hn hj hnj
  apart _ hn hge _ := ht.apart_next hn hge
  inside _ hn hge _ := ht.inside_next hn hge

end Round

lemma Rebuilt.head_eq (hr : Rebuilt c done g l origin) (hc : c.Arranged c.order) (hk : k ∉ done)
    (hn : n ∈ c.order) (hkn : (c.node n).cluster = some k) :
    ∃ h ∈ c.order, c.head? k = some h ∧ g.head? k = some h ∧ (c.node h).cluster = some k := by
  obtain ⟨h, hh, hmem, hkh, -⟩ := hc.runs.head hn hkn
  have hkg := (hr.grown.cluster h (hc.lists.lt_size hmem)).trans hkh
  obtain ⟨h', hh', hmem', hkh', hle'⟩ := hr.arranged.runs.head (hr.listed.subset hmem) hkg
  have hc' := hr.mem_order hk hmem' hkh'
  rw [hr.grown.cluster h' (hc.lists.lt_size hc')] at hkh'
  obtain ⟨h'', hh'', -, -, hle⟩ := hc.runs.head hc' hkh'
  obtain rfl := Option.mem_unique hh hh''
  -- each of the two heads is not behind the other one
  have heq : h' = h := by
    rcases hle rfl with heq | hprec
    · exact heq.symm
    · exact absurd (hle' rfl) ((hprec.mono hr.listed).not_le hr.arranged.lists.chain.nodup)
  exact ⟨h, hmem, hh, heq ▸ hh', hkh⟩

lemma Due.recomputeCluster (hd : Due c done k g A B h origin)
    (hmemory : (g.node h).isMemory = false) :
    ∃ g', Build.recomputeCluster c.summary k g = .ok ⟨⟩ g' ∧
      ∃ l origin', Rebuilt c (done ++ [k]) g' l origin' := by
  obtain ⟨copies, N, origin', g₁, hcopy, hcopying, hfound⟩ := copyComputation_ok hd.enter
    (hd.arranged.lists.enter_before true) hd.listed.subset (hd.covers.congr rfl rfl)
    hd.cluster hd.cluster
    fun _ => hd.front_of_wantedValues
  have harranged : (g₁.leave g).Arranged (A ++ N ++ h :: B) :=
    hcopying.arranged.congr rfl rfl rfl rfl rfl rfl
  obtain ⟨g', hmove, hmoving⟩ := Moving.all harranged (hcopying.covers.congr rfl rfl)
    (nodup_wanted (nodup_run hd.arranged.lists hd.head (by simp)))
    fun _ => hd.exists_copy_of_wanted hcopying hfound
  refine ⟨g', ?_, A ++ N ++ h :: B, origin', Round.next ⟨hd, hcopying, hmoving⟩⟩
  rw [Build.recomputeCluster_eq hd.head hmemory]
  exact (bind_of_ok (Build.placed_eq_ok.2 ⟨g₁, hcopy, rfl⟩)).trans hmove

/-- Is a cluster treated? It has to start with a node that is not memory. -/
def isTreated (c : Graph) (k : ClusterId) : Bool :=
  match c.head? k with
  | some h => !(c.node h).isMemory
  | none => false

lemma Rebuilt.due (hr : Rebuilt c (done.filter c.isTreated) g l origin) (hc : c.Arranged c.order)
    (hsplit : c.clusterOrder = done ++ k :: rest) :
    ∃ h A B, Due c (done.filter c.isTreated) k g A B h origin ∧
    c.isTreated k = !(g.node h).isMemory := by
  obtain ⟨n, hn, -, hkn⟩ := mem_clusterOrder.1 (hsplit ▸ (by simp : k ∈ done ++ k :: rest))
  have hnodup : (done ++ k :: rest).Nodup := hsplit ▸ nodup_firstOccurrences _
  have hnot : k ∉ done.filter c.isTreated := fun hmem =>
    (not_mem_of_nodup_append hnodup).1 (mem_filter.1 hmem).1
  obtain ⟨h, hmem, hhc, hh, hkc⟩ := hr.head_eq hc hnot hn hkn
  have hlt := hc.lists.lt_size hmem
  obtain ⟨A, B, rfl⟩ := append_of_mem (hr.listed.subset hmem)
  refine ⟨h, A, B, ⟨hr, hc, hnot, hh, (hr.grown.cluster h hlt).trans hkc⟩, ?_⟩
  rw [isTreated, hhc, hr.grown.isMemory hlt]

/-- The clusters are treated one after another, each turn without failing. -/
lemma Arranged.turns (hc : c.Arranged c.order) (hsplit : c.clusterOrder = done ++ rest) :
    ∃ g, done.forM (Build.recomputeCluster c.summary) c = .ok ⟨⟩ g ∧
      ∃ l origin, Rebuilt c (done.filter c.isTreated) g l origin := by
  refine forM_of_ok (P := fun done g => ∃ l origin, Rebuilt c (done.filter c.isTreated)
    g l origin) ?_ ?_
  · rintro before k after g rfl ⟨l, origin, hr⟩
    obtain ⟨h, A, B, hd, htreated⟩ := hr.due hc (by simpa using hsplit)
    rw [filter_append]
    cases hmemory : (g.node h).isMemory with
    | true =>
      refine ⟨g, Build.recomputeCluster_of_memory hd.head hmemory, l, origin, ?_⟩
      simpa [htreated, hmemory] using hr
    | false =>
      obtain ⟨g', hrun, l', origin', hr'⟩ := hd.recomputeCluster hmemory
      refine ⟨g', hrun, l', origin', ?_⟩
      simpa [htreated, hmemory] using hr'
  · exact ⟨c.order, id, hc, Grown.refl c, Covers.refl c, Sublist.refl _, rfl,
      fun n hn => .inl hn, fun _ _ _ => rfl, by simp,
      fun n hn hge => absurd (hc.lists.lt_size hn) (Nat.not_lt.2 hge),
      fun n hn hge => absurd (hc.lists.lt_size hn) (Nat.not_lt.2 hge)⟩

lemma Arranged.recompute (hc : c.Arranged c.order) :
    ∃ o, Build.recompute c = .ok ⟨⟩ o ∧
      ∃ l origin, Rebuilt c (c.clusterOrder.filter c.isTreated) o l origin :=
  hc.turns (append_nil _).symm

end Cluster

/-! ### Tidy graphs -/

section Tidy

variable {done : List ClusterId} {k : ClusterId}

lemma Tidy.isTreated_iff (hc : c.Tidy c.order) (hn : n ∈ c.order)
    (hk : (c.node n).cluster = some k) :
    c.isTreated k ↔ (c.node n).isMemory = false := by
  obtain ⟨h, hh, hmem, hkh, -⟩ := hc.grouped.head hn hk
  rw [isTreated, hh, hc.grouped.apart hn hmem hk hkh]
  simp

section

variable (hr : Rebuilt c done g l origin) (hc : c.Tidy c.order) (hdone : ∀ k ∈ done, c.isTreated k)

include hr hc hdone

lemma Rebuilt.isMemory_of_mem (hk : k ∈ done) (hn : n ∈ l)
    (hcluster : (g.node n).cluster = some k) :
    (g.node n).isMemory = false := by
  rcases hr.fresh n hn with hn | ⟨-, hmem, -⟩
  · have hlt := hc.lists.lt_size hn
    rw [hr.grown.cluster n hlt] at hcluster
    rw [hr.grown.isMemory hlt]
    exact (hc.isTreated_iff hn hcluster).1 (hdone k hk)
  · exact hmem

lemma Rebuilt.tidy : g.Tidy l := by
  have hlabelled := hr.grown.labelled hc.labelled
  have hsource : ∀ n ∈ l, ∀ x ∈ (g.node n).args, g.source x = x.source := fun n hn x hx =>
    hlabelled.source (hlabelled.size ▸ hr.arranged.linked.inside n hn x hx)
  refine ⟨⟨hr.arranged.lists, hlabelled, hr.arranged.recording,
    ⟨hr.arranged.runs, fun {n m k} hn hm hkn hkm => ?_, fun {n} hn hmem => ?_⟩, fun n hn => ?_,
    ⟨fun n hn x hx hkind => ?_, fun n hn hcoord => ?_⟩⟩, fun n hn x hx => ?_, ?_⟩
  · by_cases hk : k ∈ done
    · rw [hr.isMemory_of_mem hc hdone hk hn hkn, hr.isMemory_of_mem hc hdone hk hm hkm]
    · have hnc := hr.mem_order hk hn hkn
      have hmc := hr.mem_order hk hm hkm
      have hnlt := hc.lists.lt_size hnc
      have hmlt := hc.lists.lt_size hmc
      rw [hr.grown.cluster n hnlt] at hkn
      rw [hr.grown.cluster m hmlt] at hkm
      rw [hr.grown.isMemory hnlt, hr.grown.isMemory hmlt]
      exact hc.grouped.apart hnc hmc hkn hkm
  · rcases hr.fresh n hn with hnc | ⟨-, -, k, -, hk⟩
    · have hlt := hc.lists.lt_size hnc
      rw [hr.grown.isMemory hlt] at hmem
      rw [hr.grown.cluster n hlt]
      exact hc.grouped.clustered hnc hmem
    · exact ⟨k, hk⟩
  · -- a node has the form of its origin
    refine (hc.regular _ (hr.covers.mem n hn)).reroute (hr.covers.op n hn) ?_
    have hplaces := congrArg (map fun q : ArgKind × Int × NodeId => (q.1, q.2.1))
      (hr.covers.args n hn)
    rw [map_map, map_map] at hplaces
    exact hplaces
  · -- an index comes from a node that has the type of its origin
    have htraced := mem_map_of_mem (f := g.traced origin) hx
    rw [hr.covers.args n hn] at htraced
    obtain ⟨y, hy, heq⟩ := mem_map.1 htraced
    have hmem := hr.covers.mem n hn
    obtain ⟨hykind, -, hyorigin⟩ : y.kind = x.kind ∧ y.index = x.index ∧
        c.source y = origin (g.source x) := by simpa [traced] using heq
    rw [hc.source_eq hmem hy] at hyorigin
    rw [← hsource n hn x hx, hr.covers.type _ (hr.arranged.ordered n hn x hx).left_mem, ← hyorigin]
    exact hc.typed.index _ hmem y hy (hykind.trans hkind)
  · rw [Node.isCoordinate, hr.covers.op n hn] at hcoord
    rw [hr.covers.op n hn, hr.covers.type n hn]
    exact hc.typed.coordinate _ (hr.covers.mem n hn) hcoord
  · rw [← hsource n hn x hx]
    exact hr.arranged.ordered n hn x hx
  · rw [hr.grown.last, hc.last, hr.getLast]

end

lemma Tidy.recompute (hc : c.Tidy c.order) :
    ∃ o, Build.recompute c = .ok ⟨⟩ o ∧ ∃ l origin, o.Tidy l ∧
    Rebuilt c c.clusterOrder o l origin := by
  obtain ⟨o, hrun, l, origin, hr⟩ := hc.arranged.recompute
  have hall : ∀ k ∈ c.clusterOrder, c.isTreated k := by
    intro k hk
    obtain ⟨n, hn, hmem, hkn⟩ := mem_clusterOrder.1 hk
    exact (hc.isTreated_iff hn hkn).2 hmem
  rw [filter_eq_self.2 hall] at hr
  exact ⟨o, hrun, l, origin, hr.tidy hc hall, hr⟩

end Tidy

end Graph

end KernelFusion
