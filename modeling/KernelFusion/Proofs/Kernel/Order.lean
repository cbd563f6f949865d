/-
The order of a program after all passes.

A load stands behind the value it brings, and the memory of a value in front of it
(`Passing.forward`). Flat addresses keep this, except that a coordinate of the cluster may be used
wherever it stands; but coordinates take nothing from other nodes.
-/
import KernelFusion.Proofs.Kernel.Stages

namespace KernelFusion.Graph

open List

variable {outputs : List NodeId} {g g' c o p s t f : Graph} {origin : NodeId → NodeId}
  {es : List (NodeId × Entry)} {done : List (NodeId × Nat)} {ks : List Kernel} {n m : NodeId}
  {a : Argument} {lp ls : List NodeId} {policy : Policy}

/-! ### Values that go through memory -/

namespace Passing

variable (h : Passing p lp es done s ls)

include h

lemma exists_value (hp : o.Pruned p lp) (hn : n ∈ ls) (ha : a ∈ (s.node n).args)
    (hkind : a.kind = .memory) :
    ∃ v ∈ lp, Precedes ls v n ∧ (s.source a = v ∨ (s.source a, Entry.memory v) ∈ es) := by
  rcases h.entered n hn with hnp | ⟨e, he⟩
  · obtain ⟨i, hi⟩ := mem_iff_getElem?.1 ha
    by_cases hdone : (n, i) ∈ done
    · obtain ⟨b, -, -, hmoves, hmemory, -⟩ := h.exists_moved hnp hi hdone
      exact ⟨_, hmoves.2.1.left_mem, hmoves.2.1.mono h.listed, .inr (hmemory hkind)⟩
    · rw [h.kept n hnp i hdone] at hi
      have hprec := hp.accessed n hnp a (mem_of_getElem? hi) hkind
      exact ⟨a.source, hprec.left_mem, hprec.mono h.listed, .inl (h.source_eq hp hn ha).2⟩
  · obtain ⟨v, hv, hprec, hbrings⟩ := h.brings_of_entered he ha hkind
    exact ⟨v, hv, hprec, hbrings.imp_left And.right⟩

lemma mem_of_lt (hn : n ∈ ls) (hlt : n < p.nodes.size) : n ∈ lp := by
  rcases h.entered n hn with hnp | ⟨e, he⟩
  · exact hnp
  · exact absurd hlt (Nat.not_lt.2 (h.fits n e he).2.1)

lemma precedes_of_old (hp : o.Pruned p lp) (hn : n ∈ lp) (ha : a ∈ (p.node n).args)
    (hsource : a.source ∈ ls) :
    Precedes ls a.source n :=
  (hp.forward n hn a ha (h.mem_of_lt hsource (hp.inside n hn a ha))).mono h.listed

lemma forward (hp : o.Pruned p lp) : s.Forward ls := by
  refine ⟨fun n hn a ha hshape hsource => ?_, fun n hn haccess m hm a ha hkind hsource => ?_⟩
  · rcases h.precedes_or_old hn ha hshape with hprec | ⟨hnp, hold⟩
    · rwa [(h.source_eq hp hn ha).2] at hprec
    · exact h.precedes_of_old hp hnp hold hsource
  · -- sizes of a memory are sizes of the value that it is for
    obtain ⟨x, hx, hxkind, rfl⟩ := (h.sparse hp).exists_argument hn hm
    obtain ⟨v, hv, hprec, hsame⟩ := h.exists_value hp hn hx hxkind
    rw [(h.source_eq hp hn hx).2] at hsame
    have hold : a ∈ (p.node v).args := by
      rcases hsame with rfl | hentered
      · exact h.mem_of_shape hv ha hkind
      · exact (h.fits _ _ hentered).2.2.sizes a ha
    exact (h.precedes_of_old hp hv hold hsource).trans hprec h.chain.nodup

end Passing

/-! ### What nodes take -/

/-- Only accesses take indices. -/
def IndexesAccess (g : Graph) (n : NodeId) : Prop :=
  ∀ a ∈ (g.node n).args, a.kind = .index → (g.node n).op.kind.accesses

lemma Admits.indexesAccess {op : Operation} {type : Scalar} {args : List Argument}
    (hall : ∀ m < g.nodes.size, g.IndexesAccess m) (ha : g.Admits policy op type args) :
    ∀ a ∈ args, a.kind = .index → op.kind.accesses := by
  intro a hmem hkind
  cases ha with
  | value _ _ _ _ _ _ _ =>
    rcases mem_append.1 hmem with hmem | hmem
    · rw [kind_of_mem_block hmem] at hkind
      cases hkind
    · rw [kind_of_mem_block hmem] at hkind
      cases hkind
  | access _ _ haccess _ _ _ _ _ _ _ _ => exact haccess
  | source _ _ _ _ _ =>
    rw [kind_of_mem_block hmem] at hkind
    cases hkind
  | @copy m hm => exact hall m hm.1 a hmem hkind

lemma Traces.indexesAccess (ht : Traces policy opened g) : ∀ m < g.nodes.size,
    g.IndexesAccess m := by
  refine ht.forall_nodes (fun _ hc hlt hm a ha hkind => ?_) fun _ ha hall a hmem hkind => ?_
  · obtain ⟨hop, -, hargs⟩ := hc.node hlt
    rw [hop]
    exact hm a (hargs ▸ ha) hkind
  · rw [node_insert_self] at hmem ⊢
    exact ha.indexesAccess hall a hmem hkind

section

variable (hs : Stages outputs g c o p s t origin es done)

include hs

lemma Stages.kinds (hn : n ∈ p.order) :
    (s.node n).op = (g.node (origin n)).op ∧
      (s.node n).args.map (·.kind) = (g.node (origin n)).args.map (·.kind) := by
  have hno := ((hs.left n).1 hn).1
  have hlt := hs.passing.old n hn
  have hcovers := hs.rebuilt.covers
  obtain ⟨role, slot, cluster, hcut⟩ := hs.node_cut (origin n)
  have hop : (s.node n).op = (g.node (origin n)).op := by
    rw [hs.passing.extended.op n hlt, hs.pruned.thinned.node_eq, hcovers.op n hno, hcut]
  refine ⟨hop, ?_⟩
  calc (s.node n).args.map (·.kind)
      = (p.node n).args.map (·.kind) := by
        have hplaces := congrArg (map Prod.fst) (hs.passing.places n hlt)
        rwa [map_map, map_map] at hplaces
    _ = (o.node n).args.map (·.kind) := by rw [hs.pruned.thinned.node_eq]
    _ = (c.node (origin n)).args.map (·.kind) := by
        have htraced := congrArg (map Prod.fst) (hcovers.args n hno)
        rwa [map_map, map_map] at htraced
    _ = (g.node (origin n)).args.map (·.kind) := by rw [hcut]

/-- Only accesses take memory or indices. -/
lemma Stages.plain (hg : ∀ n < g.nodes.size, g.IndexesAccess n) (hn : n ∈ s.order)
    (haccess : (s.node n).op.kind.accesses = false) :
    ∀ a ∈ (s.node n).args, a.kind ≠ .memory ∧ a.kind ≠ .index := by
  intro a ha
  have hmemory : a.kind ≠ .memory := by
    intro hkind
    have hlength := (hs.spilled.regular n hn).memory
    rw [haccess, if_neg (by decide), length_eq_zero_iff] at hlength
    exact absurd (hlength ▸ Node.mem_labels.2 ⟨a, ha, hkind, rfl⟩) not_mem_nil
  have hindex : a.kind ≠ .index := by
    intro hkind
    rcases hs.passing.entered n hn with hnp | ⟨e, he⟩
    · obtain ⟨hop, hkinds⟩ := hs.kinds hnp
      have hlt : origin n < g.nodes.size := by
        have hmem := hs.rebuilt.covers.mem n ((hs.left n).1 hnp).1
        rwa [hs.order_cut, mem_range] at hmem
      obtain ⟨b, hb, hbkind⟩ := mem_map.1 (hkinds ▸ mem_map_of_mem ha)
      have hb' := hg (origin n) hlt b hb (hbkind.trans hkind)
      rw [← hop, haccess] at hb'
      cases hb'
    · exact hs.passing.kind_of_entered he ha hkind
  exact ⟨hmemory, hindex⟩

lemma Stages.args_first (hn : 0 ∈ s.order) :
    (s.node 0).args = [] := by
  have hold : ∀ {v}, v ∈ p.order → 0 < p.nodes.size := fun hv =>
    Nat.lt_of_le_of_lt (Nat.zero_le _) (hs.passing.old _ hv)
  have hnp : 0 ∈ p.order := by
    rcases hs.passing.entered 0 hn with hnp | ⟨e, he⟩
    · exact hnp
    · -- what enters, enters for an old node
      obtain ⟨-, hle, hfits⟩ := hs.passing.fits 0 e he
      have hsize : 0 < p.nodes.size := by
        cases e with
        | memory v => exact hold hfits.mem
        | load v m user => exact hold hfits.before.left_mem
        | store v m => exact hold (hs.passing.value_of_store he).1
      exact absurd hsize (Nat.not_lt.2 hle)
  have horigin : origin 0 = 0 := by
    have hmem := hs.rebuilt.covers.mem 0 ((hs.left 0).1 hnp).1
    refine hs.rebuilt.covers.self 0 ?_
    rw [hs.order_cut, mem_range] at hmem ⊢
    exact Nat.lt_of_le_of_lt (Nat.zero_le _) hmem
  have hfirst : (g.node 0).args = [] := by
    rw [eq_nil_iff_forall_not_mem]
    intro a ha
    obtain ⟨role, slot, hnode⟩ := node_setOutputs outputs.zipIdx g 0
    have hnode' : (withOutputs outputs g).node 0 = { g.node 0 with role, slot } := hnode
    exact absurd (hs.recorded.earlier 0 a (by rwa [hnode'])) (Nat.not_lt_zero _)
  have hkinds := (hs.kinds hnp).2
  rw [horigin, hfirst] at hkinds
  exact map_eq_nil_iff.1 hkinds

/-! ### The last graph -/

end

/-- The order of the nodes in the graph that the passes leave. -/
structure Sequenced (f : Graph) : Prop where
  labelled : f.Labelled
  inside : ∀ n ∈ f.order, ∀ a ∈ (f.node n).args, a.kind ≠ .shape → a.source < f.nodes.size
  accesses : ∀ n ∈ f.order, (f.node n).op.kind.accesses → ∃ a ∈ (f.node n).args, a.kind = .memory
  plain : ∀ n ∈ f.order, (f.node n).op.kind.accesses = false →
    ∀ a ∈ (f.node n).args, a.kind ≠ .memory ∧ a.kind ≠ .index
  first : 0 ∈ f.order → ∀ a ∈ (f.node 0).args, a.kind = .shape
  earlier : ∀ n ∈ f.order, ∀ a ∈ (f.node n).args, a.kind ≠ .shape → a.source ∈ f.order →
    f.IsRoot a.source ∨ Precedes f.order a.source n

/-- In the lowered program every argument precedes its user. -/
lemma Stages.sequenced (hs : Stages outputs g c o p s t origin es done)
    (hg : ∀ n < g.nodes.size, g.IndexesAccess n) : t.Sequenced := by
  have haddr := hs.addressing
  have hsame : ∀ {n}, n < s.nodes.size → (t.node n).op.kind.accesses = false →
      (t.node n).args = (s.node n).args := by
    intro n hlt haccess
    refine haddr.evolves.args n hlt fun hE => ?_
    rw [haddr.evolves.op n hlt, hE] at haccess
    cases haccess
  refine ⟨haddr.labelled, haddr.inside, fun n hn haccess => ?_, fun n hn haccess =>
    ?_, fun hn => ?_, haddr.ordered (hs.passing.forward hs.pruned)⟩
  · have hns := haddr.fresh n hn haccess
    have hlt := hs.spilled.lists.lt_size hns
    rw [haddr.evolves.op n hlt] at haccess
    obtain ⟨v, hv⟩ := (hs.spilled.regular n hns).exists_memory haccess
    obtain ⟨a, ha, hkind, -⟩ := Node.mem_labels.1 (hv ▸ mem_singleton_self v)
    have hfilter : a ∈ (s.node n).args.filter fun a => a.kind = .memory :=
      mem_filter.2 ⟨ha, by simpa using hkind⟩
    rw [← haddr.evolves.others n hlt .memory (by decide)] at hfilter
    exact ⟨a, (mem_filter.1 hfilter).1, hkind⟩
  · by_cases hlt : n < s.nodes.size
    · rw [hsame hlt haccess]
      rw [haddr.evolves.op n hlt] at haccess
      exact hs.plain hg (haddr.old n hn hlt) haccess
    · intro a ha
      rcases (haddr.added n (Nat.le_of_not_lt hlt) (haddr.lists.lt_size hn)).kinds a ha
        with hkind | hkind
      · rw [hkind]
        decide
      · rw [hkind]
        decide
  · by_cases hlt : 0 < s.nodes.size
    · have hns := haddr.old 0 hn hlt
      have hnil := hs.args_first hns
      have haccess : (t.node 0).op.kind.accesses = false := by
        by_contra haccess
        rw [Bool.not_eq_false, haddr.evolves.op 0 hlt] at haccess
        obtain ⟨v, hv⟩ := (hs.spilled.regular 0 hns).exists_memory haccess
        obtain ⟨a, ha, -⟩ := Node.mem_labels.1 (hv ▸ mem_singleton_self v)
        exact absurd (hnil ▸ ha) not_mem_nil
      rw [hsame hlt haccess, hnil]
      simp
    · intro a ha
      by_contra hshape
      exact absurd ((haddr.added 0 (Nat.le_of_not_lt hlt)
        (haddr.lists.lt_size hn)).earlier a ha hshape)
        (Nat.not_lt_zero _)

lemma sequenced_of_transform {l : List Step} (hl : Step.allRegular l)
    (hrun : Build.transform outputs (Script.scene l).graph = .ok ks f) : f.Sequenced := by
  obtain ⟨h, htraces⟩ := Script.history hl (Step.allObey_free l)
  obtain ⟨c, o, p, s, t, origin, es, done, hs, -, rfl⟩ := h.graph.toRecorded.stages hrun
  obtain ⟨hlabelled, hinside, haccesses, hplain, hfirst, hearlier⟩ :=
    hs.sequenced htraces.indexesAccess
  exact ⟨⟨hlabelled.size, hlabelled.target, hlabelled.label⟩, hinside, haccesses, hplain,
    hfirst, hearlier⟩

end KernelFusion.Graph
