/-
From a recorded graph to its kernels, stage by stage.

The passes lead through five further graphs: the cut into clusters, the graph with copies, the one
without what is not needed, the one in which values go through memory, and the one with flat
addresses.
-/
import KernelFusion.Proofs.Kernel.Slots
import KernelFusion.Proofs.Recording.Invariants

namespace KernelFusion.Graph

open List

variable {outputs : List NodeId} {g c o p s t f : Graph} {origin : NodeId → NodeId}
  {es : List (NodeId × Entry)} {done : List (NodeId × Nat)} {ks : List Kernel} {n m : NodeId}
  {l lp ls lt : List NodeId}

/-- The recorded graph when its outputs and its modes are set. -/
def withOutputs (outputs : List NodeId) (g : Graph) : Graph :=
  { outputs.zipIdx.foldl (fun g (n, i) => g.setRole n .output i) g with
    kernelMode := .multi, tensorMode := .clamp }

/-- The graphs between the passes: `c` is cut into clusters, `o` has copies, `p` is without what is
not needed, in `s` values go through memory, and `t` has flat addresses. -/
structure Stages (outputs : List NodeId) (g c o p s t : Graph) (origin : NodeId → NodeId)
    (es : List (NodeId × Entry)) (done : List (NodeId × Nat)) : Prop where
  recorded : (withOutputs outputs g).Recorded
  cut : c = (withOutputs outputs g).clusterize
  rebuilt : Rebuilt c (c.clusterOrder.filter c.isTreated) o o.order origin
  tidy : o.Tidy o.order
  pruned : o.Pruned p p.order
  thin : p.order.Sublist o.order
  left : ∀ n, n ∈ p.order ↔ n ∈ o.order ∧ ((o.node n).isMemory ∨ o.IsNeeded n)
  spill : Build.spill p = .ok ⟨⟩ s
  passing : Passing p p.order es done s s.order
  stored : AllStored es
  moved : p.AllMoved p.order done
  spilled : Spilled p p.order s s.order
  addressing : Addressing s s.order t t.order

/-- Every transformation of a recorded graph goes through the stages. -/
lemma Recorded.stages (h : g.Recorded) (hrun : Build.transform outputs g = .ok ks f) :
    ∃ c o p s t origin es done, Stages outputs g c o p s t origin es done ∧ t.kernels = .ok ks ∧
      f = { t with recording := false } := by
  obtain ⟨p, s, t, hprepare, hspill, hflatten, hkernels, hf⟩ := Build.transform_eq_ok hrun
  have hstart : (withOutputs outputs g).Recorded :=
    (h.setOutputs outputs.zipIdx).modes .multi .clamp
  have hc := hstart.tidy_clusterize_order
  obtain ⟨o, hrecompute, l, origin, hr⟩ := hc.arranged.recompute
  have htidy := hr.tidy hc fun k hk => (mem_filter.1 hk).2
  obtain ⟨lp, hp⟩ := htidy.pruned
  obtain rfl : p = o.prune :=
    (EStateM.Result.ok.inj (hprepare.symm.trans (prepareIn_of_recompute hrecompute))).2
  obtain ⟨ls, hspilled⟩ := hp.spilled hspill
  obtain ⟨es, done, ls', hs, hstored, hmoved⟩ := hp.spillable.spill hspill
  have hmode : o.prune.kernelMode = .multi := by
    rw [hp.thinned.mode, hr.grown.mode, hstart.recut_clusterize.rest]
    rfl
  have hthin : o.prune.order.Sublist l := by
    rw [(prune_spec htidy.lists).1.order]
    exact filter_sublist
  obtain ⟨lt, ht⟩ := hspilled.toSparse.addressed (hspilled.memoryListed hp)
    (hspilled.rewired.mode.trans hmode) hflatten
  -- the lists are the orders of the graphs
  obtain rfl := htidy.lists.order
  obtain rfl := hp.lists.order
  obtain rfl := hspilled.lists.order
  obtain rfl := hs.toLists.order
  obtain rfl := ht.lists.order
  exact ⟨_, o, _, s, t, origin, es, done, ⟨hstart, rfl, hr, htidy, hp, hthin,
    fun n => htidy.mem_order_prune, hspill, hs, hstored, hmoved, hspilled, ht⟩, hkernels, hf⟩

/-! ### Outputs and clusters -/

lemma node_setOutputs (outputs : List (NodeId × Nat)) (g : Graph) (n : NodeId) :
    ∃ role slot, (outputs.foldl (fun g (n, i) => g.setRole n .output i) g).node n =
      { g.node n with role, slot } := by
  induction outputs generalizing g with
  | nil => exact ⟨_, _, rfl⟩
  | cons q outputs ih =>
    obtain ⟨role, slot, hnode⟩ := ih (g.setRole q.1 .output q.2)
    rw [foldl_cons, hnode, setRole, node_modifyNode]
    split
    · exact ⟨role, slot, rfl⟩
    · exact ⟨role, slot, rfl⟩

lemma labels_setOutputs (outputs : List (NodeId × Nat)) (g : Graph) :
    (outputs.foldl (fun g (n, i) => g.setRole n .output i) g).labels = g.labels ∧
      (outputs.foldl (fun g (n, i) => g.setRole n .output i) g).nodes.size = g.nodes.size := by
  induction outputs generalizing g with
  | nil => exact ⟨rfl, rfl⟩
  | cons q outputs ih =>
    obtain ⟨hlabels, hsize⟩ := ih (g.setRole q.1 .output q.2)
    exact ⟨hlabels.trans rfl, hsize.trans size_nodes_modifyNode⟩

lemma withOutputs_concat (outputs : List NodeId) (v : NodeId) (g : Graph) :
    withOutputs (outputs ++ [v]) g = (withOutputs outputs g).setRole v .output outputs.length := by
  simp [withOutputs, zipIdx_append, setRole, modifyNode]

lemma size_withOutputs (outputs : List NodeId) (g : Graph) :
    (withOutputs outputs g).nodes.size = g.nodes.size := (labels_setOutputs outputs.zipIdx g).2

lemma role_withOutputs (outputs : List NodeId) (hn : n < g.nodes.size) :
    (n ∈ outputs → ((withOutputs outputs g).node n).role = .output ∧
      ∃ i : Nat, outputs[i]? = some n ∧ ((withOutputs outputs g).node n).slot = i) ∧
    (n ∉ outputs → ((withOutputs outputs g).node n).role = (g.node n).role) := by
  induction outputs using reverseRecOn with
  | nil => exact ⟨by simp, fun _ => rfl⟩
  | append_singleton outputs v ih =>
    rw [withOutputs_concat, setRole, node_modifyNode, size_withOutputs]
    by_cases hv : n = v
    · subst hv
      rw [if_pos ⟨rfl, hn⟩]
      exact ⟨fun _ => ⟨rfl, outputs.length, by simp, rfl⟩, fun h => absurd (by simp) h⟩
    · rw [if_neg fun h => hv h.1]
      refine ⟨fun hmem => ?_, fun hmem => ih.2 fun h => hmem (mem_append_left _ h)⟩
      have hmem : n ∈ outputs := by simpa [hv] using hmem
      obtain ⟨hrole, i, hi, hslot⟩ := ih.1 hmem
      refine ⟨hrole, i, ?_, hslot⟩
      rw [getElem?_append_left (List.getElem?_eq_some_iff.1 hi).1]
      exact hi

namespace Stages

variable (hs : Stages outputs g c o p s t origin es done)

include hs

lemma recut : (withOutputs outputs g).Recut c := hs.cut ▸ hs.recorded.recut_clusterize

lemma tidy_cut : c.Tidy c.order := hs.cut ▸ hs.recorded.tidy_clusterize_order

lemma node_cut (n : NodeId) :
    ∃ role slot cluster, c.node n = { g.node n with role, slot, cluster } := by
  obtain ⟨role, slot, hnode⟩ := node_setOutputs outputs.zipIdx g n
  have hnode' : (withOutputs outputs g).node n = { g.node n with role, slot } := hnode
  exact ⟨role, slot, (c.node n).cluster, by rw [hs.recut.node, hnode']⟩

lemma labels_cut : c.labels = g.labels := by
  have hlabels : (withOutputs outputs g).labels = g.labels := (labels_setOutputs outputs.zipIdx g).1
  rw [hs.recut.rest, ← hlabels]

lemma size_cut : c.nodes.size = g.nodes.size := by
  have hsize : (withOutputs outputs g).nodes.size = g.nodes.size :=
    (labels_setOutputs outputs.zipIdx g).2
  rw [hs.recut.size, hsize]

lemma order_cut : c.order = range g.nodes.size := by
  have hsize : (withOutputs outputs g).nodes.size = g.nodes.size :=
    (labels_setOutputs outputs.zipIdx g).2
  rw [← hsize, hs.cut, hs.recorded.tidy_clusterize.lists.order]

lemma sameRoles : (withOutputs outputs g).SameRoles p := by
  intro n
  have hnode := hs.recut.node n
  obtain ⟨hrole, hslot⟩ := hs.rebuilt.grown.roles n
  rw [hs.pruned.thinned.node_eq, hrole, hslot, hnode]
  exact ⟨rfl, rfl⟩

end Stages

/-! ### Operations and types -/

/-- The operation is one of the table, and the node agrees with it. -/
structure WellTyped (g : Graph) (n : NodeId) : Prop where
  table : (g.node n).op ∈ Operation.table
  agrees : g.Agrees n

lemma WellTyped.congr (h : g.WellTyped n) (hop : (f.node m).op = (g.node n).op)
    (htype : (f.node m).type = (g.node n).type) (hinputs : f.inputTypes m = g.inputTypes n) :
    f.WellTyped m :=
  ⟨hop ▸ h.table, h.agrees.congr hop htype hinputs⟩

lemma Covers.wellTyped (h : c.Covers o l origin) (hc : c.Tidy c.order) (ho : o.Tidy l) (hn : n ∈ l)
    (htyped : c.WellTyped (origin n)) : o.WellTyped n := by
  refine htyped.congr (h.op n hn) (h.type n hn) (inputTypes_congr (ho.regular n hn)
    (hc.regular _ (h.mem n hn)) ?_)
  have htraced : Forall₂ (fun a b => o.traced origin a = c.traced id b) (o.node n).args
      (c.node (origin n)).args := by
    have hmap := h.args n hn
    rw [← forall₂_eq_eq_eq, forall₂_map_left_iff, forall₂_map_right_iff] at hmap
    exact hmap
  have hmem := (forall₂_and_left (o.node n).args _).2 ⟨fun a ha => ha, htraced⟩
  refine hmem.imp fun a b hab => ?_
  obtain ⟨ha, heq⟩ := hab
  obtain ⟨hkind, -, hsource⟩ : a.kind = b.kind ∧ a.index = b.index ∧
      origin (o.source a) = c.source b := by simpa [traced] using heq
  refine ⟨hkind, fun _ => ?_⟩
  rw [h.type _ (ho.isOrdered n hn a ha).left_mem, hsource]

lemma Thinned.inputTypes_eq (h : o.Thinned p) (n : NodeId) : p.inputTypes n = o.inputTypes n := by
  rw [inputTypes, inputTypes, h.node_eq]
  refine map_congr_left fun a _ => ?_
  rw [h.node_eq, source, source, target, target, h.labels]

namespace Passing

lemma inputTypes_eq (h : Passing p lp es done s ls) (hp : o.Pruned p lp) (hn : n ∈ lp) :
    s.inputTypes n = p.inputTypes n := by
  have hreg := h.regular hp.regular n (h.listed.subset hn)
  refine inputTypes_congr hreg (hp.regular n hn) (forall₂_iff_get.2 ⟨?_, fun i hi hi' => ?_⟩)
  · have hlength := congrArg length (h.places n (h.old n hn))
    simpa using hlength
  · have hb : (s.node n).args[i]? = some ((s.node n).args.get ⟨i, hi⟩) := by simp
    obtain ⟨a, ha, hplace⟩ := h.exists_old_argument hn hb
    obtain rfl : (p.node n).args.get ⟨i, hi'⟩ = a := by
      have ha' : (p.node n).args[i]? = some ((p.node n).args.get ⟨i, hi'⟩) := by simp
      exact Option.mem_unique ha' ha
    have hkind := congrArg Prod.fst hplace
    refine ⟨hkind.symm, fun hinput => ?_⟩
    by_cases hdone : (n, i) ∈ done
    · obtain ⟨a, ha', -, -, -, hload⟩ := h.exists_moved hn hb hdone
      cases ha'.symm.trans ha
      obtain ⟨m, hm⟩ := hload (by rw [hinput]; decide)
      exact (h.fits _ _ hm).2.2.type
    · rw [h.kept n hn i hdone] at hb
      have heq := Option.mem_unique hb ha
      have hmem := mem_of_getElem? ha
      rw [heq, (h.isMemory_source hp.spillable hn hmem).1,
        h.extended.type _ (hp.spillable.source_lt n hn _ hmem)]

lemma wellTyped (h : Passing p lp es done s ls) (hp : o.Pruned p lp)
    (htyped : ∀ n ∈ lp, p.WellTyped n) (hn : n ∈ ls) : s.WellTyped n := by
  rcases h.entered n hn with hnp | ⟨e, he⟩
  · exact (htyped n hnp).congr (h.extended.op n (h.old n hnp)) (h.extended.type n (h.old n hnp))
      (h.inputTypes_eq hp hnp)
  · -- only stores take a value
    have hinputs : (∀ v m, e ≠ .store v m) → s.inputTypes n = [] := by
      intro hne
      rw [inputTypes, map_eq_nil_iff, eq_nil_iff_forall_not_mem]
      intro a ha
      obtain ⟨ha, hkind⟩ := Node.mem_arguments.1 ha
      obtain ⟨m, heq⟩ := h.value_of_entered he ha (by rw [hkind]; decide) (by rw [hkind]; decide)
      exact hne _ _ heq
    obtain ⟨-, -, hfits⟩ := h.fits n e he
    cases e with
    | memory v =>
      have hmemory : (s.node n).op.isAmbiguous := by
        refine (Operation.isAmbiguous_iff hfits.table).2 ?_
        have hname : (s.node n).op.name = "memory" := by simpa [Node.isMemory] using hfits.isMemory
        rw [hname]
        decide
      refine ⟨hfits.table, fun hamb => ?_, fun _ => hinputs fun v m h => by cases h⟩
      rw [hmemory] at hamb
      cases hamb
    | load v m user =>
      exact ⟨hfits.table, .of_load hfits.table hfits.loads.name (hinputs fun v m h => by cases h)⟩
    | store v m => exact ⟨hfits.table, .of_store hfits.table hfits.stores.name hfits.type⟩

end Passing

lemma Addressing.wellTyped (h : Addressing s ls t lt) (hs : s.Sparse ls)
    (htyped : ∀ n ∈ ls, s.WellTyped n) (hn : n ∈ lt) : t.WellTyped n := by
  by_cases hlt : n < s.nodes.size
  · have hns := h.old n hn hlt
    refine (htyped n hns).congr (h.evolves.op n hlt) (h.evolves.type n hlt) ?_
    rw [inputTypes, inputTypes, Node.arguments, Node.arguments,
      h.evolves.others n hlt .input (by decide)]
    refine map_congr_left fun a ha => ?_
    have hlt' := hs.inside n hns a (Node.mem_arguments.1 ha).1
    rw [h.labelled.source (Nat.lt_of_lt_of_le hlt' h.evolves.size), hs.labelled.source hlt',
      h.evolves.type _ hlt']
  · have hadded := h.added n (Nat.le_of_not_lt hlt) (h.lists.lt_size hn)
    exact ⟨hadded.table, hadded.agrees⟩

/-- Every node of the lowered program is well typed. -/
lemma Stages.wellTyped (hs : Stages outputs g c o p s t origin es done)
    (hg : ∀ n < g.nodes.size, g.WellTyped n) (hn : n ∈ t.order) : t.WellTyped n := by
  have hcut : ∀ n ∈ c.order, c.WellTyped n := by
    intro n hn
    rw [hs.order_cut, mem_range] at hn
    obtain ⟨role, slot, cluster, hnode⟩ := hs.node_cut n
    refine (hg n hn).congr (by rw [hnode]) (by rw [hnode]) ?_
    have hargs : (c.node n).arguments .input = (g.node n).arguments .input := by
      rw [hnode, Node.arguments, Node.arguments]
    rw [inputTypes, inputTypes, hargs]
    refine map_congr_left fun a _ => ?_
    obtain ⟨role, slot, cluster, hnode⟩ := hs.node_cut (c.source a)
    rw [hnode, source, source, target, target, hs.labels_cut]
  have hcopies : ∀ n ∈ o.order, o.WellTyped n := fun n hn =>
    hs.rebuilt.covers.wellTyped hs.tidy_cut hs.tidy hn (hcut _ (hs.rebuilt.covers.mem n hn))
  have hleft : ∀ n ∈ p.order, p.WellTyped n := fun n hn => by
    have hthin := hs.pruned.thinned
    refine (hcopies n ((hs.left n).1 hn).1).congr ?_ ?_ (hthin.inputTypes_eq n)
    · rw [hthin.node_eq]
    · rw [hthin.node_eq]
  exact hs.addressing.wellTyped hs.spilled.toSparse
    (fun n => hs.passing.wellTyped hs.pruned hleft) hn

/-- The graph that the passes leave, and its kernels. -/
structure Final (f : Graph) (ks : List Kernel) : Prop where
  lists : f.Lists f.order
  grouped : f.Grouped OpKind.accesses f.order
  wellTyped : ∀ n ∈ f.order, f.WellTyped n
  kernels : f.kernels = .ok ks

lemma final_of_transform {l : List Step} (hl : Step.allRegular l)
    (hrun : Build.transform outputs (Script.scene l).graph = .ok ks f) : f.Final ks := by
  obtain ⟨h, htraces⟩ := Script.history hl (Step.allObey_free l)
  obtain ⟨c, o, p, s, t, origin, es, done, hs, hkernels, rfl⟩ := h.graph.toRecorded.stages hrun
  have hlists := hs.addressing.lists
  have hgrouped := hs.addressing.grouped
  have hknown := htraces.known
  have htyped : ∀ n ∈ t.order, t.WellTyped n := fun n hn =>
    hs.wellTyped (fun m hm => ⟨(hknown m hm).table, (hknown m hm).agrees⟩) hn
  exact
    { lists := ⟨hlists.chain, hlists.first, hlists.size⟩
      grouped := ⟨⟨hgrouped.between, hgrouped.head⟩, hgrouped.apart, hgrouped.clustered⟩
      wellTyped := fun n hn => (htyped n hn).congr rfl rfl rfl
      kernels := hkernels }

end KernelFusion.Graph
