/-
How a kernel gets the sizes of its inputs.

A size of an input that is not known in advance is a memory node where nothing is ever written. The
nodes that compute addresses take the node directly, and the kernel gets the size as a scalar. For
nodes of the program every memory that is taken for a value is loaded, and so is a size.
-/
import KernelFusion.Proofs.Device.Running
import KernelFusion.Proofs.Kernel.Extraction
import KernelFusion.Proofs.Kernel.Indices
import KernelFusion.Proofs.Pass.Redirected
import KernelFusion.Proofs.Pass.Transfer

namespace KernelFusion

open List

/-! ### Sizes as scalars -/

namespace Bindings

variable {g : Graph} {bound : Bindings} {n : NodeId} {v : Int}

lemma lookup_sizesOf (h : bound.sizes.lookup n = some v) (ns : List NodeId) :
    (bound.sizesOf g ns).2.sizes.lookup n = some v := by
  induction ns generalizing bound with
  | nil => exact h
  | cons m ns ih =>
    have hsize : (bound.size g m).2.sizes.lookup n = some v := by
      rw [size]
      split
      · exact h
      · split
        · exact h
        · rename_i hnone
          have hne : (n == m) = false := by
            rw [beq_eq_false_iff_ne]
            rintro rfl
            rw [hnone] at h
            cases h
          rw [lookup_cons, hne]
          exact h
    exact ih hsize

end Bindings

lemma Run.lookup_of_kernels_eq_ok {g : Graph} {effect : Effect} {compiled : Bool}
    {bound bound' : Bindings} {m m' : Machine} {number : Nat} {ks : List Kernel} {n : NodeId}
    {v : Int} (hrun : kernels g effect compiled bound number ks m = .ok bound' m')
    (h : bound.sizes.lookup n = some v) : bound'.sizes.lookup n = some v := by
  refine of_kernels_eq_ok (P := fun _ b _ => b.sizes.lookup n = some v) hrun h ?_
  intro before kn after bound₁ m₁ bound₂ m₂ _ _ ih hs
  cases hs with
  | memory _ => exact Bindings.lookup_sizesOf ih _
  | compute _ => exact Bindings.lookup_sizesOf ih _

namespace Graph

variable {g o p s f : Graph} {n m d : NodeId} {k : ClusterId} {kn : Kernel} {ks : List Kernel}
  {outputs : List NodeId} {es : List (NodeId × Entry)} {done : List (NodeId × Nat)}

/-- Whenever the kernel is launched in a run, its scalar with the given number is the size `d` of an
input that has been handed in. -/
def ScalarIsSize (g : Graph) (kn : Kernel) (i : Nat) (d : NodeId) : Prop :=
  ∀ (effect : Effect) (compiled : Bool) (inputs : List Buffer) (bound bound₁ : Bindings)
    (before : List Kernel) (m m₁ : Machine) (number : Nat),
    Bindings.ofInputs g inputs = .ok bound →
    Run.kernels g effect compiled bound 0 before m = .ok bound₁ m₁ →
    ∃ q ∈ g.inputNodes.zip inputs, ∃ j : Nat, (g.declared q.1)[j]? = some d ∧
      (Run.launch g bound₁ kn number m₁).scalars[i]? = some (word (q.2.shape.getD j 0))

lemma scalarIsSize {i : Nat} (hi : kn.scalars[i]? = some d) (hn : n ∈ g.inputNodes)
    (hd : d ∈ g.declared n) : g.ScalarIsSize kn i d := by
  intro effect compiled inputs bound bound₁ before m m₁ number hbound hrun
  obtain ⟨hlen, -, hsizes⟩ := Bindings.ofInputs_eq_ok_iff.1 hbound
  have hfst : n ∈ (g.inputNodes.zip inputs).map Prod.fst := by
    rw [map_fst_zip (Nat.le_of_eq hlen)]
    exact hn
  obtain ⟨q, hq, rfl⟩ := mem_map.1 hfst
  -- the inputs bind the size, and the last one that does decides
  obtain ⟨j, hj⟩ := mem_iff_getElem?.1 hd
  have hmem : d ∈ bound.sizes.map Prod.fst := by
    rw [hsizes]
    refine mem_map.2 ⟨(d, q.2.shape.getD j 0), mem_reverse.2 ?_, rfl⟩
    exact mem_flatMap.2 ⟨q, hq, Bindings.mem_sizesOfInput.2 ⟨j, hj, rfl⟩⟩
  obtain ⟨v, hv⟩ := exists_lookup_eq_some hmem
  have hbinds := mem_of_lookup hv
  rw [hsizes] at hbinds
  obtain ⟨r, hr, hrv⟩ := mem_flatMap.1 (mem_reverse.1 hbinds)
  obtain ⟨j', hj', rfl⟩ := Bindings.mem_sizesOfInput.1 hrv
  refine ⟨r, hr, j', hj', ?_⟩
  have hlookup := Bindings.lookup_sizesOf (g := g) (Run.lookup_of_kernels_eq_ok hrun hv)
    (kn.shape.map g.target)
  rw [Run.launch, getElem?_map, hi, Option.map_some, Bindings.scalarValue, hlookup]

lemma mem_scalars (hkernels : f.kernels = .ok ks) (hkn : kn ∈ ks) (hkind : kn.kind = .compute)
    (hn : n ∈ f.runFrom kn.first) {i : Int} (hd : (i, d) ∈ f.sources n .input)
    (hmem : (f.node d).isMemory) : d ∈ kn.scalars := by
  obtain ⟨m, -, hm⟩ := (mem_kernels_iff hkernels).1 hkn
  have hcompute : f.computeKernel? m = .ok (some kn) := by
    rw [kernelAt?] at hm
    split at hm
    · split at hm
      · cases hm
      · cases Except.ok.inj hm
        cases hkind
    · split at hm
      · exact hm
      · cases hm
  obtain ⟨-, rfl, -, hscalars⟩ := computeKernel?_eq_some hcompute
  rw [hscalars, memoryValues, mem_firstOccurrences, mem_flatMap]
  exact ⟨n, hn, mem_filter.2 ⟨mem_map.2 ⟨(i, d), hd, rfl⟩, hmem⟩⟩

/-! ### Memory that is taken for a value -/

/-- The node works with the contents of the memory: it takes it for a value, or it loads it. -/
def Reads (g : Graph) (n d : NodeId) : Prop :=
  ∃ a ∈ (g.node n).args, a.kind ≠ .shape ∧ g.source a = d ∧
    (a.kind = .memory → (g.node n).op.kind = .load)

/-- The node is a load of the memory. -/
def IsLoadFrom (g : Graph) (n d : NodeId) : Prop := (g.node n).op.kind = .load ∧
    g.memoryOf? n = some d

lemma kind_of_name {op : Operation} (h : op ∈ Operation.table) :
    (op.name = "load" → op.kind = .load) ∧ (op.name = "store" → op.kind = .store) ∧
      (op.name = "memory" → op.kind = .memory) := by
  have hall : ∀ op ∈ Operation.table, (op.name = "load" → op.kind = .load) ∧
    (op.name = "store" → op.kind = .store) ∧ (op.name = "memory" → op.kind = .memory) :=
    by decide +kernel
  exact hall op h

lemma lt_size_of_isMemory (h : (p.node d).isMemory) : d < p.nodes.size :=
  lt_size_of_node (P := fun x => x.isMemory) h (by decide)

namespace Passing

variable (hs : Passing p p.order es done s s.order) (hp : o.Pruned p p.order)
  (hsparse : s.Sparse s.order) (hall : p.AllMoved p.order done) (hd : (p.node d).isMemory)

include hs hp hsparse hall hd

omit hall in
/-- A load from a memory stands for a value of its cluster that read it. -/
lemma exists_reads (hn : n ∈ s.order) (hload : s.IsLoadFrom n d) :
    ∃ v ∈ p.order, (p.node v).cluster = (s.node n).cluster ∧ p.Reads v d := by
  obtain ⟨hkind, hmemory⟩ := hload
  have hlt := lt_size_of_isMemory hd
  have hnew : ∀ v, (d, Entry.memory v) ∉ es := fun v hv =>
    absurd hlt (Nat.not_lt.2 (hs.fits d _ hv).2.1)
  obtain ⟨a, ha, hakind, hsource⟩ := hsparse.exists_argument hn hmemory
  have hshape : a.kind ≠ .shape := by
    rw [hakind]
    decide
  have hsource' : s.source a = d := (hsparse.source_eq hn ha).trans hsource
  rcases hs.entered n hn with hnp | ⟨e, he⟩
  · -- the memory argument of an old node has not moved
    obtain ⟨i, hi⟩ := mem_iff_getElem?.1 ha
    by_cases hdone : (n, i) ∈ done
    · obtain ⟨c, -, -, -, hfor, -⟩ := hs.exists_moved hnp hi hdone
      exact absurd (hsource' ▸ hfor hakind) (hnew _)
    · rw [hs.kept n hnp i hdone] at hi
      have hap := mem_of_getElem? hi
      refine ⟨n, hnp, (hs.cluster_eq hnp).symm, a, hap, hshape, ?_, fun _ => ?_⟩
      · rw [hp.source_eq hnp hap, hsource]
      · rw [← hs.extended.op n (hs.old n hnp), hkind]
  · obtain ⟨-, -, hfits⟩ := hs.fits n e he
    have htaken := mem_taken ha hshape
    rw [hsource'] at htaken
    cases e with
    | memory v =>
      rw [hfits.taken] at htaken
      cases htaken
    | store v m =>
      rw [(kind_of_name hfits.table).2.1 hfits.stores.name] at hkind
      cases hkind
    | load v m u =>
      rw [hfits.loads.taken, mem_singleton] at htaken
      obtain rfl : d = m := congrArg Prod.snd htaken
      obtain ⟨-, rfl⟩ := (hs.balanced.load he).resolve_right (hnew v)
      obtain ⟨K, hK, hmem⟩ := hfits.takes
      obtain ⟨b, hb, hbshape, rfl, hbsource⟩ := exists_of_mem_taken hmem
      exact ⟨u, hfits.before.right_mem, hfits.cluster.symm, b, hb, hbshape, hbsource,
        fun hbkind => absurd hbkind hK⟩

/-- A direct read of a memory becomes a load in the reader's cluster. -/
lemma exists_load {i : Nat} {a : Argument} (hn : n ∈ p.order) (ha : (p.node n).args[i]? = some a)
    (hshape : a.kind ≠ .shape) (hmemory : a.kind ≠ .memory) (hsource : p.source a = d) :
    ∃ b, (s.node n).args[i]? = some b ∧ b.place = a.place ∧ s.source b ∈ s.order ∧
      (s.node (s.source b)).cluster = (s.node n).cluster ∧ s.IsLoadFrom (s.source b) d := by
  have hap := mem_of_getElem? ha
  have hnm : (p.node n).isMemory = false := by
    by_contra hmem
    exact hshape ((hp.regular n hn).plain (by simpa using hmem) a hap)
  have hmoves : p.Moves p.order n a := by
    refine ⟨hshape, ?_, ?_⟩
    · rw [hp.source_eq hn hap]
      refine hp.ordered n hn a hap hshape ?_
      rw [← hp.source_eq hn hap, hsource, hd]
    · rw [hsource, if_pos hd]
      exact ⟨hmemory, hnm⟩
  obtain ⟨b, hb, hplace, hfor⟩ := (hs.argument hall hn ha).1 hmoves
  rw [EntersFor, if_neg hmemory, hsource] at hfor
  obtain ⟨m, hm⟩ := hfor
  obtain ⟨hmem, -, hload⟩ := hs.fits _ _ hm
  obtain rfl : m = d := by
    rcases hs.balanced.load hm with ⟨-, rfl⟩ | hm'
    · rfl
    · rw [(hs.fits _ _ hm').2.2.value] at hd
      cases hd
  have hkind := (kind_of_name hload.table).1 hload.loads.name
  obtain ⟨c, hc, -, hckind, hcsource⟩ := exists_of_mem_taken (g := s) (v := m) (n := s.source b)
    (k := .memory) (by rw [hload.loads.taken]; exact mem_singleton_self _)
  refine ⟨b, hb, hplace, hmem, hload.cluster.trans (hs.cluster_eq hn).symm, hkind, ?_⟩
  rw [hsparse.memoryOf?_eq_source hmem (by rw [hkind]; rfl) hc hckind, hcsource]

lemma exists_isLoadFrom (hn : n ∈ p.order) (hreads : p.Reads n d) :
    ∃ x ∈ s.order, (s.node x).cluster = (p.node n).cluster ∧ s.IsLoadFrom x d := by
  obtain ⟨a, hap, hshape, hsource, hkind⟩ := hreads
  obtain ⟨i, ha⟩ := mem_iff_getElem?.1 hap
  by_cases hmemory : a.kind = .memory
  · -- a load of memory stays as it is
    have hmoves : ¬ p.Moves p.order n a := by
      rintro ⟨-, -, hmoves⟩
      rw [hsource, if_pos hd] at hmoves
      exact hmoves.1 hmemory
    have hsame := (hs.argument hall hn ha).2 hmoves
    have hns := hs.listed.subset hn
    have hop : (s.node n).op.kind = .load := by rw [hs.extended.op n (hs.old n hn), hkind hmemory]
    refine ⟨n, hns, hs.cluster_eq hn, hop, ?_⟩
    rw [hsparse.memoryOf?_eq_source hns (by rw [hop]; rfl) (mem_of_getElem? hsame) hmemory,
      hsparse.source_eq hns (mem_of_getElem? hsame), ← hp.source_eq hn hap, hsource]
  · obtain ⟨b, -, -, hmem, hcluster, hload⟩ :=
      hs.exists_load hp hsparse hall hd hn ha hshape hmemory hsource
    exact ⟨_, hmem, hcluster.trans (hs.cluster_eq hn), hload⟩

end Passing

lemma Sparse.isLoadFrom_iff (hs : s.Sparse s.order) (hlisted : s.MemoryListed s.order)
    (hrun : Build.flatten s = .ok ⟨⟩ f) (hn : n ∈ s.order) (hd : (s.node d).isMemory) :
    f.IsLoadFrom n d ↔ s.IsLoadFrom n d := by
  obtain ⟨D, -, hevolves⟩ := hs.flattened hrun
  rw [IsLoadFrom, IsLoadFrom, hevolves.op n (hs.lists.lt_size hn)]
  refine and_congr_right fun hkind => hs.memoryOf?_flatten_iff hlisted hrun hn ?_ hd
  rw [hkind]
  rfl

lemma Flattening.exists_run {D : ClusterId → Prop} {lf : List NodeId}
    (hlf : Flattening s D nothing f lf) (hs : s.Sparse s.order) (hkernels : f.kernels = .ok ks)
    (hkn : kn ∈ ks) (hkind : kn.kind = .compute) :
    ∃ k, (f.node kn.first).cluster = some k ∧ f.runFrom kn.first = f.run k := by
  obtain ⟨before, after, rfl⟩ := append_of_mem hkn
  obtain ⟨A, m, B, rfl, -, hm⟩ := exists_kernelOf hlf.lists hkernels
  obtain ⟨hmem, hstarts, rfl, -⟩ := kernelOf_eq_compute hm hkind
  obtain ⟨k, hk⟩ : ∃ k, (f.node kn.first).cluster = some k := by
    rcases hlf.entered kn.first (by simp) with hold | ⟨-, -, -, k, -, hk⟩
    · have hlt := hs.lists.lt_size hold
      obtain ⟨k, hk⟩ := hs.grouped.clustered hold ((hlf.outline.isMemory hlt).symm.trans hmem)
      exact ⟨k, (hlf.outline.cluster _ hlt).trans hk⟩
    · exact ⟨k, hk⟩
  exact ⟨k, hk, (runFrom_eq_run hk hstarts).2⟩

/-- In every program and every mode: an operand that is memory comes to be loaded. A kernel loads
from a memory if and only if a node of its cluster works with the contents of this memory. Nodes
that take the memory directly, as those do that compute addresses, find it among the scalars of the
kernel, and the scalar has the size of the input if the memory stands for one. -/
theorem kernel_loads_size_iff {l : List Step} (hl : Step.allRegular l = true)
    {kernelMode : KernelMode} {tensorMode : TensorMode}
    (hprepare : Build.prepareIn kernelMode tensorMode outputs (Script.scene l).graph = .ok ⟨⟩ p)
    (hspill : Build.spill p = .ok ⟨⟩ s) (hflatten : Build.flatten s = .ok ⟨⟩ f)
    (hkernels : f.kernels = .ok ks) (hd : (p.node d).isMemory = true) :
    (∀ n ∈ p.order, ∀ a ∈ (p.node n).args, a.kind = .input → p.source a = d →
      ∃ b ∈ (f.node n).args, b.place = a.place ∧ f.IsLoadFrom (f.source b) d) ∧
    ∀ kn ∈ ks, kn.kind = .compute →
      ((∃ x ∈ f.runFrom kn.first, f.IsLoadFrom x d) ↔
        ∃ n ∈ p.order, (p.node n).cluster = (f.node kn.first).cluster ∧ p.Reads n d) ∧
      ∀ n ∈ f.runFrom kn.first, ∀ i, (i, d) ∈ f.sources n .input →
        ∃ j, kn.scalars[j]? = some d ∧
          ∀ v ∈ f.inputNodes, d ∈ f.declared v → f.ScalarIsSize kn j d := by
  obtain ⟨p', o, lp, hprepare', hp, -⟩ :=
    (Script.recorded hl).graph.prepareIn kernelMode tensorMode outputs
  obtain rfl : p = p' := (EStateM.Result.ok.inj (hprepare.symm.trans hprepare')).2
  obtain rfl := hp.lists.order
  obtain ⟨es, done, ls, hs, -, hall⟩ := hp.spillable.spill hspill
  obtain rfl := hs.toLists.order
  obtain ⟨ls, hspilled⟩ := hp.spilled hspill
  obtain rfl := hspilled.lists.order
  have hsparse := hspilled.toSparse
  have hlisted := hspilled.memoryListed hp
  obtain ⟨D, ⟨lf, hlf⟩, hevolves⟩ := hsparse.flattened hflatten
  have hlt := lt_size_of_isMemory hd
  have hds : (s.node d).isMemory = true := (hs.extended.isMemory hlt).trans hd
  have hdf : (f.node d).isMemory = true :=
    (hevolves.toFrame.toOutline.isMemory (Nat.lt_of_lt_of_le hlt hs.extended.size)).trans hds
  refine ⟨fun n hn a hap hkind hsource => ?_, fun kn hkn hkind => ⟨⟨?_, ?_⟩, fun n hn i hi => ?_⟩⟩
  · obtain ⟨i, ha⟩ := mem_iff_getElem?.1 hap
    obtain ⟨b, hb, hplace, hmem, -, hload⟩ := hs.exists_load hp hsparse hall hd hn ha
      (by rw [hkind]; decide) (by rw [hkind]; decide) hsource
    have hns := hs.listed.subset hn
    have hbs := mem_of_getElem? hb
    have hbkind : b.kind = .input := (congrArg Prod.fst hplace).trans hkind
    -- the operands of a node stay, and so does the label of a load
    have hbf : b ∈ (f.node n).args := by
      have hfilter := hevolves.others n (hsparse.lists.lt_size hns) .input (by decide)
      have hmem : b ∈ (s.node n).args.filter fun a => a.kind = .input :=
        mem_filter.2 ⟨hbs, by simpa using hbkind⟩
      rw [← hfilter] at hmem
      exact (mem_filter.1 hmem).1
    have hsame : f.source b = s.source b := by
      have hstays := hsparse.not_movedIn_of_accesses (D := D) hmem (by rw [hload.1]; rfl)
      rw [hsparse.source_eq hns hbs] at hmem hstays ⊢
      exact hevolves.target_eq hsparse.labelled (hsparse.lists.lt_size hmem) hstays
    refine ⟨b, hbf, hplace, ?_⟩
    rw [hsame]
    exact (hsparse.isLoadFrom_iff hlisted hflatten hmem hds).2 hload
  · rintro ⟨x, hx, hload⟩
    have hxf := mem_order_of_kernel hlf.lists hkernels hkn hkind hx
    have hxs : x ∈ s.order :=
      hlf.access_old (hlf.lists.order ▸ hxf) (by rw [hload.1]; rfl)
    have hcluster : (f.node x).cluster = (f.node kn.first).cluster := by
      simpa using mem_takeWhile_imp hx
    obtain ⟨v, hv, hvx, hreads⟩ := hs.exists_reads hp hsparse hd hxs
      ((hsparse.isLoadFrom_iff hlisted hflatten hxs hds).1 hload)
    refine ⟨v, hv, ?_, hreads⟩
    rw [hvx, ← hlf.outline.cluster x (hsparse.lists.lt_size hxs), hcluster]
  · rintro ⟨n, hn, hcluster, hreads⟩
    obtain ⟨k, hk, hrun⟩ := hlf.exists_run hsparse hkernels hkn hkind
    obtain ⟨x, hxs, hxn, hload⟩ := hs.exists_isLoadFrom hp hsparse hall hd hn hreads
    have hxlt := hsparse.lists.lt_size hxs
    have hxf : x ∈ lf := by
      by_contra hgone
      exact hsparse.not_movedIn_of_accesses hxs (by rw [hload.1]; rfl) (hlf.stays x hxs hgone)
    refine ⟨x, ?_, (hsparse.isLoadFrom_iff hlisted hflatten hxs hds).2 hload⟩
    rw [hrun]
    refine hlf.spans.mem_run hlf.lists hxf hxlt ?_
    rw [hlf.outline.cluster x hxlt, hxn, hcluster, hk]
  · obtain ⟨j, hj⟩ := mem_iff_getElem?.1 (mem_scalars hkernels hkn hkind hn hi hdf)
    exact ⟨j, hj, fun v hv hdv => scalarIsSize hj hv hdv⟩

/-- To the sine of every element of a matrix the length of its rows is added. -/
def rowLengthAdded : List Step :=
  [ .act (.input .float (.sizes [-1, -1])) (some "A"),
    .act (.call (.named "sin") ["A"]) (some "u"),
    .act (.shape "A") (some "s"),
    .act (.call (.named "float") ["s.1"]) (some "t"),
    .act (.call (.folding .add) ["u", "t"]) (some "x") ]

/-- A compute kernel reads a size both ways: by a load from its memory, and as a second operand. -/
def ReadsBothWays (f : Graph) (d : NodeId) (kn : Kernel) : Prop :=
  kn.kind = .compute ∧ (∃ x ∈ f.runFrom kn.first, f.IsLoadFrom x d) ∧
    ∃ n ∈ f.runFrom kn.first, (1, d) ∈ f.sources n .input

instance (f : Graph) (d : NodeId) (kn : Kernel) : Decidable (f.ReadsBothWays d kn) := by
  unfold ReadsBothWays IsLoadFrom
  infer_instance

/-- The modes of a new graph: a load without indices gets the number of the thread, and the
coordinates that come of it are computed with the sizes themselves. -/
lemma rowLengthAdded_run :
    ∃ p s f, Lowers rowLengthAdded .linear .unchecked [6] p s f ∧ (p.node 1).isMemory ∧
    2 ∈ f.inputNodes ∧
      1 ∈ f.declared 2 ∧ ∃ ks, f.kernels = .ok ks ∧ ∃ kn ∈ ks, f.ReadsBothWays 1 kn := by
  decide +kernel

theorem kernel_loads_size_of_rowLengthAdded :
    ∃ p s f ks kn, Build.prepareIn .linear .unchecked [6]
    (Script.scene rowLengthAdded).graph = .ok ⟨⟩ p ∧
      Build.spill p = .ok ⟨⟩ s ∧ Build.flatten s = .ok ⟨⟩ f ∧ f.kernels = .ok ks ∧ kn ∈ ks ∧
      (p.node 1).isMemory = true ∧ f.ReadsBothWays 1 kn ∧
      (∃ n ∈ p.order, (p.node n).cluster = (f.node kn.first).cluster ∧ p.Reads n 1) ∧
      ∃ j, kn.scalars[j]? = some 1 ∧ f.ScalarIsSize kn j 1 := by
  obtain ⟨p, s, f, hl, hmem, hinputs, hdeclared, ks, hkernels, kn, hkn, hreads⟩ :=
    rowLengthAdded_run
  obtain ⟨-, hkernel⟩ :=
    kernel_loads_size_iff hl.regular hl.prepare hl.spill hl.flatten hkernels hmem
  obtain ⟨hkind, hload, n, hn, hi⟩ := hreads
  obtain ⟨hiff, hscalars⟩ := hkernel kn hkn hkind
  obtain ⟨j, hj, hsize⟩ := hscalars n hn 1 hi
  exact ⟨p, s, f, ks, kn, hl.prepare, hl.spill, hl.flatten, hkernels, hkn, hmem,
    ⟨hkind, hload, n, hn, hi⟩, hiff.1 hload, j, hj, hsize 2 hinputs hdeclared⟩

/-- Kernels do load from the memory of sizes of inputs, where nothing has been written. -/
theorem not_forall_kernel_loads_no_size :
    ¬ ∀ (l : List Step) (kernelMode : KernelMode) (tensorMode : TensorMode) (outputs : List NodeId)
      (p s f : Graph) (ks : List Kernel) (d v : NodeId), Step.allRegular l = true →
      Build.prepareIn kernelMode tensorMode outputs (Script.scene l).graph = .ok ⟨⟩ p →
      Build.spill p = .ok ⟨⟩ s → Build.flatten s = .ok ⟨⟩ f → f.kernels = .ok ks →
      (p.node d).isMemory = true → v ∈ f.inputNodes → d ∈ f.declared v →
      ∀ kn ∈ ks, kn.kind = .compute → ¬ ∃ x ∈ f.runFrom kn.first, f.IsLoadFrom x d := by
  intro hall
  obtain ⟨p, s, f, hl, hmem, hinputs, hdeclared, ks, hkernels, kn, hkn, hkind, hload, -⟩ :=
    rowLengthAdded_run
  exact hall rowLengthAdded .linear .unchecked [6]
    p s f ks 1 2 hl.regular hl.prepare hl.spill hl.flatten
    hkernels hmem hinputs hdeclared kn hkn hkind hload

end Graph

end KernelFusion
