/-
The indices of accesses in kernels.

The address pass takes the shape of a cluster from its head and passes over a cluster whose head
has none, while a kernel takes the shape from the first node that has one.
-/
import KernelFusion.Proofs.Kernel.Lowering

namespace KernelFusion.Graph

variable {s f p : Graph} {n : NodeId} {k : ClusterId} {outputs : List NodeId}

lemma length_arguments (x : Node) (K : ArgKind) :
    (x.arguments K).length = (x.args.filter fun a => a.kind = K).length :=
  sortByIndex_perm.length_eq

/-- A cluster is an index space for the address pass. -/
def HeadHasShape (g : Graph) (k : ClusterId) : Prop :=
  ∃ h, g.head? k = some h ∧ g.sources h .shape ≠ []

/-- An access has one index in the end if its cluster has a shape or it had one before. -/
lemma Sparse.index_iff (hs : s.Sparse s.order) (hrun : Build.flatten s = .ok ⟨⟩ f)
    (hn : n ∈ f.order) (haccess : (f.node n).op.kind.accesses) :
    ((f.node n).arguments .index).length = 1 ↔
      (∃ k, (s.node n).cluster = some k ∧ s.HeadHasShape k) ∨
        ((s.node n).arguments .index).length = 1 := by
  obtain ⟨_, ⟨lf, hlf⟩, hevolves⟩ := hs.flattened hrun
  have hns : n ∈ s.order := hlf.access_old (by rwa [← hlf.lists.order]) haccess
  rw [hevolves.op n (hs.lists.lt_size hns)] at haccess
  have hnm := hs.isMemory_of_accesses hns haccess
  obtain ⟨k, hk⟩ := hs.grouped.clustered hns hnm
  rw [length_arguments, length_arguments]
  by_cases hshape : s.HeadHasShape k
  · -- the pass has treated the cluster
    obtain ⟨h, hh, hsources⟩ := hshape
    obtain ⟨D, D', g, gm, g', thread, coordinates, l, ht⟩ := hs.treats hns hnm hk hh hsources hrun
    obtain ⟨g₁, g₂, flat, -, -, -, -, -, hfilter⟩ := ht.access hs hns hk haccess
    rw [hfilter]
    exact ⟨fun _ => .inl ⟨k, hk, h, hh, hsources⟩, fun _ => rfl⟩
  · -- it has passed over it
    obtain ⟨D, hD, hidle⟩ := hs.evolves_of_idle hns hnm hk
      (fun h hh => by_contra fun hsources => hshape ⟨h, hh, hsources⟩) hrun
    rw [hidle.args n (hs.lists.lt_size hns) (not_accessIn hD hk)]
    refine ⟨.inr, fun hor => hor.resolve_left ?_⟩
    rintro ⟨j, hj, hshape'⟩
    exact hshape (Option.mem_unique hj hk ▸ hshape')

lemma mem_order_of_kernel {l : List NodeId} {ks : List Kernel} {kn : Kernel} (hl : f.Lists l)
    (hkernels : f.kernels = .ok ks) (hkn : kn ∈ ks) (hkind : kn.kind = .compute)
    (hn : n ∈ f.runFrom kn.first) : n ∈ f.order := by
  obtain ⟨before, after, rfl⟩ := List.append_of_mem hkn
  obtain ⟨A, m, B, rfl, -, hm⟩ := exists_kernelOf hl hkernels
  obtain ⟨-, -, rfl, -⟩ := kernelOf_eq_compute hm hkind
  rw [runFrom, hl.fromNode] at hn
  rw [hl.order]
  exact List.mem_append_right _ ((List.takeWhile_sublist _).subset hn)

/-- An access of a compute kernel has exactly one index if and only if the head of its cluster had a
shape when addresses were computed, or it had exactly one index before. This holds in every mode. -/
theorem kernel_index_unique_iff {l : List Step} (hl : Step.allRegular l = true)
    {kernelMode : KernelMode} {tensorMode : TensorMode} {ks : List Kernel}
    (hprepare : Build.prepareIn kernelMode tensorMode outputs (Script.scene l).graph = .ok ⟨⟩ p)
    (hspill : Build.spill p = .ok ⟨⟩ s) (hflatten : Build.flatten s = .ok ⟨⟩ f)
    (hkernels : f.kernels = .ok ks) :
    ∀ kn ∈ ks, kn.kind = .compute → ∀ n ∈ f.runFrom kn.first,
      (f.node n).op.kind.accesses = true →
      (((f.node n).arguments .index).length = 1 ↔
        (∃ k, (s.node n).cluster = some k ∧ s.HeadHasShape k) ∨
          ((s.node n).arguments .index).length = 1) := by
  intro kn hkn hkind n hn haccess
  obtain ⟨p', o, lp, hprepare', hp, -⟩ :=
    (Script.recorded hl).graph.prepareIn kernelMode tensorMode outputs
  obtain rfl : p = p' := (EStateM.Result.ok.inj (hprepare.symm.trans hprepare')).2
  obtain ⟨ls, hs⟩ := hp.spilled hspill
  have hsparse : s.Sparse s.order := hs.lists.order ▸ hs.toSparse
  obtain ⟨_, ⟨lf, hlf⟩, -⟩ := hsparse.flattened hflatten
  exact hsparse.index_iff hflatten (mem_order_of_kernel hlf.lists hkernels hkn hkind hn) haccess

/-- A program that bounds the elements of an input from above. Its kernel starts with the constant,
which has no shape. -/
def bounded : List Step :=
  [ .act (.input .float (.sizes [4])) (some "A"),
    .act (.constant .float 0x3f800000 (.sizes [])) (some "c"),
    .act (.call (.named "min") ["A", "c"]) (some "y") ]

lemma bounded_run {mode : KernelMode} (hmode : mode = .linear ∨ mode = .multi) :
    ∃ p s f, Lowers bounded mode .unchecked [3] p s f ∧ ∃ ks, f.kernels = .ok ks ∧
      ∃ kn ∈ ks, kn.kind = .compute ∧ 6 ∈ f.runFrom kn.first ∧ (f.node 6).op.kind.accesses ∧
        ((f.node 6).arguments .index).length = 0 := by
  rcases hmode with rfl | rfl <;> decide +kernel

theorem kernel_index_of_bounded_unique_iff :
    ∃ p s f ks kn, Build.prepareIn .multi .unchecked [3] (Script.scene bounded).graph = .ok ⟨⟩ p ∧
      Build.spill p = .ok ⟨⟩ s ∧ Build.flatten s = .ok ⟨⟩ f ∧ f.kernels = .ok ks ∧ kn ∈ ks ∧
      kn.kind = .compute ∧ 6 ∈ f.runFrom kn.first ∧ (f.node 6).op.kind.accesses = true ∧
      (((f.node 6).arguments .index).length = 1 ↔
        (∃ k, (s.node 6).cluster = some k ∧ s.HeadHasShape k) ∨
          ((s.node 6).arguments .index).length = 1) := by
  obtain ⟨p, s, f, hl, ks, hkernels, kn, hkn, hkind, hrun, haccess, -⟩ := bounded_run (.inr rfl)
  exact ⟨p, s, f, ks, kn, hl.prepare, hl.spill, hl.flatten, hkernels, hkn, hkind, hrun, haccess,
    kernel_index_unique_iff hl.regular hl.prepare hl.spill hl.flatten hkernels kn hkn hkind
    6 hrun haccess⟩

/-- In a mode, all accesses of all compute kernels have exactly one index. -/
def KernelIndicesUnique (mode : KernelMode) : Prop :=
  ∀ (l : List Step) (tensorMode : TensorMode) (outputs : List NodeId) (p s f : Graph)
    (ks : List Kernel), Step.allRegular l →
    Build.prepareIn mode tensorMode outputs (Script.scene l).graph = .ok ⟨⟩ p →
    Build.spill p = .ok ⟨⟩ s → Build.flatten s = .ok ⟨⟩ f → f.kernels = .ok ks →
    ∀ kn ∈ ks, kn.kind = .compute → ∀ n ∈ f.runFrom kn.first,
      (f.node n).op.kind.accesses → ((f.node n).arguments .index).length = 1

/-- In both modes there are kernels with accesses that have no index. -/
theorem not_kernelIndicesUnique : ¬ KernelIndicesUnique .linear ∧ ¬ KernelIndicesUnique .multi := by
  have hmodes : ∀ mode, mode = .linear ∨ mode = .multi → ¬ KernelIndicesUnique mode := by
    intro mode hmode hall
    obtain ⟨p, s, f, hl, ks, hkernels, kn, hkn, hkind, hrun, haccess, hnone⟩ := bounded_run hmode
    have hone := hall bounded .unchecked [3] p s f ks hl.regular hl.prepare hl.spill hl.flatten
      hkernels kn hkn
      hkind 6 hrun haccess
    rw [hnone] at hone
    cases hone
  exact ⟨hmodes .linear (.inl rfl), hmodes .multi (.inr rfl)⟩

end KernelFusion.Graph
