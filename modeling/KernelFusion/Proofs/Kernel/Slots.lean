/-
The memory slots of kernels.

What a slot names has to be memory that the caller hands in or that an earlier kernel has
allocated. But an access may also take a computed value, and spilling gives that value a memory
only if it comes from another cluster.
-/
import KernelFusion.Proofs.Pass.Accesses
import KernelFusion.Proofs.Pass.Address

namespace KernelFusion

open List

/-! ### Kernels in program order -/

lemma filterMap_of_mapM_eq_ok {α β : Type} {f : α → Except Fault (Option β)} {l : List α}
    {found : List (Option β)} (h : l.mapM f = .ok found) :
    found.filterMap id = l.filterMap fun a => (f a).toOption.join := by
  replace h := Except.of_mapM_eq_ok h
  induction h with
  | nil => rfl
  | cons hb _ ih =>
    rw [filterMap_cons, filterMap_cons, hb, ih]
    rfl

namespace Graph

variable {g : Graph} {l : List NodeId} {ks before after : List Kernel} {kn : Kernel} {n m : NodeId}
  {k : ClusterId}

/-- The kernel that starts at a node, if there is one. -/
def kernelOf (g : Graph) (n : NodeId) : Option Kernel := (g.kernelAt? n).toOption.join

lemma kernels_eq_filterMap (h : g.kernels = .ok ks) : ks = g.order.filterMap g.kernelOf := by
  obtain ⟨found, hfound, h⟩ := Except.bind_eq_ok.1 h
  obtain rfl : found.filterMap id = ks := Except.ok.inj h
  exact filterMap_of_mapM_eq_ok hfound

lemma exists_kernelOf (hl : g.Lists l) (h : g.kernels = .ok (before ++ kn :: after)) :
    ∃ A n B, l = A ++ n :: B ∧ before = A.filterMap g.kernelOf ∧ g.kernelOf n = some kn := by
  have hks := (kernels_eq_filterMap h).symm
  rw [hl.order] at hks
  obtain ⟨l₁, l₂, rfl, hbefore, hrest⟩ := filterMap_eq_append_iff.1 hks
  obtain ⟨l₃, n, l₄, rfl, hnone, hn, -⟩ := filterMap_eq_cons_iff.1 hrest
  refine ⟨l₁ ++ l₃, n, l₄, by simp, ?_, hn⟩
  rw [filterMap_append, hbefore, filterMap_eq_nil_iff.2 hnone, append_nil]

lemma kernelOf_of_isMemory (hm : (g.node m).isMemory) (hrole : (g.node m).role ≠ .input) :
    ∃ kn, g.kernelOf m = some kn ∧ kn.kind = .memory ∧ kn.first = m := by
  rw [kernelOf, kernelAt?, if_pos hm, if_neg hrole]
  exact ⟨_, rfl, rfl, rfl⟩

lemma kernelOf_eq_compute (h : g.kernelOf n = some kn) (hkind : kn.kind = .compute) :
    (g.node n).isMemory = false ∧ g.startsRun n ∧ kn.first = n ∧
      kn.memory = g.accessedMemory (g.runFrom n) := by
  rw [kernelOf, kernelAt?] at h
  split at h
  · split at h
    · cases h
    · cases h
      cases hkind
  · rename_i hmem
    split at h
    · rename_i hstarts
      refine ⟨by simpa using hmem, hstarts, ?_⟩
      rw [computeKernel?] at h
      split at h
      · split at h
        · cases h
          exact ⟨rfl, rfl⟩
        · cases h
      · cases h
    · cases h

lemma mem_accessedMemory {nodes : List NodeId} : m ∈ g.accessedMemory nodes ↔
    ∃ n ∈ nodes, (g.node n).op.kind.accesses ∧ (g.memoryOf? n).getD 0 = m := by
  rw [accessedMemory, mem_firstOccurrences, mem_map]
  constructor
  · rintro ⟨n, hn, rfl⟩
    obtain ⟨hn, hacc⟩ := mem_filter.1 hn
    exact ⟨n, hn, hacc, rfl⟩
  · rintro ⟨n, hn, hacc, rfl⟩
    exact ⟨n, mem_filter.2 ⟨hn, hacc⟩, rfl⟩

lemma runFrom_eq_run (hk : (g.node n).cluster = some k) (hstarts : g.startsRun n) :
    g.head? k = some n ∧ g.runFrom n = g.run k := by
  have hhead : g.head? k = some n := by simpa [startsRun, hk] using hstarts
  refine ⟨hhead, ?_⟩
  rw [runFrom, run, hhead, hk]

/-- A kernel's memory slots are what its cluster accesses. -/
lemma mem_memory_iff (hl : g.Lists l) (hg : g.Grouped OpKind.accesses l) (hn : n ∈ l)
    (h : g.kernelOf n = some kn) (hkind : kn.kind = .compute) :
    ∃ k, (g.node n).cluster = some k ∧ ∀ m, m ∈ kn.memory ↔ ∃ v ∈ l,
      (g.node v).op.kind.accesses ∧ (g.node v).cluster = some k ∧
        (g.memoryOf? v).getD 0 = m := by
  obtain ⟨hmem, hstarts, -, hmemory⟩ := kernelOf_eq_compute h hkind
  obtain ⟨k, hk⟩ := hg.clustered hn hmem
  obtain ⟨hhead, hrun⟩ := runFrom_eq_run hk hstarts
  refine ⟨k, hk, fun m => ?_⟩
  rw [hmemory, hrun, mem_accessedMemory]
  constructor
  · rintro ⟨v, hv, hacc, hm⟩
    obtain ⟨hle, hkv⟩ := (hg.mem_run_iff hl hhead hn hk).1 hv
    have hvl : v ∈ l := by
      rcases hle with rfl | hprec
      · exact hn
      · exact hprec.right_mem
    exact ⟨v, hvl, hacc, hkv, hm⟩
  · rintro ⟨v, hv, hacc, hkv, hm⟩
    exact ⟨v, hg.mem_run hl hv hkv hacc, hacc, hm⟩

/-- What a slot names is there when some kernels have run: it is memory that the caller hands in or
that one of them allocates. -/
def BoundBy (g : Graph) (ks : List Kernel) (m : NodeId) : Prop :=
  (g.node m).isMemory ∧
    ((g.node m).role = .input ∨ ∃ kn ∈ ks, kn.kind = .memory ∧ kn.first = m)

lemma boundBy_of_mem {A : List NodeId} (hm : (g.node m).isMemory) (hA : m ∈ A) :
    g.BoundBy (A.filterMap g.kernelOf) m := by
  refine ⟨hm, ?_⟩
  by_cases hrole : (g.node m).role = .input
  · exact .inl hrole
  · obtain ⟨kn, hkn, hkind, hfirst⟩ := kernelOf_of_isMemory hm hrole
    exact .inr ⟨kn, mem_filterMap.2 ⟨m, hA, hkn⟩, hkind, hfirst⟩

end Graph

/-! ### The passes -/

namespace Build

/-- The passes in front of spilling, for given modes of kernels and tensors. -/
def prepareIn (kernelMode : KernelMode) (tensorMode : TensorMode) (outputs : List NodeId) :
    Build Unit := do
  setOutputs outputs
  modify fun g => { g with kernelMode, tensorMode }
  modify Graph.clusterize
  recompute
  modify Graph.prune

/-- The passes in front of spilling. -/
def prepare (outputs : List NodeId) : Build Unit := do
  setOutputs outputs
  modify fun g => { g with kernelMode := .multi, tensorMode := .clamp }
  modify Graph.clusterize
  recompute
  modify Graph.prune

lemma transform_eq_ok {outputs : List NodeId} {g f : Graph} {ks : List Kernel}
    (h : transform outputs g = .ok ks f) :
    ∃ p s t, prepare outputs g = .ok ⟨⟩ p ∧ spill p = .ok ⟨⟩ s ∧ flatten s = .ok ⟨⟩ t ∧
      t.kernels = .ok ks ∧ f = { t with recording := false } := by
  obtain ⟨⟨⟩, g₁, hroles, h⟩ := bind_eq_ok.1 h
  obtain ⟨⟨⟩, g₂, hmode, h⟩ := bind_eq_ok.1 h
  obtain ⟨⟨⟩, g₃, hcut, h⟩ := bind_eq_ok.1 h
  obtain ⟨⟨⟩, g₄, hcopies, h⟩ := bind_eq_ok.1 h
  obtain ⟨⟨⟩, p, hprune, h⟩ := bind_eq_ok.1 h
  obtain ⟨⟨⟩, s, hspill, h⟩ := bind_eq_ok.1 h
  obtain ⟨⟨⟩, t, hflatten, h⟩ := bind_eq_ok.1 h
  obtain ⟨found, t', hkernels, h⟩ := bind_eq_ok.1 h
  refine ⟨p, s, t, ?_, hspill, hflatten, ?_⟩
  · exact (bind_of_ok hroles).trans <| (bind_of_ok hmode).trans <| (bind_of_ok hcut).trans <|
      (bind_of_ok hcopies).trans hprune
  · obtain ⟨t₁, t₂, hget, hkernels⟩ := bind_eq_ok.1 hkernels
    cases hget
    -- reading the kernels does not change the graph
    cases hks : t.kernels with
    | error e =>
      rw [hks] at hkernels
      cases hkernels
    | ok ks' =>
      rw [hks] at hkernels
      cases hkernels
      cases h
      exact ⟨rfl, rfl⟩

end Build

namespace Graph

variable {g o p s f : Graph} {lp ls lf outputs : List NodeId} {before after : List Kernel}
  {kn : Kernel} {n : NodeId}

lemma Recorded.setOutputs (h : g.Recorded) (outputs : List (NodeId × Nat)) :
    (outputs.foldl (fun g (n, i) => g.setRole n .output i) g).Recorded := by
  induction outputs generalizing g with
  | nil => exact h
  | cons q outputs ih => exact ih (h.setRole q.1 .output q.2)

lemma Recorded.modes (h : g.Recorded) (kernelMode : KernelMode) (tensorMode : TensorMode) :
    ({ g with kernelMode, tensorMode } : Graph).Recorded :=
  ⟨h.recording, ⟨h.splits.toLists.congr rfl rfl rfl, h.splits.cursor, h.splits.ahead⟩,
    h.labelled.congr rfl rfl, h.current, h.clusters, h.cluster, h.earlier, h.regular,
    h.typed.congr (Subset.refl _) (fun _ => rfl) (fun _ => rfl) fun _ => rfl, h.last⟩

lemma prepareIn_of_recompute {kernelMode : KernelMode} {tensorMode : TensorMode}
    (hrun : Build.recompute ({ outputs.zipIdx.foldl (fun g (n, i) => g.setRole n .output i) g with
      kernelMode, tensorMode } : Graph).clusterize = .ok ⟨⟩ o) :
    Build.prepareIn kernelMode tensorMode outputs g = .ok ⟨⟩ o.prune :=
  (bind_of_ok rfl).trans <| (bind_of_ok rfl).trans <| (bind_of_ok rfl).trans <|
    (bind_of_ok hrun).trans rfl

lemma Recorded.prepareIn (h : g.Recorded) (kernelMode : KernelMode) (tensorMode : TensorMode)
    (outputs : List NodeId) : ∃ (p o : Graph) (lp : List NodeId),
      Build.prepareIn kernelMode tensorMode outputs g = .ok ⟨⟩ p ∧ o.Pruned p lp ∧
        p.kernelMode = kernelMode := by
  have hstart := (h.setOutputs outputs.zipIdx).modes kernelMode tensorMode
  obtain ⟨o, hrun, l, origin, htidy, hr⟩ := hstart.tidy_clusterize_order.recompute
  obtain ⟨lp, hp⟩ := htidy.pruned
  refine ⟨o.prune, o, lp, prepareIn_of_recompute hrun, hp, ?_⟩
  rw [hp.thinned.mode, hr.grown.mode, hstart.recut_clusterize.rest]

lemma Recorded.prepare (h : g.Recorded) (outputs : List NodeId) :
    ∃ (p o : Graph) (lp : List NodeId), Build.prepare outputs g = .ok ⟨⟩ p ∧ o.Pruned p lp ∧
      p.kernelMode = .multi := h.prepareIn .multi .clamp outputs

/-- A node accesses a value that its own cluster computes. -/
def AccessesOwn (g : Graph) (n : NodeId) : Prop :=
  (g.node n).op.kind.accesses ∧
    ∃ m, g.memoryOf? n = some m ∧ (g.node m).isMemory = false ∧ g.SameCluster m n

section

variable (hp : o.Pruned p lp) (hs : Spilled p lp s ls)

include hp hs

lemma Spilled.memoryOf?_of_accessesOwn (hf : Addressing s ls f lf) (hn : n ∈ lp)
    (hown : p.AccessesOwn n) :
    ∃ m, f.memoryOf? n = some m ∧ (f.node m).isMemory = false := by
  obtain ⟨hacc, m, hm, hmem, hsame⟩ := hown
  obtain ⟨x, hx, -, rfl⟩ := hp.exists_argument hn hm
  refine ⟨x.source, ?_, ?_⟩
  · rw [hf.memoryOf?_eq hs.toSparse (hs.listed.subset hn)]
    exact hs.kept n hn hacc _ hm hmem hsame
  · have hmlt := hp.inside n hn x hx
    rw [hf.outline.isMemory (Nat.lt_of_lt_of_le hmlt hs.rewired.size), hs.rewired.isMemory hmlt]
    exact hmem

lemma Spilled.precedes_of_not_accessesOwn (hn : n ∈ ls) (hacc : (s.node n).op.kind.accesses)
    (hown : n ∈ lp → ¬ p.AccessesOwn n) :
    ∃ m, s.memoryOf? n = some m ∧ (s.node m).isMemory ∧ Precedes ls m n := by
  obtain ⟨m, hm, hcases⟩ := hs.accessed n hn hacc
  obtain ⟨x, hx, hxkind, rfl⟩ := hs.exists_argument hn hm
  have hmem : (s.node x.source).isMemory := by
    rcases hcases with hmem | ⟨hnp, hmp, hsame⟩
    · exact hmem
    · rw [hs.rewired.op n (hp.lists.lt_size hnp)] at hacc
      obtain ⟨y, hy, -, hys⟩ := hp.exists_argument hnp hmp
      rw [hs.rewired.isMemory (hys ▸ hp.inside n hnp y hy)]
      by_contra hmem
      exact hown hnp ⟨hacc, x.source, hmp, by simpa using hmem, hsame⟩
  exact ⟨x.source, hm, hmem, hs.ordered n hn x hx (by rw [hxkind]; decide) hmem⟩

/-- A kernel's slots are bound when it runs unless its cluster accesses a value of its own. -/
lemma Spilled.slots_iff (hf : Addressing s ls f lf) (hks : f.kernels = .ok (before ++ kn :: after))
    (hkind : kn.kind = .compute) :
    (∀ m ∈ kn.memory, f.BoundBy before m) ↔
      ∀ n ∈ lp, (p.node n).cluster = (f.node kn.first).cluster → ¬ p.AccessesOwn n := by
  obtain ⟨A, h, B, rfl, rfl, hkn⟩ := exists_kernelOf hf.lists hks
  obtain ⟨-, -, hfirst, -⟩ := kernelOf_eq_compute hkn hkind
  obtain ⟨k, hk, hslots⟩ := mem_memory_iff hf.lists hf.grouped (by simp) hkn hkind
  have hout : p.Outline f := hs.rewired.toOutline.trans hf.outline
  rw [hfirst, hk]
  constructor
  · intro hbound n hn hkn hown
    have hlt := hp.lists.lt_size hn
    obtain ⟨m, hm, hmem⟩ := hs.memoryOf?_of_accessesOwn hp hf hn hown
    have hslot : m ∈ kn.memory := (hslots m).2 ⟨n, hf.listed.subset (hs.listed.subset hn),
      by rw [hout.op n hlt]; exact hown.1, (hout.cluster n hlt).trans hkn, by rw [hm]; rfl⟩
    rw [(hbound m hslot).1] at hmem
    cases hmem
  · intro hown m hm
    obtain ⟨n, hn, hacc, hkn, hm⟩ := (hslots m).1 hm
    have hns := hf.fresh n hn hacc
    have hlt := hs.lists.lt_size hns
    rw [hf.outline.op n hlt] at hacc
    obtain ⟨v, hv, hmem, hprec⟩ := hs.precedes_of_not_accessesOwn hp hns hacc fun hnp =>
      hown n hnp ((hout.cluster n (hp.lists.lt_size hnp)).symm.trans hkn)
    rw [hf.memoryOf?_eq hs.toSparse hns, hv, Option.getD_some] at hm
    subst hm
    -- memory in front of an access is in front of the whole cluster, since clusters do not mix
    have hprecf := hprec.mono hf.listed
    have hmemf := (hf.outline.isMemory (hs.lists.lt_size hprec.left_mem)).trans hmem
    have hnf := (hf.outline.isMemory hlt).trans (hs.isMemory_of_accesses hns hacc)
    refine boundBy_of_mem hmemf (hf.grouped.mem_front hk hprecf hkn fun hkm => ?_)
    have happart := hf.grouped.apart hprecf.left_mem hprecf.right_mem hkm hkn
    rw [hmemf, hnf] at happart
    cases happart

end

/-- For every program that functions on tensors record, and all outputs: if all passes succeed, then
the memory slots of a compute kernel are bound by the kernels in front of it if and only if, when
values are spilled, the cluster of the kernel does not access values that it computes itself. -/
theorem slots_bound_iff {l : List Step} (hl : Step.allRegular l = true) {ks : List Kernel}
    (hrun : Build.transform outputs (Script.scene l).graph = .ok ks f) :
    ∃ p, Build.prepare outputs (Script.scene l).graph = .ok ⟨⟩ p ∧
      ∀ before kn after, ks = before ++ kn :: after → kn.kind = .compute →
        ((∀ m ∈ kn.memory, f.BoundBy before m) ↔
          ∀ n ∈ p.order, (p.node n).cluster = (f.node kn.first).cluster → ¬ p.AccessesOwn n) := by
  obtain ⟨p, s, t, hprepare, hspill, hflatten, hkernels, rfl⟩ := Build.transform_eq_ok hrun
  obtain ⟨p', o, lp, hprepare', hp, hmode⟩ := (Script.recorded hl).graph.prepare outputs
  obtain rfl : p = p' := (EStateM.Result.ok.inj (hprepare.symm.trans hprepare')).2
  obtain ⟨ls, hs⟩ := hp.spilled hspill
  obtain ⟨lt, ht⟩ := hs.toSparse.addressed (hs.memoryListed hp)
    (hs.rewired.mode.trans hmode) hflatten
  refine ⟨p, hprepare, ?_⟩
  rintro before kn after rfl hkind
  rw [hp.lists.order]
  -- the end of recording does not change nodes
  have hslots := hs.slots_iff hp ht hkernels hkind
  exact hslots

/-- A program that computes a value and loads it, in one cluster. -/
def detour : List Step :=
  [ .act (.input .float (.sizes [4])) (some "A"),
    .act (.call (.named "sin") ["A"]) (some "y"),
    .act (.load "y" []) (some "z") ]

lemma transform_detour : ∃ ks f, Build.transform [3] (Script.scene detour).graph = .ok ks f ∧
    (∃ before kn, ks = before ++ [kn] ∧ kn.kind = .compute ∧ kn.memory = [1, 2, 4]) ∧
    (f.node 2).isMemory = false := by
  obtain ⟨ks, f, hrun, ⟨kn, hkn, hslots⟩, hnode⟩ : ∃ ks f,
      Build.transform [3] (Script.scene detour).graph = .ok ks f ∧
      (∃ kn ∈ ks.getLast?, kn.kind = .compute ∧ kn.memory = [1, 2, 4]) ∧
      (f.node 2).isMemory = false := by
    decide +kernel
  obtain ⟨before, hks⟩ := getLast?_eq_some_iff.1 hkn
  exact ⟨ks, f, hrun, ⟨before, kn, hks, hslots⟩, hnode⟩

theorem slots_of_detour_bound_iff :
    ∃ ks f p before kn, Build.transform [3] (Script.scene detour).graph = .ok ks f ∧
      Build.prepare [3] (Script.scene detour).graph = .ok ⟨⟩ p ∧
      ks = before ++ [kn] ∧ kn.kind = .compute ∧
      ((∀ m ∈ kn.memory, f.BoundBy before m) ↔
        ∀ n ∈ p.order, (p.node n).cluster = (f.node kn.first).cluster → ¬ p.AccessesOwn n) := by
  obtain ⟨ks, f, hrun, ⟨before, kn, hks, hkind, -⟩, -⟩ := transform_detour
  obtain ⟨p, hprepare, hslots⟩ := slots_bound_iff (by decide +kernel) hrun
  exact ⟨ks, f, p, before, kn, hrun, hprepare, hks, hkind, hslots before kn [] hks hkind⟩

/-- Not all slots are bound: one of these is a value that no kernel writes to memory. -/
theorem not_forall_slots_bound :
    ¬ ∀ (l : List Step) (outputs : List NodeId) (ks : List Kernel) (f : Graph),
      Step.allRegular l = true → Build.transform outputs (Script.scene l).graph = .ok ks f →
      ∀ before kn after, ks = before ++ kn :: after → kn.kind = .compute →
        ∀ m ∈ kn.memory, f.BoundBy before m := by
  intro hall
  obtain ⟨ks, f, hrun, ⟨before, kn, hks, hkind, hmemory⟩, hnode⟩ := transform_detour
  have hbound := hall detour [3] ks f (by decide +kernel) hrun before kn [] hks hkind 2
    (by rw [hmemory]; decide)
  rw [hbound.1] at hnode
  cases hnode

end Graph

end KernelFusion
