/-
What the address of an access is computed from.

A computed address takes a size of the memory and an index for every dimension, or the coordinate
of the thread where there is no index. But nothing relates the dimensions of the memory to those of
the kernel, so the coordinate need not exist; and memory without dimensions still takes a first
index.
-/
import KernelFusion.Proofs.Kernel.Lowering
import KernelFusion.Proofs.Pass.Redirected

namespace KernelFusion

open List Build

/-! ### Shapes of computed coordinates -/

namespace Graph

/-- The node is no constant, and its shape consists of the given labels. -/
structure IsShaped (ls : List LabelId) (n : NodeId) (g : Graph) : Prop where
  lt : n < g.nodes.size
  isConst : (g.node n).isConst = false
  shape : ((g.node n).args.filter fun a => a.kind = .shape) = block .shape ls

variable {ls : List LabelId} {g' g : Graph} {n : NodeId}

lemma IsShaped.evolves {F : NodeId → Prop} (h : IsShaped ls n g)
    (hg : Evolves nothing F g g') : IsShaped ls n g' := by
  refine ⟨Nat.lt_of_lt_of_le h.lt hg.size, ?_, ?_⟩
  · rw [Node.isConst, hg.op n h.lt]
    exact h.isConst
  · rw [hg.args n h.lt id, h.shape]

lemma commonShape_cons (ns : List NodeId) (hls : ls ≠ [])
    (h : IsShaped ls n g) : g.commonShape (n :: ns) = block .shape ls := by
  have hne : (!(block ArgKind.shape ls).isEmpty) := by
    simpa [List.isEmpty_iff, block_eq_nil_iff] using hls
  rw [commonShape, map_cons, Node.arguments_of_block h.shape, find?_cons, hne]
  rfl

end Graph

namespace Build

open KernelFusion.Graph

variable {g : Graph} {n m : NodeId} {ls : List LabelId} {name : String}

lemma isShaped_insert {op : Operation} {type : Scalar} {args : List Argument}
    (hop : op.name ≠ "const") (hargs : (args.filter fun a => a.kind = .shape) = block .shape ls) :
    IsShaped ls g.nodes.size (g.insert op type args) := by
  refine ⟨by simp, ?_, ?_⟩
  · rw [node_insert_self]
    simpa [Node.isConst] using hop
  · rw [node_insert_self]
    exact hargs

lemma keeps_shaped_threadIndex :
    Keeps (Evolves nothing nothing) (threadIndex (block .shape ls)) g (IsShaped ls) := by
  refine keeps_source_of fun op hop _ =>
    ⟨Evolves.insert g op .int _, isShaped_insert ?_ filter_block_self⟩
  rw [(Operation.mem_table_of_find hop).2]
  decide +kernel

lemma keeps_shaped_apply (hls : ls ≠ []) (hn : IsShaped ls n g)
    (hname : Text.removeSpaces name ≠ "const") :
    Keeps (Evolves nothing nothing) (apply name [n, m]) g (IsShaped ls) := by
  refine keeps_apply_of fun op o hop _ => ⟨Evolves.insert g op o.output _, isShaped_insert ?_ ?_⟩
  · rw [(Operation.mem_table_of_find hop).2]
    exact hname
  · rw [filter_append, commonShape_cons [m] hls hn, filter_block_self]
    simp [argumentsFrom]

lemma keeps_shaped_arithmetic {f : Arithmetic} (hf : f = .sub ∨ f = .div) (hls : ls ≠ [])
    (hn : IsShaped ls n g) :
    Keeps (Evolves nothing nothing) (arithmetic f n m) g (IsShaped ls) := by
  have hvalue := fun v => isValue_of_not_isConst hn.isConst v
  refine keeps_arithmetic_of (fun _ => hn) (fun h => ?_) (fun h => ?_) (fun w h => ?_)
    (keeps_shaped_apply hls hn (by cases f <;> decide +kernel))
  · cases h <;> simp at hf
  · cases h with
    | subNegation h => simp [hvalue] at h
  · cases h with
    | mulZero => simp at hf
    | divZero h => simp [hvalue] at h
    | computed h => simp [hn.isConst] at h

lemma inherited_isShaped (hls : ls ≠ []) : Inherited (Evolves nothing nothing) (IsShaped ls) where
  recorder := recorder_evolves
  stable h hg := h.evolves hg
  sub hn := keeps_shaped_arithmetic (.inl rfl) hls hn
  div hn := keeps_shaped_arithmetic (.inr rfl) hls hn

end Build

namespace Graph

variable {s g gm f : Graph} {k : ClusterId} {h n m : NodeId} {thread : Option NodeId}
  {coordinates l : List NodeId} {D : ClusterId → Prop} {ls : List LabelId}

lemma size?_of_block (h : ((g.node m).args.filter fun a => a.kind = .shape) = block .shape ls) :
    ((g.node m).extent .shape).toNat = ls.length ∧
      ∀ dim < ls.length, (g.size? m dim).isSome := by
  refine ⟨by rw [Node.extent_of_block h, Int.toNat_natCast], fun dim hdim => ?_⟩
  rw [size?, Node.sizeAt?_of_block h, getElem?_eq_getElem hdim]
  rfl

lemma length_sources_of_block {K : ArgKind}
    (h : ((g.node m).args.filter fun a => a.kind = K) = block K ls) :
    (g.sources m K).length = ls.length := by
  rw [sources, Node.places_of_block h, length_map, length_block]

namespace Prepares

variable (hp : Prepares s k h D g gm thread coordinates l) (hs : s.Sparse s.order)
  (hh : s.head? k = some h) (hmem : h ∈ s.order) (hkh : (s.node h).cluster = some k)
  (hshape : s.sources h .shape ≠ [])

include hp hs hh hmem hkh hshape

lemma shaped (hlinear : s.kernelMode = .linear) :
    coordinates.length = (s.sources h .shape).length ∧
      ∀ c ∈ coordinates, IsShaped ((s.node h).labels .shape) c gm := by
  obtain ⟨t, g₀, g₁, rfl, hlin, hafter⟩ := hp.linearized hs hh hmem hkh hlinear
  obtain ⟨hg, -⟩ := hp.goesOn
  have hblock := (hs.regular h hmem).blocks .shape
  have hblockg := (hg.others h (hs.lists.lt_size hmem) .shape (by decide)).trans hblock
  have hls : (s.node h).labels .shape ≠ [] := by
    rw [← length_pos_iff, ← length_sources_of_block hblock]
    exact length_pos_iff.2 hshape
  have hthread := hlin.thread
  rw [Node.arguments_of_block hblockg] at hthread
  obtain ⟨-, hlength, hcoordinates⟩ := ((inherited_isShaped hls).keeps_coordinatesOf
    (keeps_shaped_threadIndex.meets.of_ok hthread).2).meets.of_ok hlin.run
  refine ⟨?_, fun c hc => (hcoordinates c hc).evolves hafter⟩
  rw [hlength, length_map, length_sources_of_block hblockg, length_sources_of_block hblock]

lemma length_coordinates : coordinates.length = (s.sources h .shape).length := by
  by_cases hlinear : s.kernelMode = .linear
  · exact (hp.shaped hs hh hmem hkh hshape hlinear).1
  · obtain ⟨-, hall, -⟩ := hp.multiplied hs hh hmem hkh hlinear
    rw [← hall.length_eq, length_range, hs.sources_eq hmem
      (hp.goesOn.1.others h (hs.lists.lt_size hmem) .shape (by decide)), length_map]

lemma shaped_target (hlinear : s.kernelMode = .linear) (hm : m ∈ s.order)
    (hcoord : (s.node m).isCoordinate) (hkm : (s.node m).cluster = some k) :
    IsShaped ((s.node h).labels .shape) (gm.target m) gm := by
  obtain ⟨-, hshaped⟩ := hp.shaped hs hh hmem hkh hshape hlinear
  exact hshaped _ (hp.target_mem hs hh hmem hkh hlinear hm hcoord hkm)

end Prepares

/-! ### Coming to an access -/

/-- The address pass on `s` comes to the access `n` of the cluster `k` with the graph `g`: the
clusters in front have been treated, the coordinates of the cluster have been provided, and the
accesses in front of `n` have been treated. -/
inductive ComesTo (s : Graph) (k : ClusterId) (h n : NodeId) (thread : Option NodeId)
    (coordinates : List NodeId) (g : Graph) : Prop where
  | intro {A B : List ClusterId} {g₀ gm : Graph} {ns ns' : List NodeId}
    (hclusters : s.clusterOrder = A ++ k :: B) (hbefore : A.forM flattenCluster s = .ok ⟨⟩ g₀)
    (hhead : g₀.head? k = some h) (hshape : g₀.sources h .shape ≠ [])
    (hprovides : Provides k h g₀ coordinates gm thread)
    (haccesses : ((gm.run k).filter fun n => (gm.node n).op.kind.accesses) = ns ++ n :: ns')
    (hrun : ns.forM (flattenAccess thread coordinates) gm = .ok ⟨⟩ g) :
    ComesTo s k h n thread coordinates g

lemma Sparse.prepares_of_split {A B : List ClusterId} {g₀ : Graph} (hs : s.Sparse s.order)
    (hclusters : s.clusterOrder = A ++ k :: B) (hbefore : A.forM flattenCluster s = .ok ⟨⟩ g₀)
    (hhead : g₀.head? k = some h) (hshape : g₀.sources h .shape ≠ [])
    (hprovides : Provides k h g₀ coordinates gm thread) :
    (s.head? k = some h ∧ h ∈ s.order ∧ (s.node h).cluster = some k ∧ s.sources h .shape ≠ []) ∧
      ∃ l, Prepares s k h (· ∈ A) g₀ gm thread coordinates l := by
  obtain ⟨hreached, hk, v, hv, hkv⟩ := hs.reached_of_split hclusters hbefore
  obtain ⟨l, hl⟩ := hreached.flattening
  obtain ⟨h', hh', hmem, hkh, hhg, hhl, hkg⟩ := hl.head_of_untouched hs hk hv hkv
  obtain rfl := Option.mem_unique hhead hhg
  obtain ⟨hevolves, lm, hlm, hkept⟩ := hreached.provided hl hs hk hhg hhl hkg hprovides
  refine ⟨⟨hh', hmem, hkh, fun hnil => hshape ?_⟩, l, hk, hreached, hl, hprovides, hevolves, lm,
    hlm.absent_of fun v hv hlt hmoved => hlm.absent v hv hlt (.inr hmoved), hkept⟩
  exact (hreached.evolves.sources_eq_nil_iff (hs.lists.lt_size hmem) (by decide)).2 hnil

lemma ComesTo.prepares (hc : ComesTo s k h n thread coordinates g) (hs : s.Sparse s.order) :
    s.head? k = some h ∧ h ∈ s.order ∧ (s.node h).cluster = some k ∧ s.sources h .shape ≠ [] ∧
      ∃ D g₀ gm l l₁, Prepares s k h D g₀ gm thread coordinates l ∧ Halfway s k D gm n g l₁ := by
  obtain ⟨hclusters, hbefore, hhead, hshape, hprovides, haccesses, hrun⟩ := hc
  obtain ⟨⟨hh, hmem, hkh, hshape⟩, l, hp⟩ :=
    hs.prepares_of_split hclusters hbefore hhead hshape hprovides
  obtain ⟨l₁, hhalf⟩ := hp.halfway hs haccesses hrun
  exact ⟨hh, hmem, hkh, hshape, _, _, _, l, l₁, hp, hhalf⟩

/-- The address pass on `s`, which ends with `f`, comes to the access `n` with the graph `g`, and it
goes on from there with `g'`. -/
inductive Visits (s : Graph) (k : ClusterId) (h n : NodeId) (thread : Option NodeId)
    (coordinates : List NodeId) (g g' f : Graph) : Prop where
  | intro {A B : List ClusterId} {g₀ gm g₁ : Graph} {ns ns' : List NodeId}
    (hclusters : s.clusterOrder = A ++ k :: B) (hbefore : A.forM flattenCluster s = .ok ⟨⟩ g₀)
    (hcluster : flattenCluster k g₀ = .ok ⟨⟩ g₁) (hhead : g₀.head? k = some h)
    (hshape : g₀.sources h .shape ≠ []) (hprovides : Provides k h g₀ coordinates gm thread)
    (haccesses : ((gm.run k).filter fun n => (gm.node n).op.kind.accesses) = ns ++ n :: ns')
    (hfront : ns.forM (flattenAccess thread coordinates) gm = .ok ⟨⟩ g)
    (hrun : flattenAccess thread coordinates n g = .ok ⟨⟩ g')
    (hback : ns'.forM (flattenAccess thread coordinates) g' = .ok ⟨⟩ g₁)
    (hafter : B.forM flattenCluster g₁ = .ok ⟨⟩ f) : Visits s k h n thread coordinates g g' f

lemma Visits.comesTo (hv : Visits s k h n thread coordinates g g' f) :
    ComesTo s k h n thread coordinates g := by
  obtain ⟨hclusters, hbefore, -, hhead, hshape, hprovides, haccesses, hfront, -⟩ := hv
  exact .intro hclusters hbefore hhead hshape hprovides haccesses hfront

/-- The pass visits every access of a cluster with a shape. -/
lemma Sparse.visits (hs : s.Sparse s.order) (hrun : flatten s = .ok ⟨⟩ f) (hn : n ∈ s.order)
    (haccess : (s.node n).op.kind.accesses) (hkn : (s.node n).cluster = some k)
    (hh : s.head? k = some h) (hshape : s.sources h .shape ≠ []) :
    ∃ thread coordinates g g', Visits s k h n thread coordinates g g' f := by
  obtain ⟨A, B, hsplit⟩ := append_of_mem (mem_clusterOrder.2 ⟨n, hn,
    hs.isMemory_of_accesses hn haccess, hkn⟩)
  obtain ⟨g₀, g₁, hbefore, hcluster, hafter⟩ := forM_append_cons_eq_ok
    (hsplit ▸ hrun : (A ++ k :: B).forM flattenCluster s = .ok ⟨⟩ f)
  obtain ⟨hreached, hk, -⟩ := hs.reached_of_split hsplit hbefore
  obtain ⟨l, hl⟩ := hreached.flattening
  obtain ⟨h', hh', hmem, hkh, hhg, hhl, hkg⟩ := hl.head_of_untouched hs hk hn hkn
  obtain rfl := Option.mem_unique hh' hh
  have hshape' : g₀.sources h' .shape ≠ [] := fun hnil =>
    hshape ((hreached.evolves.sources_eq_nil_iff (hs.lists.lt_size hmem) (by decide)).1 hnil)
  obtain ⟨thread, coordinates, gm, lm, hp, -, hlm, hkept, haccesses, -⟩ :=
    hreached.provides hl hs hk hhg hhl hkg hshape' hcluster
  have hstays := hs.not_movedIn_of_accesses (D := (· = k)) hn haccess
  have hmem := (hlm.mem_accesses_iff (n := n) (k := k) hs.lists (.inr rfl)).2
    ⟨hkept n (hl.mem_of_untouched hk hn hkn) hstays, hs.lists.lt_size hn, haccess, hkn⟩
  obtain ⟨ns, ns', hns⟩ := append_of_mem hmem
  obtain ⟨g, g', hfront, hstep, hback⟩ := forM_append_cons_eq_ok (hns ▸ haccesses)
  exact ⟨thread, coordinates, g, g',
    .intro hsplit hbefore hcluster hhg hshape' hp hns hfront hstep hback hafter⟩

/-- The memory `m` has a dimension, and every dimension for which the access `n` has no index is one
of the head `h`. -/
def Covered (s : Graph) (h n m : NodeId) : Prop :=
  1 ≤ (s.sources m .shape).length ∧ ∀ dim < (s.sources m .shape).length,
    ((s.sources n .index).lookup (dim : Int)).isSome ∨ dim < (s.sources h .shape).length

instance : Decidable (s.Covered h n m) := inferInstanceAs (Decidable (_ ∧ _))

end Graph

/-- All that is looked up for an address is there: the memory has a dimension, and every dimension
has a size, and an index or a coordinate. -/
structure Build.Complete (rank : Nat) (size? : Nat → Option NodeId) (indices : List (Int × NodeId))
    (coordinates : List NodeId) : Prop where
  positive : 1 ≤ rank
  size : ∀ dim < rank, (size? dim).isSome
  index : ∀ dim < rank, (indices.lookup (dim : Int)).isSome ∨ dim < coordinates.length

namespace Graph

section Access

variable {l : List Step} {kernelMode : KernelMode} {tensorMode : TensorMode} {outputs : List NodeId}
  {p s g gm : Graph} {k : ClusterId} {h n m : NodeId} {thread : Option NodeId}
  {coordinates : List NodeId}

namespace ComesTo

variable (hc : ComesTo s k h n thread coordinates g) (hs : s.Sparse s.order)

include hc hs

lemma goesOn : GoesOn s s g := by
  obtain ⟨-, -, -, -, D, g₀, gm, l, l₁, hp, hhalf⟩ := hc.prepares hs
  exact (hp.goesOn.1.trans hp.goesOn.2).trans
    (hhalf.evolves.mono (fun _ hv => hv.mono fun _ _ => trivial) fun _ => False.elim)

lemma thread_eq_none_iff : thread = none ↔ s.kernelMode ≠ .linear := by
  obtain ⟨hh, hmem, hkh, -, D, g₀, gm, l, l₁, hp, -⟩ := hc.prepares hs
  constructor
  · rintro rfl hlinear
    obtain ⟨t, -, -, hthread, -⟩ := hp.linearized hs hh hmem hkh hlinear
    cases hthread
  · exact fun hmode => (hp.multiplied hs hh hmem hkh hmode).1

lemma length_coordinates : coordinates.length = (s.sources h .shape).length := by
  obtain ⟨hh, hmem, hkh, hshape, D, g₀, gm, l, l₁, hp, -⟩ := hc.prepares hs
  exact hp.length_coordinates hs hh hmem hkh hshape

lemma sources_index : g.sources n .index = (s.sources n .index).map (Prod.map id g.target) := by
  obtain ⟨-, -, -, -, D, g₀, gm, l, l₁, -, hhalf⟩ := hc.prepares hs
  exact hs.sources_eq hhalf.old (by rw [hhalf.args])

lemma memoryOf?_eq (hm : s.memoryOf? n = some m) : g.memoryOf? n = some (g.target m) := by
  obtain ⟨-, -, -, -, D, g₀, gm, l, l₁, -, hhalf⟩ := hc.prepares hs
  exact hs.memoryOf?_eq hhalf.old hm (by rw [hhalf.args])

lemma shape_of_coordinate (hlinear : s.kernelMode = .linear) (hm : m ∈ s.order)
    (hcoord : (s.node m).isCoordinate) (hkm : (s.node m).cluster = some k) :
    ((g.node (g.target m)).args.filter fun a => a.kind = .shape) =
      block .shape ((s.node h).labels .shape) := by
  obtain ⟨hh, hmem, hkh, hshape, D, g₀, gm, l, l₁, hp, hhalf⟩ := hc.prepares hs
  have hshaped := hp.shaped_target hs hh hmem hkh hshape hlinear hm hcoord hkm
  have hlabels := GoesOn.lt_labels (hp.goesOn.1.trans hp.goesOn.2) hs.labelled (hs.lists.lt_size hm)
  rw [hhalf.evolves.target m hlabels id, hhalf.evolves.others _ hshaped.lt .shape (by decide),
    hshaped.shape]

lemma shape_of_not_moved (hm : m ∈ s.order)
    (hstays : ¬ (s.kernelMode = .linear ∧ (s.node m).isCoordinate)) :
    ((g.node (g.target m)).args.filter fun a => a.kind = .shape) =
      block .shape ((s.node m).labels .shape) := by
  have hlt := hs.lists.lt_size hm
  rw [GoesOn.target (hc.goesOn hs) hs.labelled hlt fun hmoved => hstays ⟨hmoved.1, hmoved.2.1⟩,
    (hc.goesOn hs).others m hlt .shape (by decide), (hs.regular m hm).blocks]

end ComesTo

lemma Spills.memory (h : Spills l kernelMode tensorMode outputs p s) (hn : n ∈ s.order)
    (haccess : (s.node n).op.kind.accesses) :
    ∃ m ∈ s.order, s.memoryOf? n = some m ∧ ((s.node m).isMemory ∨ s.SameCluster m n) := by
  obtain ⟨o, hp, -⟩ := h.pruned
  have hs := h.spilled
  obtain ⟨m, hm, hcases⟩ := hs.accessed n hn haccess
  refine ⟨m, hs.memoryListed hp n hn haccess m hm, hm, hcases.imp id ?_⟩
  rintro ⟨hnp, hmp, hsame⟩
  obtain ⟨a, ha, -, rfl⟩ := hp.exists_argument hnp hmp
  rw [SameCluster, hs.rewired.cluster _ (hp.inside n hnp a ha),
    hs.rewired.cluster _ (hp.lists.lt_size hnp)]
  exact hsame

/-- All that is looked up for the address of an access is there. -/
def Complete (g : Graph) (n : NodeId) (coordinates : List NodeId) : Prop :=
  Build.Complete ((g.node ((g.memoryOf? n).getD 0)).extent .shape).toNat
    (g.size? ((g.memoryOf? n).getD 0)) (g.sources n .index) coordinates

lemma complete_iff_of_block (hm : g.memoryOf? n = some m)
    (h : ((g.node m).args.filter fun a => a.kind = .shape) = block .shape ls) :
    g.Complete n coordinates ↔ 1 ≤ ls.length ∧ ∀ dim < ls.length,
      ((g.sources n .index).lookup (dim : Int)).isSome ∨ dim < coordinates.length := by
  obtain ⟨hrank, hsize⟩ := size?_of_block h
  rw [Complete, hm, Option.getD_some, hrank]
  exact ⟨fun hc => ⟨hc.positive, hc.index⟩, fun hc => ⟨hc.1, hsize, hc.2⟩⟩

namespace ComesTo

variable (hc : ComesTo s k h n thread coordinates g) (hs : s.Sparse s.order) (hm : m ∈ s.order)
  (hmemory : s.memoryOf? n = some m)

include hc hs hm hmemory

lemma complete_of_coordinate (hlinear : s.kernelMode = .linear) (hcoord : (s.node m).isCoordinate)
    (hkm : (s.node m).cluster = some k) :
    g.Complete n coordinates := by
  obtain ⟨-, hmem, -, hshape, -⟩ := hc.prepares hs
  have hlength := length_sources_of_block ((hs.regular h hmem).blocks .shape)
  rw [complete_iff_of_block (hc.memoryOf?_eq hs hmemory)
    (hc.shape_of_coordinate hs hlinear hm hcoord hkm), ← hlength, hc.length_coordinates hs]
  exact ⟨length_pos_iff.2 hshape, fun dim hdim => .inr hdim⟩

lemma complete_iff_covered (hstays : ¬ (s.kernelMode = .linear ∧ (s.node m).isCoordinate)) :
    g.Complete n coordinates ↔ s.Covered h n m := by
  have hlength := length_sources_of_block ((hs.regular m hm).blocks .shape)
  rw [complete_iff_of_block (hc.memoryOf?_eq hs hmemory) (hc.shape_of_not_moved hs hm hstays),
    ← hlength, hc.length_coordinates hs, hc.sources_index hs]
  simp only [lookup_map_snd, Option.isSome_map]
  rfl

end ComesTo

/-- A number in memory without dimensions is added to the coordinates of a box. -/
def scalarPlusIndex : List Step :=
  [ .act (.input .int (.sizes [])) (some "A"),
    .act (.index (.extent (.sizes [4])) 0) (some "i"),
    .act (.load "A" []) (some "x"),
    .act (.call (.folding .add) ["x", "i"]) (some "y") ]

lemma comesTo_scalarPlusIndex : ∃ p s, Spills scalarPlusIndex .multi .unchecked [4] p s ∧
    s.kernelMode ≠ .linear ∧ (∀ n ∈ [3, 6], ∃ coordinates g, ComesTo s 2 2 n none coordinates g) ∧
    (0 ∈ s.order ∧ s.memoryOf? 3 = some 0 ∧ ¬ s.Covered 2 3 0) ∧
    s.memoryOf? 6 = some 5 ∧ s.Covered 2 6 5 := by
  obtain ⟨p, s, f, hlowers, hmode, hhead, hshape, haccesses, hrest⟩ : ∃ p s f,
      Lowers scalarPlusIndex .multi .unchecked [4] p s f ∧ s.kernelMode ≠ .linear ∧
      s.head? 2 = some 2 ∧ s.sources 2 .shape ≠ [] ∧
      (∀ n ∈ [3, 6], n ∈ s.order ∧ (s.node n).op.kind.accesses ∧ (s.node n).cluster = some 2) ∧
      (0 ∈ s.order ∧ s.memoryOf? 3 = some 0 ∧ ¬ s.Covered 2 3 0) ∧
      s.memoryOf? 6 = some 5 ∧ s.Covered 2 6 5 := by decide +kernel
  refine ⟨p, s, hlowers.toSpills, hmode, fun n hn => ?_, hrest⟩
  obtain ⟨hns, haccess, hcluster⟩ := haccesses n hn
  obtain ⟨thread, coordinates, g, g', hv⟩ :=
    hlowers.sparse.visits hlowers.flatten hns haccess hcluster
    hhead hshape
  obtain rfl := (hv.comesTo.thread_eq_none_iff hlowers.sparse).2 hmode
  exact ⟨coordinates, g, hv.comesTo⟩

/-- When the address pass comes to an access, there is a coordinate for every dimension of the
kernel. What it looks up for a computed address is there if and only if the memory has a dimension,
and every dimension without an index is one of the kernel; in linear mode it looks up nothing
without an index, and a coordinate taken for memory has the dimensions of the kernel. -/
theorem complete_lookups_iff (hl : Spills l kernelMode tensorMode outputs p s)
    (hc : ComesTo s k h n thread coordinates g) :
    ∃ m, s.memoryOf? n = some m ∧ coordinates.length = (s.sources h .shape).length ∧
      ((thread = none ∨ g.sources n .index ≠ [] → g.Complete n coordinates) ↔
        s.kernelMode = .linear ∧ (s.sources n .index = [] ∨ (s.node m).isCoordinate = true) ∨
          s.Covered h n m) := by
  have hs := hl.sparse
  obtain ⟨-, -, -, -, D, g₀, gm, -, l₁, -, hhalf⟩ := hc.prepares hs
  obtain ⟨m, hm, hmemory, hcases⟩ := hl.memory hhalf.old hhalf.accesses
  refine ⟨m, hmemory, hc.length_coordinates hs, ?_⟩
  rw [hc.thread_eq_none_iff hs, hc.sources_index hs, Ne, Ne, map_eq_nil_iff]
  by_cases hmoved : s.kernelMode = .linear ∧ (s.node m).isCoordinate = true
  · -- the coordinate stands in the cluster of the access
    obtain ⟨hlinear, hcoord⟩ := hmoved
    have hsame : s.SameCluster m n := hcases.resolve_left fun hmem =>
      Node.not_isCoordinate_of_isMemory hmem hcoord
    have hcomplete := hc.complete_of_coordinate hs hm hmemory hlinear hcoord
      (hsame.trans hhalf.cluster)
    exact ⟨fun _ => .inl ⟨hlinear, .inr hcoord⟩, fun _ _ => hcomplete⟩
  · rw [hc.complete_iff_covered hs hm hmemory hmoved]
    constructor
    · intro hall
      by_cases hcall : ¬ s.kernelMode = .linear ∨ ¬ s.sources n .index = []
      · exact .inr (hall hcall)
      · obtain ⟨hlinear, hnil⟩ := not_or.1 hcall
        exact .inl ⟨not_not.1 hlinear, .inl (not_not.1 hnil)⟩
    · rintro (⟨hlinear, hnil | hcoord⟩ | hcovered) hcall
      · exact (hcall.elim (· hlinear) (· hnil)).elim
      · exact absurd ⟨hlinear, hcoord⟩ hmoved
      · exact hcovered

theorem complete_lookups_scalarPlusIndex : ∃ p s coordinates g,
    Spills scalarPlusIndex .multi .unchecked [4] p s ∧ ComesTo s 2 2 6 none coordinates g ∧
      g.Complete 6 coordinates := by
  obtain ⟨p, s, hl, -, hcomes, -, hmemory, hcovered⟩ := comesTo_scalarPlusIndex
  obtain ⟨coordinates, g, hc⟩ := hcomes 6 (by simp)
  obtain ⟨m, hm, -, hiff⟩ := complete_lookups_iff hl hc
  obtain rfl := Option.mem_unique hm hmemory
  exact ⟨p, s, coordinates, g, hl, hc, hiff.2 (.inr hcovered) (.inl rfl)⟩

/-- For memory without dimensions an address is computed all the same. -/
theorem not_forall_complete_lookups : ¬ ∀ (l : List Step) (kernelMode : KernelMode)
    (tensorMode : TensorMode) (outputs : List NodeId) (p s : Graph) (k : ClusterId) (h n : NodeId)
    (thread : Option NodeId) (coordinates : List NodeId) (g : Graph),
    Spills l kernelMode tensorMode outputs p s → ComesTo s k h n thread coordinates g →
    thread = none ∨ g.sources n .index ≠ [] → g.Complete n coordinates := by
  intro hall
  obtain ⟨p, s, hl, hmode, hcomes, ⟨hmem, hmemory, hnot⟩, -⟩ := comesTo_scalarPlusIndex
  obtain ⟨coordinates, g, hc⟩ := hcomes 3 (by simp)
  have hcomplete := hall _ _ _ _ p s 2 2 3 none coordinates g hl hc (.inl rfl)
  exact hnot ((hc.complete_iff_covered hl.sparse hmem hmemory fun hmoved =>
    hmode hmoved.1).1 hcomplete)

end Access

end Graph

end KernelFusion
