/-
One cluster of the address pass in sequence.

What is computed in front of an access takes sizes and indices, which stand in front of it, and
coordinates. Coordinates that enter stand in front of all nodes of the cluster; a coordinate node
that was there stays where it was.
-/
import KernelFusion.Proofs.Pass.Redirected
import KernelFusion.Proofs.Pass.Sequence

namespace KernelFusion

open List Build

namespace Graph

variable {g g' g₁ : Graph} {I : Graph → Prop} {z : Nat} {F : NodeId → Prop} {n m v : NodeId}
  {thread : Option NodeId} {coordinates A B : List NodeId}

/-- Nodes have entered, and what was listed is still listed in the same order. -/
structure Grows (g g' : Graph) : Prop where
  size : g.nodes.size ≤ g'.nodes.size
  lists : g.Lists g.order → g'.Lists g'.order
  listed : g.Lists g.order → g.order.Sublist g'.order
  fresh : g.Lists g.order → ∀ v ∈ g'.order, v ∈ g.order ∨ g.nodes.size ≤ v

instance : IsPreorder Graph Grows where
  refl g := ⟨Nat.le_refl _, id, fun _ => Sublist.refl _, fun _ _ hv => .inl hv⟩
  trans _ _ _ h₁ h₂ := ⟨Nat.le_trans h₁.size h₂.size, fun hl => h₂.lists (h₁.lists hl),
    fun hl => (h₁.listed hl).trans (h₂.listed (h₁.lists hl)), fun hl v hv => by
      rcases h₂.fresh (h₁.lists hl) v hv with hv | hv
      · exact h₁.fresh hl v hv
      · exact .inr (Nat.le_trans h₁.size hv)⟩

lemma Grows.of_order (hsize : g'.nodes.size = g.nodes.size) (hchain : g'.chain = g.chain)
    (hfirst : g'.first = g.first) : Grows g g' := by
  have horder : g'.order = g.order := by rw [Graph.order, Graph.order, hchain, hfirst]
  refine ⟨hsize.ge, fun hl => ?_, fun _ => horder ▸ Sublist.refl _, fun _ v hv =>
    .inl (horder ▸ hv)⟩
  rw [horder]
  exact hl.congr hchain hfirst hsize

lemma grows_of_fronts (hl : g.Lists g.order) (horder : g.order = A ++ n :: B)
    (h : Fronts I n B (g.enter .before n true) g₁) :
    Grows g g₁ ∧ ∀ v, g.nodes.size ≤ v → v < g₁.nodes.size → Precedes g₁.order v n := by
  rw [horder] at hl
  obtain ⟨A', hs, hA'⟩ := h.enters (hl.enter_before true)
  have horder' : g₁.order = A ++ A' ++ n :: B := hs.toLists.order
  refine ⟨⟨h.evolves.size, fun _ => horder' ▸ hs.toLists, fun _ => ?_, fun _ v hv => ?_⟩,
    fun v hge hlt => ?_⟩
  · rw [horder, horder']
    exact (sublist_append_left A A').append (Sublist.refl _)
  · rw [horder', append_assoc, mem_append, mem_append] at hv
    rw [horder, mem_append]
    rcases hv with hv | hv | hv
    · exact .inl (.inl hv)
    · exact .inr ((hA' v).1 hv).1
    · exact .inl (.inr hv)
  · rw [horder']
    exact Precedes.of_mem (mem_append_right _ ((hA' v).2 ⟨hge, hlt⟩)) mem_cons_self

/-! ### One access -/

/-- What flattening records for an access stands before it. -/
lemma grows_flattenAccess (hl : g.Lists g.order) (hn : n ∈ g.order)
    (hrun : flattenAccess thread coordinates n g = .ok ⟨⟩ g') :
    Grows g g' ∧ ∀ v, g.nodes.size ≤ v → v < g'.nodes.size → Precedes g'.order v n := by
  rcases flattenAccess_eq_ok hrun with ⟨t, -, -, rfl⟩ | ⟨-, flat, g₁, hflat, rfl⟩
  · have hsize : (((g.enter .before n true).addArgument n t .index 0).leave g).nodes.size =
      g.nodes.size :=
      size_nodes_modifyNode
    refine ⟨Grows.of_order hsize rfl rfl, fun v hge hlt => ?_⟩
    rw [hsize] at hlt
    exact absurd hlt (Nat.not_lt.2 hge)
  · obtain ⟨A, B, horder⟩ := append_of_mem hn
    obtain ⟨hfronts, -⟩ := (recorder_fronts.keeps_flatIndex _ _ _ _ _).meets.of_ok hflat
    obtain ⟨hgrows, hfront⟩ := grows_of_fronts hl horder hfronts
    have hsize : (((g₁.removeArguments n .index).addArgument n flat .index 0).leave g).nodes.size =
        g₁.nodes.size := size_nodes_modifyNode.trans size_nodes_modifyNode
    refine ⟨trans_of _ hgrows (Grows.of_order hsize rfl rfl), fun v hge hlt => ?_⟩
    rw [hsize] at hlt
    exact hfront v hge hlt

/-- All that is looked up for an address is there, and coordinates that are taken stand in front. -/
structure Supplied (g : Graph) (n m : NodeId) (coordinates : List NodeId) : Prop where
  memory : g.memoryOf? n = some m
  size : ∀ dim < ((g.node m).extent .shape).toNat, (g.size? m dim).isSome
  first : g.tensorMode = .clamp → (g.size? m 0).isSome
  index : ∀ dim < max ((g.node m).extent .shape).toNat 1, (g.sources
  n .index).lookup (dim : Int) = none →
    ∃ c, coordinates[dim]? = some c ∧ Precedes g.order c n

lemma Sequential.inFront (h : Sequential z F g) (horder : g.order = A ++ n :: B)
    (hprec : Precedes g.order v n) : InFront z F n B v (g.enter .before n true) := by
  have hl : g.Lists (A ++ n :: B) := horder ▸ h.toLists
  refine ⟨h.enter n true, A, hl.enter_before true, ?_⟩
  rw [horder] at hprec
  exact hprec.mem_of_right hl.chain.nodup

/-- An access supplied with earlier operands ends up after its index. -/
lemma Sequential.flattenAccess (h : Sequential z F g) (hn : n ∈ g.order)
    (hthread : ∀ t, thread = some t → Precedes g.order t n)
    (hsupplied : thread = none ∨ g.sources n .index ≠ [] → ∃ m, Supplied g n m coordinates)
    (hrun : flattenAccess thread coordinates n g = .ok ⟨⟩ g') : Sequential z F g' := by
  rcases flattenAccess_eq_ok hrun with ⟨t, ht, -, rfl⟩ | ⟨hcalls, flat, g₁, hflat, rfl⟩
  · exact ((h.enter n true).addArgument (hthread t ht) .index 0).leave g
  · obtain ⟨m, hs⟩ := hsupplied hcalls
    obtain ⟨A, B, horder⟩ := append_of_mem hn
    rw [hs.memory, Option.getD_some] at hflat
    have hnodup := h.chain.nodup
    -- sizes come in front of the memory, and the memory in front of the access
    have hmemory : Precedes g.order m n := by
      obtain ⟨a, ha, -, rfl⟩ := exists_of_memoryOf? hs.memory
      exact (h.source hn ha).2
    have hsize : ∀ {dim}, (g.size? m dim).isSome →
        InFront z F n B ((g.size? m dim).getD 0) (g.enter .before n true) := fun hdim => by
      obtain ⟨v, hv⟩ := Option.isSome_iff_exists.1 hdim
      obtain ⟨a, ha, rfl⟩ := exists_of_size? hv
      rw [hv]
      exact h.inFront horder ((h.source hmemory.left_mem ha).2.trans hmemory hnodup)
    have hindex : ∀ dim < max ((g.node m).extent .shape).toNat 1, InFront z F n B
        (indexNode (g.sources n .index) coordinates dim) (g.enter .before n true) := by
      intro dim hdim
      rw [indexNode]
      cases hlookup : (g.sources n .index).lookup (dim : Int) with
      | some v =>
        obtain ⟨a, ha, rfl⟩ := exists_of_mem_sources (mem_of_lookup hlookup)
        exact h.inFront horder (h.source hn ha).2
      | none =>
        obtain ⟨c, hc, hprec⟩ := hs.index dim hdim hlookup
        rw [Option.getD_none, getD_eq_getElem?_getD, hc]
        exact h.inFront horder hprec
    obtain ⟨-, hfront⟩ := (reckons_inFront.ends_flatIndex (d := fun _ => 0) (x := fun _ => 0)
      (.inr (.inr (refl_of _))) (fun dim hdim => hsize (hs.size dim hdim))
      (fun hclamp => hsize (hs.first hclamp)) hindex).meets.of_ok hflat
    exact ((hfront.1.removeArguments n .index).addArgument hfront.precedes .index 0).leave g

/-! ### Coordinates of a cluster -/

section Coordinates

variable {s : Graph} {done : ClusterId → Prop} {gone E : NodeId → Prop} {l cs ns : List NodeId}
  {h c : NodeId} {k : ClusterId} {i rank : Nat} {found : List (NodeId × Int)}

/-- The node stands in front of all nodes that the cluster has in `s`. -/
structure Leads (s : Graph) (k : ClusterId) (c : NodeId) (g : Graph) : Prop where
  lists : g.Lists g.order
  bound : s.nodes.size ≤ g.nodes.size
  front : ∀ n ∈ g.order, n < s.nodes.size → (s.node n).cluster = some k → Precedes g.order c n

lemma Leads.grows (h : Leads s k c g) (hg : Grows g g') : Leads s k c g' := by
  refine ⟨hg.lists h.lists, Nat.le_trans h.bound hg.size, fun n hn hlt hk => ?_⟩
  have hn := (hg.fresh h.lists n hn).resolve_right (Nat.not_le.2 (Nat.lt_of_lt_of_le hlt h.bound))
  exact (h.front n hn hlt hk).mono (hg.listed h.lists)

lemma Flattening.leads (hg : Flattening s done gone g l) (hh : g.head? k = some h)
    (hgrows : Grows g g') (hprec : Precedes g'.order c h) : Leads s k c g' := by
  have horder := hg.lists.order
  have hl : g.Lists g.order := horder ▸ hg.lists
  have hsize := hg.outline.size
  refine ⟨hgrows.lists hl, Nat.le_trans hsize hgrows.size, fun n hn hlt hk => ?_⟩
  have hn := (hgrows.fresh hl n hn).resolve_right (Nat.not_le.2 (Nat.lt_of_lt_of_le hlt hsize))
  obtain ⟨h', hh', -, -, hle⟩ :=
    hg.spans.head (horder ▸ hn) hlt ((hg.outline.cluster n hlt).trans hk)
  obtain rfl := Option.mem_unique hh hh'
  rcases hle with rfl | hle
  · exact hprec
  · rw [← horder] at hle
    exact hprec.trans (hle.mono (hgrows.listed hl)) (hgrows.lists hl).chain.nodup

/-- The pass goes on, nodes enter, and the program stays in sequence. -/
structure Continues (s : Graph) (done : ClusterId → Prop) (gone F : NodeId → Prop) (g g' : Graph) :
    Prop where
  advances : Advances s done gone nothing nothing g g'
  grows : Grows g g'
  sequential : Sequential s.nodes.size F g → Sequential s.nodes.size F g'

instance : IsPreorder Graph (Continues s done gone F) where
  refl g := ⟨refl_of _ g, refl_of _ g, id⟩
  trans _ _ _ h₁ h₂ := ⟨trans_of _ h₁.advances h₂.advances, trans_of _ h₁.grows h₂.grows,
    fun h => h₂.sequential (h₁.sequential h)⟩

lemma Flattening.continues_coordinateAtHead (hg : Flattening s done gone g l)
    (hmode : s.kernelMode ≠ .linear) (hmem : h ∈ l) (hold : h < s.nodes.size)
    (hk : (g.node h).cluster = some k) (hdone : done k) (hrun : coordinateAtHead k i g = .ok c g') :
    Continues s done gone F g g' ∧ Leads s k c g' := by
  obtain ⟨hlists, hevolves, -⟩ := hg.addCoordinate hmode hmem hold hk hdone hrun
  obtain ⟨head, hh, hmem, -⟩ := hg.spans.head hmem hold hk
  obtain ⟨g₁, hact, rfl⟩ := coordinateAtHead_eq_ok hh hrun
  have horder := hg.lists.order
  have hl : g.Lists g.order := horder ▸ hg.lists
  rw [← horder] at hmem
  obtain ⟨A, B, hsplit⟩ := append_of_mem hmem
  obtain ⟨hfronts, hge, hlt⟩ := (keeps_fronts_sourceWith (n := head) (B := B)
    ((g.node head).arguments .shape) .int [word i]).meets.of_ok hact
  obtain ⟨hgrows, hfront⟩ := grows_of_fronts hl hsplit hfronts
  have hleft : Grows g₁ (g₁.leave g) := Grows.of_order rfl rfl rfl
  have hgrows : Grows g (g₁.leave g) := trans_of _ hgrows hleft
  refine ⟨⟨⟨hevolves, fun hl' => ?_⟩, hgrows, fun hseq => ?_⟩,
    hg.leads hh hgrows (hfront c hge hlt)⟩
  · rwa [← hl'.lists.order, horder]
  · -- the sizes of the head stand in front of it
    have hs := (hsplit ▸ hl : g.Lists (A ++ head :: B)).enter_before true
    obtain ⟨-, hseq', -⟩ := (keeps_inFront_sourceWith (hseq.enter head true) hs
      (fun a ha => (hseq.enter head true).source_mem hs mem_cons_self (Node.mem_arguments.1 ha).1)
      .int [word i]).meets.of_ok hact
    exact hseq'.leave g

/-- The last coordinate node of one dimension in a list. -/
structure LastCoordinate (g : Graph) (ns : List NodeId) (i : Int) (c : NodeId) : Prop where
  mem : c ∈ ns
  coordinate : (g.node c).isCoordinate
  dim : signed (g.node c).word = i
  last : ∀ m ∈ ns, (g.node m).isCoordinate → signed (g.node m).word = i →
    m = c ∨ Precedes ns m c

/-- Of several coordinates of one dimension the last is found. -/
lemma lastCoordinate_of_lookup {i : Int}
    (hc : ((coordinateNodes g ns).map Prod.swap).reverse.lookup i = some c) :
    LastCoordinate g ns i c := by
  obtain ⟨after, before, hsplit, hafter⟩ := lookup_eq_some_iff.1 hc
  have hmap : (ns.filter fun n => (g.node n).isCoordinate).map
      (fun n => (signed (g.node n).word, n)) = before.reverse ++ (i, c) :: after.reverse := by
    have hpairs := reverse_eq_iff.1 hsplit
    rw [coordinateNodes, map_map, reverse_append, reverse_cons, append_assoc] at hpairs
    exact hpairs
  obtain ⟨front, rest, hfilter, hfront, hrest⟩ := map_eq_append_iff.1 hmap
  obtain ⟨x, back, rfl, hx, hback⟩ := map_eq_cons_iff.1 hrest
  obtain ⟨hdim, rfl⟩ := Prod.mk.inj hx
  have hmem : x ∈ ns.filter fun n => (g.node n).isCoordinate := by rw [hfilter]; simp
  obtain ⟨hmem, hcoord⟩ := mem_filter.1 hmem
  refine ⟨hmem, hcoord, hdim, fun m hm hcoordm hdimm => ?_⟩
  have hmf : m ∈ front ++ x :: back := hfilter ▸ mem_filter.2 ⟨hm, hcoordm⟩
  have hsub : (front ++ x :: back).Sublist ns := hfilter ▸ filter_sublist
  rcases mem_append.1 hmf with hmf | hmf
  · exact .inr ((Precedes.of_mem hmf mem_cons_self).mono hsub)
  · rcases mem_cons.1 hmf with rfl | hmf
    · exact .inl rfl
    · -- behind it there is no coordinate of the dimension
      have hpair : (signed (g.node m).word, m) ∈ after := by
        rw [← mem_reverse, ← hback]
        exact mem_map.2 ⟨m, hmf, rfl⟩
      exact absurd hdimm.symm (by simpa using hafter _ hpair)

lemma ne_of_lookup_eq_none {i : Int}
    (hc : ((coordinateNodes g ns).map Prod.swap).reverse.lookup i = none) (hm : m ∈ ns)
    (hcoord : (g.node m).isCoordinate) : signed (g.node m).word ≠ i := by
  have hpair : (signed (g.node m).word, m) ∈ ((coordinateNodes g ns).map Prod.swap).reverse := by
    rw [mem_reverse, mem_map]
    exact ⟨(m, signed (g.node m).word), mem_coordinateNodes.2 ⟨hm, hcoord, rfl⟩, rfl⟩
  have hne := lookup_eq_none_iff.1 hc _ hpair
  exact fun heq => by simp [heq] at hne

/-- The node for a coordinate of a cluster: the last one that was there in `g`, or one that stands
in front of the cluster in `g'` because there was none. -/
def Chosen (s : Graph) (k : ClusterId) (g : Graph) (i : Nat) (c : NodeId) (g' : Graph) : Prop :=
  LastCoordinate g (g.run k) i c ∨
    Leads s k c g' ∧ ∀ m ∈ g.run k, (g.node m).isCoordinate → signed (g.node m).word ≠ i

/-- Each coordinate is the last old one or leads the cluster. -/
lemma Flattening.continues_multiCoordinates (hg : Flattening s done gone g l)
    (hmode : s.kernelMode ≠ .linear) (hmem : h ∈ l) (hold : h < s.nodes.size)
    (hk : (g.node h).cluster = some k) (hdone : done k)
    (hrun : Build.multiCoordinates k rank g = .ok cs g') : Continues s done gone F g g' ∧
      ∀ (i : Nat) c, cs[i]? = some c → Chosen s k g i c g' := by
  obtain ⟨present, hp, hrun⟩ := multiCoordinates_eq_ok hrun
  obtain ⟨-, rfl⟩ := presentCoordinates_eq_ok hp
  suffices hall : Continues s done gone F g g' ∧
      Forall₂ (fun i c => Chosen s k g i c g') (List.range rank) cs by
    refine ⟨hall.1, fun i c hc => ?_⟩
    obtain ⟨j, hj, hchosen⟩ := exists_of_forall₂ hall.2.flip hc
    obtain ⟨hi, rfl⟩ := List.getElem?_eq_some_iff.1 hj
    rwa [getElem_range] at hchosen
  refine of_mapM_eq_ok (R := Continues s done gone F) (Q := Chosen s k g) hrun
    (fun hc hg => hc.imp_right fun hc => ⟨hc.1.grows hg.grows, hc.2⟩)
    fun i _ c g₁ g₂ hg₁ hstep => ?_
  rw [Build.coordinateFor] at hstep
  cases hl : ((Build.coordinateNodes g (g.run k)).map Prod.swap).reverse.lookup (i : Int) with
  | some n =>
    rw [hl] at hstep
    cases hstep
    exact ⟨refl_of _ g₁, .inl (lastCoordinate_of_lookup hl)⟩
  | none =>
    rw [hl] at hstep
    obtain ⟨l₁, hsub, hl₁⟩ := hg₁.advances.lists hg
    have hk₁ := (hg₁.advances.evolves.cluster h (hg.lists.lt_size hmem)).trans hk
    obtain ⟨hcontinues, hleads⟩ := hl₁.continues_coordinateAtHead hmode (hsub hmem)
      hold hk₁ hdone hstep
    exact ⟨hcontinues, .inr ⟨hleads, fun m hm hcoord => ne_of_lookup_eq_none hl hm hcoord⟩⟩

/-! ### Coordinates from the thread number -/

variable {t : NodeId} {g₀ g₂ : Graph} {D : ClusterId → Prop}

lemma Replaced.target_mem {c : NodeId × Int} (h : Replaced found cs g g')
    (hc : c ∈ found) : g'.target (g.label c.1) ∈ cs := by
  have hrange := h.range c hc
  have hi : c.2.toNat < cs.length := by omega
  rw [h.moved c hc, getD_eq_getElem?_getD, getElem?_eq_getElem hi]
  exact getElem_mem hi

lemma Replaced.target_not_mem {j : LabelId} (h : Replaced found cs g g') (hg : Sequential z F g)
    (hcs : ∀ c ∈ cs, z ≤ c) (hfound : ∀ n ∈ found.map Prod.fst, n ∈ g.order ∧ n < z ∧ ¬ F n)
    (hj : j < g.labels.size) :
    g'.target j ∉ found.map Prod.fst := by
  intro hin
  obtain ⟨hmem, hold, hstays⟩ := hfound _ hin
  by_cases hmoved : ∃ c ∈ found, g.label c.1 = j
  · obtain ⟨c, hc, rfl⟩ := hmoved
    exact absurd hold (Nat.not_lt.2 (hcs _ (h.target_mem hc)))
  · -- its own label would be the label of a replaced node
    rw [h.others j hj fun c hc hlabel => hmoved ⟨c, hc, hlabel⟩] at hin hmem hold hstays
    have heq := (hg.owned j hj hold).resolve_right hstays
    obtain ⟨c, hc, hfirst⟩ := mem_map.1 hin
    exact hmoved ⟨c, hc, by rw [hfirst, hg.label_eq hmem hold hstays, heq]⟩

lemma Sequential.record (hg : Sequential z F g) (hmem : h ∈ g.order)
    (hthread : threadIndex ((g.node h).arguments .shape) (g.enter .before h true) = .ok t g₀)
    (hrun : coordinatesOf t ((g.sources h .shape).map Prod.snd) g₀ = .ok cs g₁) :
    Sequential z F g₁ ∧ Grows g g₁ ∧ ∀ c ∈ t :: cs, Precedes g₁.order c h := by
  obtain ⟨A, B, horder⟩ := append_of_mem hmem
  have hs := (horder ▸ hg.toLists : g.Lists (A ++ h :: B)).enter_before true
  obtain ⟨hfronts₀, ht⟩ := (keeps_inFront_source (hg.enter h true) hs (fun a ha =>
    (hg.enter h true).source_mem hs mem_cons_self (Node.mem_arguments.1 ha).1) .int).meets.of_ok
      hthread
  have hsizes : ∀ v ∈ (g.sources h .shape).map Prod.snd, InFront z F h B v g₀ := by
    intro v hv
    obtain ⟨⟨i, v⟩, hmem', rfl⟩ := mem_map.1 hv
    obtain ⟨a, ha, rfl⟩ := exists_of_mem_sources hmem'
    exact (hg.inFront horder (hg.source hmem ha).2).fronts hfronts₀
  -- the sizes are not looked at: any numbers will do for them
  have hzeros : BearAll (fun v _ g => InFront z F h B v g)
      ((g.sources h .shape).map Prod.snd) (((g.sources h .shape).map Prod.snd).map fun _ => 0) g₀ :=
    forall₂_map_right_iff.2 (forall₂_same.2 hsizes)
  obtain ⟨hfronts₁, hcs⟩ := (reckons_inFront.ends_coordinatesOf (t := 0) trivial ht
    hzeros).meets.of_ok hrun
  have hfronts := trans_of _ hfronts₀ hfronts₁
  refine ⟨hfronts.retains (hg.enter h true), (grows_of_fronts hg.toLists horder hfronts).1, ?_⟩
  refine forall_mem_cons.2 ⟨(ht.fronts hfronts₁).precedes, fun c hc => ?_⟩
  obtain ⟨i, hi⟩ := mem_iff_getElem?.1 hc
  obtain ⟨x, -, hx⟩ := exists_of_forall₂ hcs hi
  exact InFront.precedes hx

variable (hg : Flattening s done gone g l) (hs : s.Lists s.order) (hlinear : s.kernelMode = .linear)

include hg hs hlinear

lemma Flattening.sequential_replace (hdone : done k) (hlive : ∃ h, g.head? k = some h ∧
    h ∈ l) (hD : ¬ D k)
    (hseq : Sequential s.nodes.size (MovedIn s D) g)
    (hcs : ∀ c ∈ cs, s.nodes.size ≤ c ∧ Leads s k c g)
    (hrun : replaceCoordinates cs (coordinateNodes g (g.run k)) g = .ok ⟨⟩ g₂)
    (hremove : g' = ((g.run k).filter fun n => (g.node n).isCoordinate).foldl Graph.remove g₂) :
    Sequential s.nodes.size (MovedIn s fun j => D j ∨ j = k) g' ∧
      g'.order = g.order.filter fun m => m ∉ (g.run k).filter fun n => (g.node n).isCoordinate := by
  have hfound := fun c => hg.mem_coordinates_iff (n := c) hs hlinear hdone
  have hout : ((g.run k).filter fun n => (g.node n).isCoordinate).Sublist g.order := by
    obtain ⟨h, hh, hmem⟩ := hlive
    rw [hg.lists.order]
    exact filter_sublist.trans (run_sublist hg.lists hh hmem)
  have hfst := map_fst_coordinateNodes g (g.run k)
  generalize (g.run k).filter (fun n => (g.node n).isCoordinate) = out at *
  have hmem : ∀ c ∈ coordinateNodes g (g.run k), c.1 ∈ out := fun c hc =>
    hfst ▸ mem_map_of_mem hc
  have hmoved : ∀ c ∈ out, MovedIn s (fun j => D j ∨ j = k) c := fun c hc =>
    ⟨hlinear, ((hfound c).1 hc).2.2.1, k, .inr rfl, ((hfound c).1 hc).2.2.2⟩
  have hseq₂ : Sequential s.nodes.size (MovedIn s fun j => D j ∨ j = k) g₂ := by
    refine (hseq.mono fun n hn => hn.mono fun j => .inl).replaceCoordinates
      (fun c hc => (hcs c hc).1) (fun c hc => ⟨hmoved _ (hmem c hc), fun v hv => ?_⟩) hrun
    have hc := hmem c hc
    exact (hcs v hv).2.front c.1 (hout.subset hc) ((hfound _).1 hc).2.1 ((hfound _).1 hc).2.2.2
  obtain ⟨hreplaced, hevolves, hflat⟩ := Replaced.of_run (E := nothing)
    (hfst ▸ hseq.chain.nodup.sublist hout) (fun c hc => hmoved _ (hmem c hc))
    (fun c hc => hseq.named (hout.subset (hmem c hc))) hrun
  have horder : g₂.order = g.order := (hflat l hg).lists.order.trans hg.lists.order.symm
  rw [← horder] at hout ⊢
  subst hremove
  refine hseq₂.remove_all hout fun m hm a ha hin => ?_
  rw [horder] at hm
  rw [hevolves.args m (hseq.lt_size hm) id] at ha
  rw [← hfst] at hin hfound
  refine hreplaced.target_not_mem hseq (fun c hc => (hcs c hc).1) (fun n hn => ?_)
    (hseq.inside m hm a ha) hin
  obtain ⟨hl, hold, -, hk⟩ := (hfound n).1 hn
  exact ⟨hg.lists.order.symm ▸ hl, hold, not_movedIn hD hk⟩

/-- Linear coordinates stand at the head, so before all users. -/
lemma Flattening.sequential_linearCoordinates (hh : g.head? k = some h) (hmem : h ∈ l)
    (hold : h < s.nodes.size) (hk : (g.node h).cluster = some k) (hdone : done k) (hD : ¬ D k)
    (hseq : Sequential s.nodes.size (MovedIn s D) g)
    (hrun : Build.linearCoordinates k h ((g.sources h .shape).map Prod.snd) g = .ok (t, cs) g') :
    Sequential s.nodes.size (MovedIn s fun j => D j ∨ j = k) g' ∧ ∀ c ∈ t :: cs,
    Leads s k c g' := by
  obtain ⟨g₀, g₁, g₂, hthread, hcoordinates, hreplace, hremove⟩ := linearCoordinates_eq_ok hrun
  obtain ⟨hseq₁, hgrows, hprec⟩ := hseq.record (hg.lists.order.symm ▸ hmem) hthread hcoordinates
  obtain ⟨l₁, hsub, hg₁, hrecorded⟩ := hg.recordCoordinates hmem hk hdone hthread hcoordinates
  have hleft : Grows g₁ (g₁.leave g) := Grows.of_order rfl rfl rfl
  have hleads : ∀ c ∈ t :: cs, Leads s k c (g₁.leave g) := fun c hc =>
    hg.leads hh (trans_of _ hgrows hleft) (hprec c hc)
  -- the thread number and the coordinates are new nodes
  have ht := ((keeps_fresh_threadIndex (s := s) (g := g.enter .before h true) hg.outline.size
    _).meets.of_ok hthread).2
  obtain ⟨-, -, hfresh⟩ := (inherited_isFresh.keeps_coordinatesOf ht).meets.of_ok hcoordinates
  have hnew : ∀ c ∈ t :: cs, s.nodes.size ≤ c :=
    forall_mem_cons.2 ⟨ht.grown, fun c hc => (hfresh c hc).grown⟩
  have hg₁ := hg₁.leave g
  obtain ⟨h', hh', hmem', -⟩ := hg₁.spans.head (hsub hmem) hold
    ((hrecorded.cluster h (hg.lists.lt_size hmem)).trans hk)
  obtain ⟨hseq', horder⟩ := hg₁.sequential_replace hs hlinear hdone ⟨h', hh', hmem'⟩ hD
    (hseq₁.leave g) (fun c hc => ⟨hnew c (mem_cons_of_mem _ hc), hleads c (mem_cons_of_mem _ hc)⟩)
    hreplace hremove
  refine ⟨hseq', fun c hc => ⟨hseq'.toLists, hseq'.bound, fun n hn hlt hkn => ?_⟩⟩
  rw [horder] at hn ⊢
  obtain ⟨hn, hkept⟩ := mem_filter.1 hn
  refine ((hleads c hc).front n hn hlt hkn).filter ?_ hkept
  rw [decide_eq_true_eq, hg₁.mem_coordinates_iff hs hlinear hdone]
  exact fun hold => absurd hold.2.1 (Nat.not_lt.2 (hnew c hc))

end Coordinates

/-! ### The turn of a cluster -/

section Turn

variable {s gm f : Graph} {gone : NodeId → Prop} {D : ClusterId → Prop} {l : List NodeId}
  {h c : NodeId} {k : ClusterId} {i : Nat}

section

variable (hg : Reached s D gone g) (hl : Flattening s D gone g l) (hs : s.Sparse s.order)

include hg hl hs

lemma Reached.continues_provides (hmode : s.kernelMode ≠ .linear) (hk : ¬ D k)
    (hh : g.head? k = some h) (hmem : h ∈ l) (hkh : (g.node h).cluster = some k)
    (hp : Provides k h g coordinates gm thread) :
    thread = none ∧ Continues s (fun j => D j ∨ j = k) gone F g gm ∧
      ∀ (i : Nat) c, coordinates[i]? = some c → Chosen s k g i c gm := by
  cases hp with
  | linear hlinear _ =>
    rw [hg.evolves.mode] at hlinear
    exact absurd hlinear hmode
  | multi _ hrun =>
    exact ⟨rfl, (hl.touch hh hmem).continues_multiCoordinates hmode hmem
      (hl.untouched hs.lists hk hmem hkh).2 hkh (.inr rfl) hrun⟩

/-- In either mode what a cluster is provided with keeps the order. -/
lemma Reached.sequential_provides (hk : ¬ D k) (hh : g.head? k = some h) (hmem : h ∈ l)
    (hkh : (g.node h).cluster = some k) (hseq : Sequential s.nodes.size (MovedIn s D) g)
    (hp : Provides k h g coordinates gm thread) :
    Sequential s.nodes.size (MovedIn s fun j => D j ∨ j = k) gm ∧
      (∀ t, thread = some t → Leads s k t gm) ∧ ∀ (i : Nat) c, coordinates[i]? = some c →
        Leads s k c gm ∨ s.kernelMode ≠ .linear ∧ LastCoordinate g (g.run k) i c := by
  by_cases hlinear : s.kernelMode = .linear
  · cases hp with
    | linear _ hrun =>
      obtain ⟨hseq', hleads⟩ :=
        (hl.touch hh hmem).sequential_linearCoordinates hs.lists hlinear hh hmem
        (hl.untouched hs.lists hk hmem hkh).2 hkh (.inr rfl) hk hseq hrun
      refine ⟨hseq', ?_, fun i c hc => .inl ?_⟩
      · rintro _ ⟨rfl⟩
        exact hleads _ mem_cons_self
      · exact hleads c (mem_cons_of_mem _ (mem_of_getElem? hc))
    | multi hmode _ =>
      rw [hg.evolves.mode] at hmode
      exact absurd hlinear hmode
  · obtain ⟨rfl, hcontinues, hchosen⟩ := hg.continues_provides (F := MovedIn s D)
      hl hs hlinear hk hh
      hmem hkh hp
    refine ⟨(hcontinues.sequential hseq).mono fun n hn => hn.mono fun j => .inl, nofun,
      fun i c hc => ?_⟩
    rcases hchosen i c hc with hlast | ⟨hleads, -⟩
    · exact .inr ⟨hlinear, hlast⟩
    · exact .inl hleads

lemma Reached.lastCoordinate (hgrows : Grows s g) (hk : ¬ D k) (hh : g.head? k = some h)
    (hmem : h ∈ l) (hlast : LastCoordinate g (g.run k) i c) :
    LastCoordinate s (s.order.filter fun v => (s.node v).cluster = some k) i c := by
  have hlt : ∀ {v}, v ∈ s.order → v < s.nodes.size := hs.lists.lt_size
  have hcoord := fun v (hv : v ∈ s.order) => hg.evolves.isCoordinate (hlt hv)
  have hword : ∀ v ∈ s.order, (g.node v).word = (s.node v).word := fun v hv => by
    rw [Node.word, Node.word, hg.evolves.data v (hlt hv)]
  obtain ⟨hcl, hkc⟩ := (hl.touch hh hmem).of_mem_run (.inr rfl) hlast.mem
  obtain ⟨hcs, -⟩ := hl.untouched hs.lists hk hcl hkc
  rw [hg.evolves.cluster c (hlt hcs)] at hkc
  refine ⟨by simpa using ⟨hcs, hkc⟩, hcoord c hcs ▸ hlast.coordinate, hword c hcs ▸ hlast.dim,
    fun m hm hcoordm hdim => ?_⟩
  obtain ⟨hms, hkm⟩ : m ∈ s.order ∧ (s.node m).cluster = some k := by simpa using hm
  have hml := hl.mem_of_untouched hk hms hkm
  have hrun := hl.spans.mem_run hl.lists hml (hlt hms) ((hg.evolves.cluster m (hlt hms)).trans hkm)
  refine (hlast.last m hrun (hcoord m hms ▸ hcoordm) (hword m hms ▸ hdim)).imp_right fun hprec => ?_
  have hprec := hprec.mono (run_sublist hl.lists hh hmem)
  rw [← hl.lists.order] at hprec
  exact (hprec.of_sublist (hgrows.listed hs.lists)
    (hgrows.lists hs.lists).chain.nodup hms hcs).filter
    (by simpa using hkm) (by simpa using hkc)

end

lemma grows_accesses {ns : List NodeId} (hl : g.Lists g.order) (hns : ∀ v ∈ ns, v ∈ g.order)
    (hrun : ns.forM (flattenAccess thread coordinates) g = .ok ⟨⟩ g') : Grows g g' :=
  rel_of_forM_eq_ok hrun fun v hv _ _ hg₁ hstep =>
    (grows_flattenAccess (hg₁.lists hl) ((hg₁.listed hl).subset (hns v hv)) hstep).1

lemma Reached.grows_flattenCluster (hg : Reached s D gone g) (hs : s.Sparse s.order)
    (hmode : s.kernelMode ≠ .linear) (hk : ¬ D k) (hn : n ∈ s.order)
    (hkn : (s.node n).cluster = some k) (hrun : Build.flattenCluster k g = .ok ⟨⟩ g') :
    Grows g g' := by
  obtain ⟨l, hl⟩ := hg.flattening
  obtain ⟨h, -, -, -, hh, hmem, hkh⟩ := hl.head_of_untouched hs hk hn hkn
  by_cases hshape : g.sources h .shape = []
  · rw [flattenCluster_idle fun h' hh' => Option.mem_unique hh hh' ▸ hshape] at hrun
    cases hrun
    exact refl_of _ g
  · obtain ⟨thread, coordinates, gm, hp, haccesses⟩ := flattenCluster_ok hh hshape hrun
    obtain ⟨-, hcontinues, -⟩ := hg.continues_provides (F := nothing) hl hs hmode hk hh hmem hkh hp
    obtain ⟨lm, -, hlm⟩ := hcontinues.advances.lists (hl.touch hh hmem)
    have horder := hlm.lists.order
    refine trans_of _ hcontinues.grows
      (grows_accesses (horder ▸ hlm.lists) (fun v hv => ?_) haccesses)
    exact horder ▸ (hlm.of_mem_run (.inr rfl) (mem_filter.1 hv).1).1

lemma Sparse.grows_forM {A B C : List ClusterId} (hs : s.Sparse s.order)
    (hmode : s.kernelMode ≠ .linear) (hsplit : s.clusterOrder = A ++ B ++ C)
    (hbefore : A.forM Build.flattenCluster s = .ok ⟨⟩ g)
    (hrun : B.forM Build.flattenCluster g = .ok ⟨⟩ g') :
    Grows g g' := by
  induction B generalizing A g with
  | nil =>
    cases hrun
    exact refl_of _ _
  | cons k B ih =>
    obtain ⟨⟨⟩, g₁, hfirst, hrun⟩ := bind_eq_ok.1 hrun
    rw [append_assoc, cons_append] at hsplit
    obtain ⟨hg, hk, n, hn, hkn⟩ := hs.reached_of_split hsplit hbefore
    exact trans_of _ (hg.grows_flattenCluster hs hmode hk hn hkn hfirst)
      (ih (by simpa using hsplit) (forM_concat_of_ok hbefore hfirst) hrun)

end Turn

end Graph

end KernelFusion
