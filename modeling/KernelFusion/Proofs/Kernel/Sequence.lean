/-
Definitions before uses when addresses have been computed.

In linear mode coordinates are computed in front of the kernel. In the other modes a coordinate
node that is in the kernel already serves for all of its accesses, also for those in front of it.
-/
import KernelFusion.Proofs.Kernel.Definitions
import KernelFusion.Proofs.Kernel.Lookups
import KernelFusion.Proofs.Pass.Operands
import KernelFusion.Proofs.Pass.Succession

namespace KernelFusion

open List

namespace Graph

variable {l : List Step} {kernelMode : KernelMode} {tensorMode : TensorMode} {outputs : List NodeId}
  {p s f g g' gm : Graph} {k : ClusterId} {h n m c : NodeId} {thread : Option NodeId}
  {coordinates : List NodeId} {D : ClusterId → Prop}

/-- A condition on the accesses of kernels: on the cluster, its head, the access and its memory. -/
def ForAccesses (s : Graph) (P : ClusterId → NodeId → NodeId → NodeId → Prop) : Prop :=
  ∀ n ∈ s.order, (s.node n).op.kind.accesses → ∀ k ∈ (s.node n).cluster, ∀ h ∈ s.head? k,
    s.sources h .shape ≠ [] → ∀ m ∈ s.memoryOf? n, P k h n m

instance {P : ClusterId → NodeId → NodeId → NodeId → Prop} [∀ k h n m, Decidable (P k h n m)] :
    Decidable (s.ForAccesses P) :=
  inferInstanceAs (Decidable (∀ n ∈ s.order, _ → ∀ k ∈ (s.node n).cluster, ∀ h ∈ s.head? k, _))

/-- All that is looked up for the address of an access is there. The first dimension counts even if
there is none, but its size matters only in clamp mode. In linear mode nothing is looked up without
an index, and a coordinate taken for memory has the dimensions of the kernel. -/
def Served (s : Graph) (h n m : NodeId) : Prop :=
  s.kernelMode = .linear ∧ (s.sources n .index = [] ∨ (s.node m).isCoordinate) ∨
    (s.tensorMode = .clamp → 1 ≤ (s.sources m .shape).length) ∧
      ∀ dim < max (s.sources m .shape).length 1,
        ((s.sources n .index).lookup (dim : Int)).isSome ∨ dim < (s.sources h .shape).length

instance : Decidable (s.Served h n m) := inferInstanceAs (Decidable (_ ∨ _))

/-- The coordinate nodes of the cluster for one dimension stand in front of a node. -/
def CoordinateFirst (s : Graph) (k : ClusterId) (dim : Nat) (n : NodeId) : Prop :=
  ∀ c ∈ s.order, (s.node c).isCoordinate → (s.node c).cluster = some k →
    signed (s.node c).word = dim → Precedes s.order c n

instance {dim : Nat} : Decidable (s.CoordinateFirst k dim n) :=
  inferInstanceAs (Decidable (∀ c ∈ s.order, _))

/-- In the modes that are not linear those for the dimensions without an index stand in front of the
access. -/
def CoordinatesFirst (s : Graph) (k : ClusterId) (n m : NodeId) : Prop :=
  s.kernelMode ≠ .linear → ∀ dim < max (s.sources m .shape).length 1,
    (s.sources n .index).lookup (dim : Int) = none → s.CoordinateFirst k dim n

instance : Decidable (s.CoordinatesFirst k n m) := inferInstanceAs (Decidable (_ → ∀ dim < _, _))

/-- No size but the first one is the constant zero, or indices are clamped. -/
def SizesNonzero (s : Graph) (m : NodeId) : Prop :=
  s.tensorMode = .clamp ∨
    ∀ dim < (s.sources m .shape).length, 1 ≤ dim → ∀ v ∈ s.size? m dim, s.isZero v = false

instance : Decidable (s.SizesNonzero m) := inferInstanceAs (Decidable (_ ∨ ∀ dim < _, _))

/-! ### Programs in sequence -/

lemma supplied_of_block {ls : List LabelId} (hm : g.memoryOf? n = some m)
    (h : ((g.node m).args.filter fun a => a.kind = .shape) = block .shape ls)
    (hclamp : g.tensorMode = .clamp → 1 ≤ ls.length)
    (hindex : ∀ dim < max ls.length 1, (g.sources n .index).lookup (dim : Int) = none →
      ∃ c, coordinates[dim]? = some c ∧ Precedes g.order c n) : Supplied g n m coordinates := by
  obtain ⟨hrank, hsize⟩ := size?_of_block h
  exact ⟨hm, fun dim hdim => hsize dim (hrank ▸ hdim), fun hmode => hsize 0 (hclamp hmode),
    fun dim hdim => hindex dim (hrank ▸ hdim)⟩

/-- What an access needs stands before it when the pass comes to it. -/
lemma ComesTo.supplied (hc : ComesTo s k h n thread coordinates g) (hs : s.Sparse s.order)
    (hm : m ∈ s.order) (hmemory : s.memoryOf? n = some m)
    (hcluster : (s.node m).isCoordinate → (s.node m).cluster = some k)
    (hcalls : ¬ (s.kernelMode = .linear ∧ s.sources n .index = [])) (hserved : s.Served h n m)
    (hfront : ∀ (dim : Nat) c, coordinates[dim]? = some c → (s.kernelMode ≠ .linear →
      dim < max (s.sources m .shape).length 1 ∧ (s.sources n .index).lookup (dim : Int) = none) →
        Precedes g.order c n) : Supplied g n (g.target m) coordinates := by
  have hmemory' := hc.memoryOf?_eq hs hmemory
  have hlength := hc.length_coordinates hs
  have hget : ∀ dim < (s.sources h .shape).length, ∃ c, coordinates[dim]? = some c :=
    fun dim hdim =>
    ⟨_, getElem?_eq_getElem (hlength ▸ hdim)⟩
  obtain ⟨-, hmem, -, hshape, -⟩ := hc.prepares hs
  by_cases hmoved : s.kernelMode = .linear ∧ (s.node m).isCoordinate
  · -- what has taken the place of the coordinate has the dimensions of the kernel
    have hrank := length_sources_of_block ((hs.regular h hmem).blocks .shape)
    have hpos := length_pos_iff.2 hshape
    refine supplied_of_block hmemory' (hc.shape_of_coordinate hs hmoved.1 hm hmoved.2
      (hcluster hmoved.2)) (fun _ => hrank ▸ hpos) fun dim hdim _ => ?_
    obtain ⟨c, hcoord⟩ := hget dim (by omega)
    exact ⟨c, hcoord, hfront dim c hcoord fun hmode => absurd hmoved.1 hmode⟩
  · obtain ⟨hclamp, hdims⟩ := hserved.resolve_left fun ⟨hlinear, hcases⟩ => hcases.elim
      (fun hnil => hcalls ⟨hlinear, hnil⟩) fun hcoord => hmoved ⟨hlinear, hcoord⟩
    have hrank := length_sources_of_block ((hs.regular m hm).blocks .shape)
    refine supplied_of_block hmemory' (hc.shape_of_not_moved hs hm hmoved) (fun hmode => ?_)
      fun dim hdim hnone => ?_
    · rw [← hrank]
      exact hclamp ((hc.goesOn hs).tensorMode ▸ hmode)
    · rw [hc.sources_index hs, lookup_map_snd, Option.map_eq_none_iff] at hnone
      rw [← hrank] at hdim
      obtain ⟨c, hcoord⟩ := hget dim ((hdims dim hdim).resolve_left (by simp [hnone]))
      exact ⟨c, hcoord, hfront dim c hcoord fun _ => ⟨hdim, hnone⟩⟩

section Pass

variable {z : Nat} {F : NodeId → Prop} (hl : Spills l kernelMode tensorMode outputs p s)
  (hserved : s.ForAccesses fun _ h n m => s.Served h n m)
  (hfirst : s.ForAccesses fun k _ n m => s.CoordinatesFirst k n m)

include hl hserved hfirst

/-- Flattening one access keeps operands before their users. -/
lemma ComesTo.sequential (hc : ComesTo s k h n thread coordinates g) (hseq : Sequential z F g)
    (hthread : ∀ t, thread = some t → Leads s k t g)
    (hcoordinates : ∀ (i : Nat) c, coordinates[i]? = some c → Leads s k c g ∨
    s.kernelMode ≠ .linear ∧
      LastCoordinate s (s.order.filter fun v => (s.node v).cluster = some k) i c)
    (hlisted : s.kernelMode ≠ .linear → s.order.Sublist g.order)
    (hrun : Build.flattenAccess thread coordinates n g = .ok ⟨⟩ g') : Sequential z F g' := by
  have hs := hl.sparse
  obtain ⟨hh, -, -, hshape, D, g₀, gm, l₀, l₁, -, hhalf⟩ := hc.prepares hs
  obtain ⟨m, hm, hmemory, hcases⟩ := hl.memory hhalf.old hhalf.accesses
  have hn : n ∈ g.order := hhalf.listed.lists.order.symm ▸ hhalf.mem
  have hlt := hs.lists.lt_size hhalf.old
  have hleads : ∀ {v}, Leads s k v g → Precedes g.order v n := fun hv =>
    hv.front n hn hlt hhalf.cluster
  refine hseq.flattenAccess hn (fun t ht => hleads (hthread t ht))
    (fun hcalls => ⟨g.target m, ?_⟩) hrun
  have hserved := hserved n hhalf.old hhalf.accesses k hhalf.cluster h hh hshape m hmemory
  refine hc.supplied hs hm hmemory (fun hcoord => ?_) ?_ hserved fun dim c hcoord htaken => ?_
  · exact (hcases.resolve_left fun hmem => Node.not_isCoordinate_of_isMemory hmem hcoord).trans
      hhalf.cluster
  · -- an access without indices gets the thread number
    rintro ⟨hlinear, hnil⟩
    rw [hc.thread_eq_none_iff hs, hc.sources_index hs, hnil] at hcalls
    exact hcalls.elim (· hlinear) (· rfl)
  · rcases hcoordinates dim c hcoord with hlead | ⟨hmode, hlast⟩
    · exact hleads hlead
    · obtain ⟨hdim, hnone⟩ := htaken hmode
      obtain ⟨hcs, hkc⟩ := mem_filter.1 hlast.mem
      exact (hfirst n hhalf.old hhalf.accesses k hhalf.cluster h hh hshape m hmemory hmode
        dim hdim hnone c hcs hlast.coordinate (by simpa using hkc) hlast.dim).mono (hlisted hmode)

/-- So does flattening one cluster. -/
lemma sequential_flattenCluster {A B : List ClusterId} (hsplit : s.clusterOrder = A ++ k :: B)
    (hbefore : A.forM Build.flattenCluster s = .ok ⟨⟩ g)
    (hseq : Sequential s.nodes.size (MovedIn s (· ∈ A)) g)
    (hrun : Build.flattenCluster k g = .ok ⟨⟩ g') :
    Sequential s.nodes.size (MovedIn s (· ∈ A ++ [k])) g' := by
  have hs := hl.sparse
  obtain ⟨hreached, hk, v, hv, hkv⟩ := hs.reached_of_split hsplit hbefore
  obtain ⟨l₀, hl₀⟩ := hreached.flattening
  obtain ⟨h, -, -, -, hh, hmem, hkh⟩ := hl₀.head_of_untouched hs hk hv hkv
  by_cases hshape : g.sources h .shape = []
  · rw [flattenCluster_idle fun h' hh' => Option.mem_unique hh hh' ▸ hshape] at hrun
    cases hrun
    exact hseq.mono fun n hn => hn.mono fun j => mem_append_left _
  · obtain ⟨thread, coordinates, gm, hp, haccesses⟩ := flattenCluster_ok hh hshape hrun
    obtain ⟨hseqm, hthread, hcoordinates⟩ :=
      hreached.sequential_provides hl₀ hs hk hh hmem hkh hseq hp
    have hgrows : s.kernelMode ≠ .linear → Grows s g := fun hmode =>
      hs.grows_forM (A := []) hmode (by simpa using hsplit) rfl hbefore
    have hgrowsm : s.kernelMode ≠ .linear → Grows s gm := fun hmode => trans_of _ (hgrows hmode)
      (hreached.continues_provides (F := nothing) hl₀ hs hmode hk hh hmem hkh hp).2.1.grows
    -- what one access after the other keeps
    have hloop : Sequential s.nodes.size (MovedIn s fun j => j ∈ A ∨ j = k) g' ∧ Grows gm g' := by
      refine of_forM_run_eq_ok (P := fun _ g₁ =>
        Sequential s.nodes.size (MovedIn s fun j => j ∈ A ∨ j = k) g₁ ∧ Grows gm g₁)
        haccesses ?_ ⟨hseqm, refl_of _ gm⟩
      rintro ns n ns' g₁ g₂ hns hfront ⟨hseq₁, hgrows₁⟩ hstep
      have hc : ComesTo s k h n thread coordinates g₁ :=
        .intro hsplit hbefore hh hshape hp hns hfront
      obtain ⟨-, -, -, -, _, _, _, _, l₁, -, hhalf⟩ := hc.prepares hs
      have hn : n ∈ g₁.order := hhalf.listed.lists.order.symm ▸ hhalf.mem
      refine ⟨hc.sequential hl hserved hfirst hseq₁ (fun t ht => (hthread t ht).grows hgrows₁)
        (fun i c hi => (hcoordinates i c hi).imp (·.grows hgrows₁) fun ⟨hmode, hlast⟩ => ⟨hmode,
          hreached.lastCoordinate hl₀ hs (hgrows hmode) hk hh hmem hlast⟩)
        (fun hmode => (trans_of _ (hgrowsm hmode) hgrows₁).listed hs.lists) hstep,
        trans_of _ hgrows₁ (grows_flattenAccess hseq₁.toLists hn hstep).1⟩
    exact hloop.1.mono fun n hn => hn.mono fun j => by simp

lemma Spills.sequential_flatten (hordered : s.Ordered s.order) (hrun : Build.flatten s = .ok ⟨⟩ f) :
    Sequential s.nodes.size (MovedIn s (· ∈ s.clusterOrder)) f := by
  have hs := hl.sparse
  refine of_forM_run_eq_ok (P := fun A g => Sequential s.nodes.size (MovedIn s (· ∈ A)) g) hrun
    (fun A k B g g' hsplit hbefore hseq hstep =>
      sequential_flattenCluster hl hserved hfirst hsplit hbefore hseq hstep) ?_
  exact hs.labelled.sequential hs.lists hordered hs.inside

end Pass

/-! ### Programs out of sequence -/

lemma SizesNonzero.isNonzero (h : s.SizesNonzero m) (hs : s.Sparse s.order) (hm : m ∈ s.order)
    (hmode : s.kernelMode ≠ .linear) (hg : GoesOn s s g) : s.tensorMode = .clamp ∨
      ∀ dim < (s.sources m .shape).length, 1 ≤ dim → IsNonzero ((g.size? m dim).getD 0) g := by
  refine h.imp_right fun hall dim hdim hpos => ?_
  have hsize := (hs.size?_eq hm (Evolves.refl _ _ s)).2 dim
  rw [getElem?_map, getElem?_eq_getElem hdim, Option.map_some] at hsize
  obtain ⟨a, ha, -, hsource⟩ := hs.exists_of_mem_sources hm (getElem_mem hdim)
  have hlt := hs.inside m hm a ha
  have htarget := GoesOn.target hg hs.labelled hlt fun hmoved => hmode hmoved.1
  have hzero := hall dim hdim hpos _ hsize
  rw [hsource] at hlt htarget
  have hsame : g.size? m dim = some (s.sources m .shape)[dim].2 := by
    rw [(hs.size?_eq hm hg).2,
      hs.sources_eq hm (hg.others m (hs.lists.lt_size hm) .shape (by decide)),
      map_map, getElem?_map, getElem?_eq_getElem hdim]
    exact congrArg some htarget
  rw [hsame]
  exact IsNonzero.evolves ⟨hlt, hzero⟩ hg

namespace Visits

variable (hv : Visits s k h n thread coordinates g g' f) (hs : s.Sparse s.order)

include hv hs

lemma addressed : ∃ flat, AddressedBy g thread coordinates n flat g' ∧
    ((g'.node n).args.filter fun a => a.kind = .index) = [⟨.index, 0, g'.label flat⟩] ∧
    Evolves (· = n) nothing g g' ∧
    Evolves (fun v => AccessIn s anywhere v ∧ v ≠ n) (MovedIn s anywhere) g' f := by
  obtain ⟨hclusters, hbefore, hcluster, hhead, hshape, hprovides, haccesses, hfront, hrun, hback,
    hafter⟩ := hv
  obtain ⟨-, l₀, hp⟩ := hs.prepares_of_split hclusters hbefore hhead hshape hprovides
  obtain ⟨flat, l₁, hhalf, haddressed, haccess, hevolves, hfilter⟩ :=
    hp.access hs haccesses hfront hrun hback
  have hlast := hs.evolves_forM (C := []) (by simpa using hclusters)
    (forM_concat_of_ok hbefore hcluster) hafter
  refine ⟨flat, haddressed, hfilter, haccess,
    (hevolves.mono (fun v hv => ⟨hv.1.mono fun _ _ => trivial, hv.2⟩) fun _ => False.elim).trans
    (hlast.mono (fun v hv => ⟨hv.mono fun _ _ => trivial, ?_⟩) fun _ hv =>
    hv.mono fun _ _ => trivial)⟩
  -- the access is in none of the clusters that follow
  rintro rfl
  have hnodup : s.clusterOrder.Nodup := nodup_firstOccurrences _
  rw [hclusters] at hnodup
  exact not_accessIn (not_mem_of_nodup_append hnodup).2 hhalf.cluster hv

lemma ends : GoesOn s s f := by
  obtain ⟨-, -, -, -, _, _, _, _, _, -, hhalf⟩ := hv.comesTo.prepares hs
  obtain ⟨flat, -, -, haccess, hafter⟩ := hv.addressed hs
  refine ((hv.comesTo.goesOn hs).trans (haccess.mono ?_ fun _ => False.elim)).trans
    (hafter.mono (fun v hv => hv.1) fun _ => id)
  rintro v rfl
  exact ⟨hhalf.accesses, k, trivial, hhalf.cluster⟩

variable (hmode : s.kernelMode ≠ .linear) {dim : Nat}

include hmode

lemma grows : Grows s g ∧ Grows s f ∧ ∀ v, g.nodes.size ≤ v → v < g'.nodes.size →
    Precedes f.order v n := by
  obtain @⟨A, B, g₀, gm, g₁, ns, ns', hclusters, hbefore, hcluster, hhead, hshape,
    hprovides, haccesses, hfront, hrun, hback, hafter⟩ := hv
  obtain ⟨-, l₀, hp⟩ := hs.prepares_of_split hclusters hbefore hhead hshape hprovides
  obtain ⟨lm, hlm, -⟩ := hp.kept
  have hgrows₀ : Grows s g₀ := hs.grows_forM (A := []) hmode (by simpa using hclusters) rfl hbefore
  obtain ⟨hreached, hk, v, hv, hkv⟩ := hs.reached_of_split hclusters hbefore
  obtain ⟨h', -, -, -, hh', hmem, hkh⟩ := hp.listed.head_of_untouched hs hk hv hkv
  obtain rfl := Option.mem_unique hh' hhead
  have hgrowsm := (hreached.continues_provides (F := nothing) hp.listed hs hmode hk hhead hmem hkh
    hprovides).2.1.grows
  have hgm := trans_of Grows hgrows₀ hgrowsm
  have hlists := hgm.lists hs.lists
  have hin : ∀ v ∈ ns ++ n :: ns', v ∈ gm.order := fun v hv => by
    rw [← haccesses] at hv
    exact hlm.lists.order ▸ (hlm.of_mem_run (.inr rfl) (mem_filter.1 hv).1).1
  -- the accesses in front, this one, those behind, and the clusters behind
  have h₁ := grows_accesses hlists (fun v hv => hin v (by simp [hv])) hfront
  obtain ⟨h₂, hfirst⟩ := grows_flattenAccess (h₁.lists hlists)
    ((h₁.listed hlists).subset (hin n (by simp)))
    hrun
  have h₁₂ := trans_of Grows h₁ h₂
  have h₃ := grows_accesses (h₁₂.lists hlists)
    (fun v hv => (h₁₂.listed hlists).subset (hin v (by simp [hv]))) hback
  have h₄ := hs.grows_forM (C := []) hmode (by simpa using hclusters)
    (forM_concat_of_ok hbefore hcluster)
    hafter
  have h₃₄ := trans_of Grows h₃ h₄
  refine ⟨trans_of _ hgm h₁, trans_of _ (trans_of _ hgm h₁₂) h₃₄, fun v hge hlt => ?_⟩
  exact (hfirst v hge hlt).mono (h₃₄.listed (h₁₂.lists hlists))

lemma exists_last (hc : c ∈ s.order) (hcoord : (s.node c).isCoordinate)
    (hkc : (s.node c).cluster = some k) (hdim : signed (s.node c).word = dim) :
    ∃ x, coordinates[dim]? = some x ∧
      LastCoordinate s (s.order.filter fun v => (s.node v).cluster = some k) dim x := by
  obtain @⟨A, B, g₀, gm, g₁, ns, ns', hclusters, hbefore, hcluster, hhead, hshape,
    hprovides, haccesses, hfront, hrun, hback, hafter⟩ := hv
  obtain ⟨⟨hh, hmem, hkh, -⟩, l₀, hp⟩ :=
    hs.prepares_of_split hclusters hbefore hhead hshape hprovides
  have hgrows : Grows s g₀ := hs.grows_forM (A := []) hmode (by simpa using hclusters) rfl hbefore
  have hlt := hs.lists.lt_size hc
  have hhl := hp.listed.mem_of_untouched hp.fresh hmem hkh
  have hkh₀ := (hp.reached.evolves.cluster h (hs.lists.lt_size hmem)).trans hkh
  obtain ⟨hcl, hcoord₀, hkc₀, hword, -⟩ := hp.coordinate hs hc hcoord hkc
  obtain ⟨-, hall, hrange⟩ := hp.multiplied hs hh hmem hkh hmode
  have hrank := hrange c hcl hcoord₀ hkc₀
  rw [hword, hdim, ← length_range (n := (g₀.sources h .shape).length), hall.length_eq] at hrank
  have hget := getElem?_eq_getElem (Int.ofNat_lt.1 hrank.2)
  refine ⟨_, hget, ?_⟩
  -- the dimension has a coordinate node, so none has entered
  obtain ⟨-, -, hchosen⟩ := hp.reached.continues_provides (F := nothing)
    hp.listed hs hmode hp.fresh hhead
    hhl hkh₀ hprovides
  rcases hchosen dim _ hget with hlast | ⟨-, hnot⟩
  · exact hp.reached.lastCoordinate hp.listed hs hgrows hp.fresh hhead hhl hlast
  · have hrun := hp.listed.spans.mem_run hp.listed.lists hcl hlt hkc₀
    exact absurd (hword ▸ hdim) (hnot c hrun hcoord₀)

variable (hm : m ∈ s.order) (hmemory : s.memoryOf? n = some m) (hsizes : s.SizesNonzero m)
  (hdim : dim < max (s.sources m .shape).length 1)
  (hnone : (s.sources n .index).lookup (dim : Int) = none) (hx : coordinates[dim]? = some c)
  (hc : c ∈ s.order) (hcoord : (s.node c).isCoordinate)

include hm hmemory hsizes hdim hnone hx hc hcoord

lemma involves {flat : NodeId} {g₁ : Graph}
    (hflat : Build.flatIndex g.tensorMode ((g.node ((g.memoryOf? n).getD 0)).extent .shape).toNat
      (g.size? ((g.memoryOf? n).getD 0)) (g.sources n .index) coordinates (g.enter .before n true) =
        .ok flat g₁) :
    Evolves nothing nothing (g.enter .before n true) g₁ ∧ Involves g.nodes.size c flat g₁ := by
  have hcomes := hv.comesTo
  have hg := hcomes.goesOn hs
  have htarget : g.target m = m :=
    GoesOn.target hg hs.labelled (hs.lists.lt_size hm) fun hmoved => hmode hmoved.1
  have hrank : ((g.node m).extent .shape).toNat = (s.sources m .shape).length := by
    rw [(hs.size?_eq hm hg).1,
      hs.sources_eq hm (hg.others m (hs.lists.lt_size hm) .shape (by decide)), length_map]
  rw [hcomes.memoryOf?_eq hs hmemory, Option.getD_some, htarget, hrank, hg.tensorMode] at hflat
  have hindex : Build.indexNode (g.sources n .index) coordinates dim = c := by
    rw [Build.indexNode, hcomes.sources_index hs, lookup_map_snd, hnone, getD_eq_getElem?_getD, hx]
    rfl
  have hvariable : IsVariable c g :=
    IsVariable.evolves ⟨hs.lists.lt_size hc, Node.isConst_of_isCoordinate hcoord⟩ hg
  refine (Build.keeps_involves_flatIndex (g := g.enter .before n true)
    ⟨hvariable.lt, hvariable.isConst⟩
    (Nat.le_refl _) hdim hindex ((hsizes.isNonzero hs hm hmode hg).imp_right fun hall i hi hpos =>
      ?_)).meets.of_ok hflat
  obtain ⟨hlt, hzero⟩ := hall i hi hpos
  exact ⟨hlt, hzero⟩

/-- A coordinate an access takes over precedes the access. -/
lemma precedes (hf : f.Ordered f.order) : Precedes s.order c n := by
  have hcomes := hv.comesTo
  obtain ⟨-, -, -, -, D, g₀, gm, l₀, l₁, -, hhalf⟩ := hcomes.prepares hs
  obtain ⟨flat, haddressed, hfilter, hrest, hafter⟩ := hv.addressed hs
  obtain ⟨-, hgrows, hnew⟩ := hv.grows hs hmode
  have hg := hcomes.goesOn hs
  have hold : ∀ {v}, v ∈ s.order → v < s.nodes.size := hs.lists.lt_size
  have hlt : ∀ {v}, v ∈ s.order → v < g.nodes.size := fun hv => Nat.lt_of_lt_of_le (hold hv) hg.size
  have hnodup := (hgrows.lists hs.lists).chain.nodup
  have hnf := (hgrows.listed hs.lists).subset hhalf.old
  -- nothing moves, so the coordinate has its own label
  have hlabel : g.label c = c :=
    (hg.label c (hold hc) fun hmoved => hmode hmoved.1).trans (hs.labelled.label c (hold hc))
  have htarget : f.target c = c :=
    GoesOn.target (hv.ends hs) hs.labelled (hold hc) fun hmoved => hmode hmoved.1
  have hsource : ∀ {v a}, v ∈ f.order → a ∈ (f.node v).args → a.source = c →
    Precedes f.order c v := by
    intro v a hv ha hac
    have hprec := hf v hv a ha
    rwa [Graph.source, hac, htarget] at hprec
  refine Precedes.of_sublist ?_ (hgrows.listed hs.lists) hnodup hc hhalf.old
  cases haddressed with
  | thread hthread _ =>
    rw [(hcomes.thread_eq_none_iff hs).2 hmode] at hthread
    cases hthread
  | @computed g₁ _ hflat hrest₁ =>
    obtain ⟨hevolves, hinvolves⟩ :=
      hv.involves hs hmode hm hmemory hsizes hdim hnone hx hc hcoord hflat
    rcases hinvolves.taken with rfl | ⟨w, hge, hltw, a, ha, hac⟩
    · -- the address is the coordinate
      refine hsource hnf (a := ⟨.index, 0, g'.label flat⟩) ?_ ?_
      · rw [hafter.args n (Nat.lt_of_lt_of_le (hlt hhalf.old) hrest.size) fun hn => hn.2 rfl]
        exact (mem_filter.1 (hfilter.symm ▸ mem_singleton_self _)).1
      · exact (hrest.label _ (hlt hc) id).trans hlabel
    · -- a node that has entered in front of the access takes the coordinate
      have hltw' := Nat.lt_of_lt_of_le hltw hrest₁.size
      have hprec := hnew w hge hltw'
      refine (hsource hprec.left_mem (a := a) ?_ ?_).trans hprec hnodup
      · rw [hafter.args w hltw' fun hw => not_accessIn_of_le (Nat.le_trans hg.size hge) hw.1,
          hrest₁.args w hltw fun heq => absurd (hlt hhalf.old) (Nat.not_lt.2 (heq ▸ hge))]
        exact ha
      · rw [hac, hevolves.label c (hlt hc) id]
        exact hlabel

end Visits

/-! ### The order of definitions and uses -/

lemma Lowers.coordinatesFirst (hl : Lowers l kernelMode tensorMode outputs p s f)
    (hsizes : s.ForAccesses fun _ _ _ m => s.SizesNonzero m) (hf : f.Ordered f.order) :
    s.ForAccesses fun k _ n m => s.CoordinatesFirst k n m := by
  have hs := hl.sparse
  intro n hn haccess k hk h hh hshape m hmemory hmode dim hdim hnone c hc hcoord hkc hword
  obtain ⟨m', hm, hmemory', -⟩ := hl.memory hn haccess
  obtain rfl := Option.mem_unique hmemory' hmemory
  obtain ⟨thread, coordinates, g, g', hv⟩ := hs.visits hl.flatten hn haccess hk hh hshape
  obtain ⟨x, hx, hlast⟩ := hv.exists_last hs hmode hc hcoord hkc hword
  obtain ⟨hxs, -⟩ := mem_filter.1 hlast.mem
  have hprec := hv.precedes hs hmode hm hmemory
    (hsizes n hn haccess k hk h hh hshape m' hmemory) hdim
    hnone hx hxs hlast.coordinate hf
  -- the coordinate that is taken is the last one
  rcases hlast.last c (by simpa using ⟨hc, hkc⟩) hcoord hword with rfl | hle
  · exact hprec
  · exact (hle.mono filter_sublist).trans hprec hs.lists.chain.nodup

/-- Reads the memory at the place of the thread. -/
def loadStep : Step := .act (.load "A" []) (some "x")

/-- Takes the coordinate of the thread. -/
def indexStep : Step := .act (.index (.like "A") 0) (some "i")

/-- Adds the element of the thread and its coordinate, which the steps provide. -/
def loadPlusIndex (steps : List Step) : List Step :=
  .act (.input .int (.sizes [4])) (some "A") :: steps ++
    [.act (.call (.folding .add) ["x", "i"]) (some "y")]

/-- In a program without missing arguments for which all lookups succeed, addresses leave every
argument of every node with a source in front of the node if coordinate nodes stand in front of the
accesses that take them; in linear mode they always do. The converse holds as well if no product
with a size zero makes up for a coordinate. -/
theorem ordered_flatten_iff_coordinates_first (hl : Lowers l kernelMode tensorMode outputs p s f)
    (hclosed : p.Closed) (hserved : s.ForAccesses fun _ h n m => s.Served h n m) :
    (s.ForAccesses (fun k _ n m => s.CoordinatesFirst k n m) → f.Ordered f.order) ∧
      (s.ForAccesses (fun _ _ _ m => s.SizesNonzero m) → f.Ordered f.order →
        s.ForAccesses fun k _ n m => s.CoordinatesFirst k n m) := by
  refine ⟨fun hfirst => ?_, hl.coordinatesFirst⟩
  exact (hl.toSpills.sequential_flatten hserved hfirst (hl.toSpills.ordered hclosed)
    hl.flatten).ordered

theorem ordered_flatten_of_index_first : ∃ p s f,
    Lowers (loadPlusIndex [indexStep, loadStep]) .multi .unchecked [4] p s f ∧ p.Closed ∧
      (s.ForAccesses fun _ h n m => s.Served h n m) ∧ Precedes s.order 2 3 ∧ f.Ordered f.order := by
  obtain ⟨p, s, f, hl, hclosed, hserved, hfirst, hprec⟩ : ∃ p s f,
      Lowers (loadPlusIndex [indexStep, loadStep]) .multi .unchecked [4] p s f ∧ p.Closed ∧
      (s.ForAccesses fun _ h n m => s.Served h n m) ∧
      (s.ForAccesses fun k _ n m => s.CoordinatesFirst k n m) ∧ Precedes s.order 2 3 :=
      by decide +kernel
  exact ⟨p, s, f, hl, hclosed, hserved, hprec,
    (ordered_flatten_iff_coordinates_first hl hclosed hserved).1 hfirst⟩

/-- If the memory is read first, then the address comes from behind. -/
theorem not_forall_ordered_flatten : ¬ ∀ (l : List Step) (kernelMode : KernelMode)
    (tensorMode : TensorMode) (outputs : List NodeId) (p s f : Graph),
    Lowers l kernelMode tensorMode outputs p s f → p.Closed →
      (s.ForAccesses fun _ h n m => s.Served h n m) → f.Ordered f.order := by
  intro hall
  obtain ⟨p, s, f, hl, hclosed, hserved, hnot⟩ : ∃ p s f,
      Lowers (loadPlusIndex [loadStep, indexStep]) .multi .unchecked [4] p s f ∧ p.Closed ∧
      (s.ForAccesses fun _ h n m => s.Served h n m) ∧ ¬ f.Ordered f.order := by decide +kernel
  exact hnot (hall _ _ _ _ p s f hl hclosed hserved)

end Graph

end KernelFusion
