/-
The address pass from cluster to cluster.

`Treats` says how the pass looks from one cluster: in which graph it is reached, what happens in
it, and what may still change until the pass ends.
-/
import KernelFusion.Proofs.Graph.Sparse
import KernelFusion.Proofs.Pass.Coordinates

namespace KernelFusion

open List

namespace Graph

variable {s g g' f : Graph} {E F : NodeId → Prop} {done D D' : ClusterId → Prop}
  {gone : NodeId → Prop} {l coordinates ns : List NodeId} {n m h : NodeId} {k : ClusterId}
  {thread : Option NodeId} {A B : List ClusterId}

/-! ### One cluster -/

/-- How the coordinates of a cluster are provided: in linear mode from the thread number. -/
inductive Provides (k : ClusterId) (h : NodeId) (g : Graph) (coordinates : List NodeId)
    (g' : Graph) :
    Option NodeId → Prop where
  | linear {t : NodeId} (hmode : g.kernelMode = .linear)
    (hrun : Build.linearCoordinates k h ((g.sources h .shape).map (·.2)) g =
      .ok (t, coordinates) g') : Provides k h g coordinates g' (some t)
  | multi (hmode : g.kernelMode ≠ .linear)
    (hrun : Build.multiCoordinates k (g.sources h .shape).length g = .ok coordinates g') :
    Provides k h g coordinates g' none

lemma flattenCluster_idle (hidle : ∀ h, g.head? k = some h → g.sources h .shape = []) :
    Build.flattenCluster k g = .ok ⟨⟩ g := by
  refine (bind_of_ok (x := get) (s := g) rfl).trans ?_
  cases hh : g.head? k with
  | none => rfl
  | some h =>
    dsimp only
    rw [hidle h hh]
    rfl

/-- A cluster is provided with coordinates and then its accesses are flattened. -/
lemma flattenCluster_ok (hh : g.head? k = some h) (hshape : g.sources h .shape ≠ [])
    (hrun : Build.flattenCluster k g = .ok ⟨⟩ g') :
    ∃ thread coordinates gm, Provides k h g coordinates gm thread ∧
      ((gm.run k).filter fun n => (gm.node n).op.kind.accesses).forM
        (Build.flattenAccess thread coordinates) gm = .ok ⟨⟩ g' := by
  have hrun := (bind_of_ok (x := get) (s := g) rfl).symm.trans hrun
  dsimp only at hrun
  rw [hh] at hrun
  dsimp only at hrun
  rw [if_neg (by simpa using hshape)] at hrun
  cases hmode : g.kernelMode with
  | linear =>
    rw [hmode] at hrun
    obtain ⟨⟨t, cs⟩, gm, hlinear, hrun⟩ := bind_eq_ok.1 hrun
    obtain ⟨p, g₂, hpure, hrun⟩ := bind_eq_ok.1 hrun
    cases hpure
    exact ⟨some t, cs, gm, .linear hmode hlinear, hrun⟩
  | linearBlocks =>
    rw [hmode] at hrun
    cases hrun
  | multi | multiBlocks =>
    rw [hmode] at hrun
    obtain ⟨cs, gm, hmulti, hrun⟩ := bind_eq_ok.1 hrun
    obtain ⟨p, g₂, hpure, hrun⟩ := bind_eq_ok.1 hrun
    cases hpure
    refine ⟨none, cs, gm, .multi (by rw [hmode]; nofun) ?_, hrun⟩
    rwa [length_map] at hmulti

lemma Flattening.provides (hg : Flattening s done gone g l) (hs : s.Lists s.order) (hmem : h ∈ l)
    (hk : (g.node h).cluster = some k) (hdone : done k)
    (hold : ∀ v ∈ l, (g.node v).cluster = some k → v ∈ s.order ∧ v < s.nodes.size)
    (hnamed : ∀ c < s.nodes.size, MovedIn s (· = k) c → g.Named c)
    (hp : Provides k h g coordinates g' thread) :
    Evolves nothing (MovedIn s (· = k)) g g' ∧
      ∃ l', Flattening s done (fun v => gone v ∨ MovedIn s (· = k) v) g' l' ∧
        ∀ v ∈ l, ¬ MovedIn s (· = k) v → v ∈ l' := by
  cases hp with
  | linear hmode hrun =>
    obtain ⟨g₀, g₁, l', hlin, hevolves, hg', hl'⟩ := hg.linearCoordinates hs
      (hg.outline.mode.symm.trans hmode) hmem (hold h hmem hk).2 hk hdone hnamed hrun
    exact ⟨(hlin.recorded.mono (fun _ hn => hn) fun _ => False.elim).trans hevolves, l', hg', hl'⟩
  | multi hmode hrun =>
    rw [hg.outline.mode] at hmode
    obtain ⟨hadvances, -, -⟩ := hg.multiCoordinates hmode hmem hk hdone hold hrun
    obtain ⟨l', hsub, hg'⟩ := hadvances.lists hg
    refine ⟨hadvances.evolves.mono (fun _ hn => hn) fun _ => False.elim, l', hg'.absent_of ?_,
      fun v hv _ => hsub hv⟩
    rintro v hv hlt (hgone | hmoved)
    · exact hg'.absent v hv hlt hgone
    · exact hmode hmoved.1

lemma Flattening.accesses (hg : Flattening s done gone g l) (hdone : done k)
    (hns : ∀ v ∈ ns, v ∈ l ∧ v < s.nodes.size ∧ (s.node v).op.kind.accesses ∧
      (s.node v).cluster = some k)
    (hrun : ns.forM (Build.flattenAccess thread coordinates) g = .ok ⟨⟩ g') :
    Advances s done gone (fun v => AccessIn s (· = k) v ∧ v ∈ ns) nothing g g' := by
  refine rel_of_forM_eq_ok hrun fun v hv g₁ g₂ hg₁ hstep => ?_
  obtain ⟨hvl, hlt, haccess, hkv⟩ := hns v hv
  obtain ⟨l₁, hsub, hl₁⟩ := hg₁.lists hg
  obtain ⟨hlists, hevolves, -⟩ := hl₁.flattenAccess (hsub hvl)
    ((hl₁.outline.cluster v hlt).trans hkv) hdone hstep
  refine ⟨hevolves.mono (fun n hn => hn ▸ ⟨⟨haccess, k, rfl, hkv⟩, hv⟩) fun _ => id, fun hl => ?_⟩
  rwa [← hl.lists.order, hl₁.lists.order]

/-! ### The whole pass -/

lemma AccessIn.mono (hn : AccessIn s D n) (h : ∀ k, D k → D' k) :
    AccessIn s D' n := by
  obtain ⟨haccess, k, hk, hkn⟩ := hn
  exact ⟨haccess, k, h k hk, hkn⟩

lemma MovedIn.mono (hn : MovedIn s D n) (h : ∀ k, D k → D' k) :
    MovedIn s D' n := by
  obtain ⟨hlinear, hcoord, k, hk, hkn⟩ := hn
  exact ⟨hlinear, hcoord, k, h k hk, hkn⟩

lemma Evolves.mono_clusters (h : Evolves (AccessIn s D) (MovedIn s D) g g') (hD : ∀ k, D k → D' k) :
    Evolves (AccessIn s D') (MovedIn s D') g g' :=
  h.mono (fun _ hn => hn.mono hD) fun _ hn => hn.mono hD

variable {D : ClusterId → Prop}

lemma not_accessIn (hk : ¬ D k) (hkn : (s.node n).cluster = some k) : ¬ AccessIn s D n := by
  rintro ⟨-, j, hj, hkj⟩
  exact hk (Option.mem_unique hkn hkj ▸ hj)

lemma not_movedIn (hk : ¬ D k) (hkn : (s.node n).cluster = some k) : ¬ MovedIn s D n := by
  rintro ⟨-, -, j, hj, hkj⟩
  exact hk (Option.mem_unique hkn hkj ▸ hj)

/-- The pass on `s` has treated the clusters in `D`. -/
structure Reached (s : Graph) (D : ClusterId → Prop) (gone : NodeId → Prop) (g : Graph) : Prop where
  flattening : ∃ l, Flattening s D gone g l
  evolves : Evolves (AccessIn s D) (MovedIn s D) s g

lemma Sparse.reached (hs : s.Sparse s.order) : Reached s (fun _ => False) nothing s := by
  refine ⟨⟨s.order, hs.lists, Outline.refl s, hs.grouped.toRuns.spans fun _ _ _ => rfl,
    fun _ _ => rfl,
    fun n hn => .inl hn, fun n hn hn' => absurd hn hn', fun _ _ _ => id, False.elim⟩,
    Evolves.refl _ _ s⟩

lemma Flattening.untouched (hg : Flattening s D gone g l) (hs : s.Lists s.order) (hk : ¬ D k)
    (hn : n ∈ l) (hkn : (g.node n).cluster = some k) : n ∈ s.order ∧ n < s.nodes.size := by
  rcases hg.entered n hn with hn | ⟨-, -, -, j, hj, hkj⟩
  · exact ⟨hn, hs.lt_size hn⟩
  · exact absurd (Option.mem_unique hkn hkj ▸ hj) hk

lemma Flattening.mem_of_untouched (hg : Flattening s D gone g l) (hk : ¬ D k) (hn : n ∈ s.order)
    (hkn : (s.node n).cluster = some k) : n ∈ l := by
  by_contra hnl
  exact not_movedIn hk hkn (hg.stays n hn hnl)

lemma Flattening.head_of_untouched (hg : Flattening s D gone g l) (hs : s.Sparse s.order)
    (hk : ¬ D k) (hn : n ∈ s.order) (hkn : (s.node n).cluster = some k) :
    ∃ h, s.head? k = some h ∧ h ∈ s.order ∧ (s.node h).cluster = some k ∧ g.head? k = some h ∧
      h ∈ l ∧ (g.node h).cluster = some k := by
  obtain ⟨h, hh, hmem, hkh, -⟩ := hs.grouped.head hn hkn
  exact ⟨h, hh, hmem, hkh, (hg.heads k hk).trans hh, hg.mem_of_untouched hk hmem hkh,
    (hg.outline.cluster h (hs.lists.lt_size hmem)).trans hkh⟩

lemma Flattening.touch (hg : Flattening s D gone g l) (hh : g.head? k = some h) (hmem : h ∈ l) :
    Flattening s (fun j => D j ∨ j = k) gone g l := by
  refine hg.mono (fun j hj => .inl hj) fun {j h'} hj hh' hkh' => ?_
  rcases hj with hj | rfl
  · exact hg.live hj hh' hkh'
  · exact Option.mem_unique hh' hh ▸ hmem

lemma Reached.named (hg : Reached s D gone g) (hs : s.Labelled) (hk : ¬ D k) {c : NodeId}
    (hc : c < s.nodes.size) (hkc : (s.node c).cluster = some k) : g.Named c :=
  (hs.named hc).evolves hg.evolves hc (not_movedIn hk hkc)

lemma Reached.provided {gm : Graph} (hg : Reached s D gone g) (hl : Flattening s D gone g l)
    (hs : s.Sparse s.order) (hk : ¬ D k) (hh : g.head? k = some h) (hmem : h ∈ l)
    (hkh : (g.node h).cluster = some k) (hp : Provides k h g coordinates gm thread) :
    Evolves nothing (MovedIn s (· = k)) g gm ∧
      ∃ lm, Flattening s (fun j => D j ∨ j = k) (fun v => gone v ∨ MovedIn s (· = k) v) gm lm ∧
        ∀ v ∈ l, ¬ MovedIn s (· = k) v → v ∈ lm := by
  refine (hl.touch hh hmem).provides hs.lists hmem hkh (.inr rfl)
    (fun v hv hkv => hl.untouched hs.lists hk hv hkv) (fun c hc hmoved => ?_) hp
  obtain ⟨-, -, j, rfl, hkc⟩ := hmoved
  exact hg.named hs.labelled hk hc hkc

lemma Reached.provides (hg : Reached s D gone g) (hl : Flattening s D gone g l)
    (hs : s.Sparse s.order) (hk : ¬ D k) (hh : g.head? k = some h) (hmem : h ∈ l)
    (hkh : (g.node h).cluster = some k) (hshape : g.sources h .shape ≠ [])
    (hrun : Build.flattenCluster k g = .ok ⟨⟩ g') :
    ∃ thread coordinates gm lm, Provides k h g coordinates gm thread ∧
      Evolves nothing (MovedIn s (· = k)) g gm ∧
      Flattening s (fun j => D j ∨ j = k) (fun v => gone v ∨ MovedIn s (· = k) v) gm lm ∧
      (∀ v ∈ l, ¬ MovedIn s (· = k) v → v ∈ lm) ∧
      ((gm.run k).filter fun n => (gm.node n).op.kind.accesses).forM
        (Build.flattenAccess thread coordinates) gm = .ok ⟨⟩ g' ∧
      Advances s (fun j => D j ∨ j = k) (fun v => gone v ∨ MovedIn s (· = k) v)
        (AccessIn s (· = k)) nothing gm g' := by
  obtain ⟨thread, coordinates, gm, hp, haccesses⟩ := flattenCluster_ok hh hshape hrun
  obtain ⟨hevolves, lm, hlm, hkept⟩ := hg.provided hl hs hk hh hmem hkh hp
  have hadvances := hlm.accesses (.inr rfl)
    (fun v hv => (hlm.mem_accesses_iff hs.lists (.inr rfl)).1 hv) haccesses
  exact ⟨thread, coordinates, gm, lm, hp, hevolves, hlm, hkept, haccesses,
    hadvances.evolves.mono (fun _ hn => hn.1) fun _ => id, hadvances.lists⟩

/-- The step lemma of the pass: one more cluster reached. -/
lemma Reached.flattenCluster (hg : Reached s D gone g) (hs : s.Sparse s.order) (hk : ¬ D k)
    (hn : n ∈ s.order) (hkn : (s.node n).cluster = some k)
    (hrun : Build.flattenCluster k g = .ok ⟨⟩ g') :
    Reached s (fun j => D j ∨ j = k) gone g' ∧
      Evolves (AccessIn s (· = k)) (MovedIn s (· = k)) g g' := by
  obtain ⟨l, hl⟩ := hg.flattening
  obtain ⟨h, -, -, -, hh, hmem, hkh⟩ := hl.head_of_untouched hs hk hn hkn
  have hstep : Evolves (AccessIn s (· = k)) (MovedIn s (· = k)) g g' ∧
      ∃ l', Flattening s (fun j => D j ∨ j = k) gone g' l' := by
    by_cases hshape : g.sources h .shape = []
    · rw [flattenCluster_idle fun h' hh' => Option.mem_unique hh hh' ▸ hshape] at hrun
      cases hrun
      exact ⟨Evolves.refl _ _ g, l, hl.touch hh hmem⟩
    · obtain ⟨-, -, gm, lm, -, hevolves, hlm, -, -, hadvances⟩ :=
        hg.provides hl hs hk hh hmem hkh hshape hrun
      obtain ⟨l', -, hl'⟩ := hadvances.lists hlm
      refine ⟨(hevolves.mono (fun _ => False.elim) fun _ => id).trans (hadvances.evolves.mono
        (fun _ => id) fun _ => False.elim), l', ?_⟩
      exact hl'.absent_of fun v hv hlt hgone => hl'.absent v hv hlt (.inl hgone)
  exact ⟨⟨hstep.2, (hg.evolves.mono_clusters fun j hj => .inl hj).trans
    (hstep.1.mono_clusters fun j hj => .inr hj)⟩, hstep.1⟩

/-- The run lemma: all the clusters listed. -/
lemma Reached.forM {ks : List ClusterId} (hg : Reached s D gone g) (hs : s.Sparse s.order)
    (hnodup : ks.Nodup) (hks : ∀ k ∈ ks, ¬ D k ∧ ∃ n ∈ s.order, (s.node n).cluster = some k)
    (hrun : ks.forM Build.flattenCluster g = .ok ⟨⟩ g') :
    Reached s (fun j => D j ∨ j ∈ ks) gone g' ∧
      Evolves (AccessIn s (· ∈ ks)) (MovedIn s (· ∈ ks)) g g' := by
  induction ks generalizing g D with
  | nil =>
    cases hrun
    have hD : (fun j => D j ∨ j ∈ ([] : List ClusterId)) = D := by simp
    rw [hD]
    exact ⟨hg, Evolves.refl _ _ _⟩
  | cons k ks ih =>
    obtain ⟨hnot, hnodup⟩ := nodup_cons.1 hnodup
    obtain ⟨hk, n, hn, hkn⟩ := hks k mem_cons_self
    obtain ⟨⟨⟩, g₁, hfirst, hrun⟩ := bind_eq_ok.1 hrun
    obtain ⟨hg₁, hevolves₁⟩ := hg.flattenCluster hs hk hn hkn hfirst
    have hrest : ∀ j ∈ ks, ¬ (D j ∨ j = k) ∧ ∃ n ∈ s.order, (s.node n).cluster = some j := by
      intro j hj
      obtain ⟨hDj, hnode⟩ := hks j (mem_cons_of_mem _ hj)
      exact ⟨not_or.2 ⟨hDj, fun heq => hnot (heq ▸ hj)⟩, hnode⟩
    obtain ⟨hg', hevolves'⟩ := ih hg₁ hnodup hrest hrun
    have hD : (fun j => (D j ∨ j = k) ∨ j ∈ ks) = fun j => D j ∨ j ∈ k :: ks := by
      funext j
      rw [mem_cons, or_assoc]
    rw [hD] at hg'
    exact ⟨hg', (hevolves₁.mono_clusters fun j hj => hj ▸ mem_cons_self).trans
      (hevolves'.mono_clusters fun j hj => mem_cons_of_mem _ hj)⟩

lemma Sparse.reached_forM (hs : s.Sparse s.order) (hsplit : s.clusterOrder = A ++ B)
    (hrun : A.forM Build.flattenCluster s = .ok ⟨⟩ g) : Reached s (· ∈ A) nothing g ∧ B.Nodup ∧
      ∀ j ∈ B, j ∉ A ∧ ∃ n ∈ s.order, (s.node n).cluster = some j := by
  have hnodup : s.clusterOrder.Nodup := nodup_firstOccurrences _
  have hclusters : ∀ j ∈ s.clusterOrder, ∃ n ∈ s.order, (s.node n).cluster = some j :=
    fun j hj => by
    obtain ⟨n, hn, -, hkn⟩ := mem_clusterOrder.1 hj
    exact ⟨n, hn, hkn⟩
  rw [hsplit] at hnodup hclusters
  obtain ⟨hA, hB, hAB⟩ := nodup_append.1 hnodup
  obtain ⟨hg, -⟩ := hs.reached.forM hs hA
    (fun j hj => ⟨id, hclusters j (mem_append_left _ hj)⟩) hrun
  exact ⟨by simpa using hg, hB, fun j hj => ⟨fun hjA => hAB j hjA j hj rfl,
    hclusters j (mem_append_right _ hj)⟩⟩

lemma Sparse.reached_of_split (hs : s.Sparse s.order) (hsplit : s.clusterOrder = A ++ k :: B)
    (hrun : A.forM Build.flattenCluster s = .ok ⟨⟩ g) :
    Reached s (· ∈ A) nothing g ∧ k ∉ A ∧ ∃ n ∈ s.order, (s.node n).cluster = some k := by
  obtain ⟨hg, -, hrest⟩ := hs.reached_forM hsplit hrun
  exact ⟨hg, hrest k mem_cons_self⟩

lemma Sparse.evolves_forM {C : List ClusterId} (hs : s.Sparse s.order)
    (hsplit : s.clusterOrder = A ++ (B ++ C)) (hbefore : A.forM Build.flattenCluster s = .ok ⟨⟩ g)
    (hrun : B.forM Build.flattenCluster g = .ok ⟨⟩ g') :
    Evolves (AccessIn s (· ∈ B)) (MovedIn s (· ∈ B)) g g' := by
  obtain ⟨hg, hnodup, hrest⟩ := hs.reached_forM hsplit hbefore
  exact (hg.forM hs (nodup_append.1 hnodup).1 (fun j hj => hrest j (mem_append_left _ hj)) hrun).2

lemma Sparse.flatten_split (hs : s.Sparse s.order) (hn : n ∈ s.order)
    (hnm : (s.node n).isMemory = false) (hkn : (s.node n).cluster = some k)
    (hrun : Build.flatten s = .ok ⟨⟩ f) :
    ∃ D D' g g', ¬ D k ∧ ¬ D' k ∧ Reached s D nothing g ∧ Build.flattenCluster k g = .ok ⟨⟩ g' ∧
      Evolves (AccessIn s D') (MovedIn s D') g' f ∧
      ∀ gone, Reached s (fun j => D j ∨ j = k) gone g' → ∃ D, Reached s D gone f := by
  obtain ⟨A, B, hsplit⟩ := append_of_mem (mem_clusterOrder.2 ⟨n, hn, hnm, hkn⟩)
  have hrun : s.clusterOrder.forM Build.flattenCluster s = .ok ⟨⟩ f := hrun
  obtain ⟨g, g', hbefore, hcluster, hafter⟩ := forM_append_cons_eq_ok (hsplit ▸ hrun)
  obtain ⟨hg, hnodup, hrest⟩ := hs.reached_forM hsplit hbefore
  obtain ⟨hkB, hnodupB⟩ := nodup_cons.1 hnodup
  have hkA := (hrest k mem_cons_self).1
  obtain ⟨hg', -⟩ := hg.flattenCluster hs hkA hn hkn hcluster
  have hB : ∀ j ∈ B, ¬ (j ∈ A ∨ j = k) ∧ ∃ n ∈ s.order, (s.node n).cluster = some j := by
    intro j hj
    obtain ⟨hjA, hnode⟩ := hrest j (mem_cons_of_mem _ hj)
    exact ⟨not_or.2 ⟨hjA, fun heq => hkB (heq ▸ hj)⟩, hnode⟩
  exact ⟨(· ∈ A), (· ∈ B), g, g', hkA, hkB, hg, hcluster, (hg'.forM hs hnodupB hB hafter).2,
    fun gone hgone => ⟨_, (hgone.forM hs hnodupB hB hafter).1⟩⟩

lemma Evolves.sources_eq_nil_iff (h : Evolves E F g g') {K : ArgKind} (hn : n < g.nodes.size)
    (hK : K ≠ .index) : g'.sources n K = [] ↔ g.sources n K = [] := by
  rw [Graph.sources_eq_nil_iff, Graph.sources_eq_nil_iff, h.others n hn K hK]

lemma Sparse.not_movedIn_of_accesses (hs : s.Sparse s.order) (hn : n ∈ s.order)
    (haccess : (s.node n).op.kind.accesses) : ¬ MovedIn s D n := by
  rintro ⟨-, hcoord, -⟩
  rw [(hs.typed.coordinate n hn hcoord).2] at haccess
  cases haccess

lemma Sparse.flattened (hs : s.Sparse s.order) (hrun : Build.flatten s = .ok ⟨⟩ f) :
    ∃ D, Reached s D nothing f := by
  exact ⟨_, (hs.reached_forM (append_nil _).symm hrun).1⟩

lemma Sparse.evolves_of_idle (hs : s.Sparse s.order) (hn : n ∈ s.order)
    (hnm : (s.node n).isMemory = false) (hkn : (s.node n).cluster = some k)
    (hidle : ∀ h, s.head? k = some h → s.sources h .shape = [])
    (hrun : Build.flatten s = .ok ⟨⟩ f) : ∃ D, ¬ D k ∧
    Evolves (AccessIn s D) (MovedIn s D) s f := by
  obtain ⟨D, D', g, g', hD, hD', hg, hcluster, hafter, -⟩ := hs.flatten_split hn hnm hkn hrun
  obtain ⟨l, hl⟩ := hg.flattening
  obtain ⟨h, hh, hmem, -, hhg, -, -⟩ := hl.head_of_untouched hs hD hn hkn
  have hshape : g.sources h .shape = [] :=
    (hg.evolves.sources_eq_nil_iff (hs.lists.lt_size hmem) (by decide)).2 (hidle h hh)
  rw [flattenCluster_idle fun h' hh' => Option.mem_unique hhg hh' ▸ hshape] at hcluster
  cases hcluster
  exact ⟨fun j => D j ∨ D' j, not_or.2 ⟨hD, hD'⟩, (hg.evolves.mono_clusters fun _ => .inl).trans
    (hafter.mono_clusters fun _ => .inr)⟩

/-- How the pass on `s` comes to the accesses of a cluster: it is reached with `g`, and the
coordinates have been provided in `gm`. -/
structure Prepares (s : Graph) (k : ClusterId) (h : NodeId) (D : ClusterId → Prop) (g gm : Graph)
    (thread : Option NodeId) (coordinates l : List NodeId) : Prop where
  fresh : ¬ D k
  reached : Reached s D nothing g
  listed : Flattening s D nothing g l
  provides : Provides k h g coordinates gm thread
  provided : Evolves nothing (MovedIn s (· = k)) g gm
  kept : ∃ lm, Flattening s (fun j => D j ∨ j = k) (MovedIn s (· = k)) gm lm ∧
    ∀ v ∈ l, ¬ MovedIn s (· = k) v → v ∈ lm

/-- How the pass on `s`, which ends with `f`, treats a cluster: the accesses have been treated in
`g'`. -/
structure Treats (s : Graph) (k : ClusterId) (h : NodeId) (f : Graph) (D D' : ClusterId → Prop)
    (g gm g' : Graph) (thread : Option NodeId) (coordinates l : List NodeId) : Prop
    extends Prepares s k h D g gm thread coordinates l where
  later : ¬ D' k
  treated : ((gm.run k).filter fun n => (gm.node n).op.kind.accesses).forM
    (Build.flattenAccess thread coordinates) gm = .ok ⟨⟩ g'
  addressed : Evolves (AccessIn s (· = k)) nothing gm g'
  after : Evolves (AccessIn s D') (MovedIn s D') g' f
  gone : ∀ v ∈ f.order, ¬ MovedIn s (· = k) v

lemma Sparse.treats (hs : s.Sparse s.order) (hn : n ∈ s.order) (hnm : (s.node n).isMemory = false)
    (hkn : (s.node n).cluster = some k) (hh : s.head? k = some h) (hshape : s.sources h .shape ≠ [])
    (hrun : Build.flatten s = .ok ⟨⟩ f) :
    ∃ D D' g gm g' thread coordinates l, Treats s k h f D D' g gm g' thread coordinates l := by
  obtain ⟨D, D', g, g', hD, hD', hg, hcluster, hafter, hfinal⟩ := hs.flatten_split hn hnm hkn hrun
  obtain ⟨l, hl⟩ := hg.flattening
  obtain ⟨h', hh', hmem, hkh, hhg, hhl, hkg⟩ := hl.head_of_untouched hs hD hn hkn
  obtain rfl := Option.mem_unique hh' hh
  have hshape' : g.sources h' .shape ≠ [] := fun hnil =>
    hshape ((hg.evolves.sources_eq_nil_iff (hs.lists.lt_size hmem) (by decide)).1 hnil)
  obtain ⟨thread, coordinates, gm, lm, hp, hevolves, hlm, hkept, haccesses, hadvances⟩ :=
    hg.provides hl hs hD hhg hhl hkg hshape' hcluster
  have hreached : Reached s (fun j => D j ∨ j = k) (MovedIn s (· = k)) g' := by
    obtain ⟨l', -, hl'⟩ := hadvances.lists hlm
    refine ⟨⟨l', hl'.absent_of fun v hv hlt hmoved => hl'.absent v hv hlt (.inr hmoved)⟩, ?_⟩
    exact (hg.flattenCluster hs hD hn hkn hcluster).1.evolves
  obtain ⟨_, ⟨lf, hlf⟩, -⟩ := hfinal _ hreached
  refine ⟨D, D', g, gm, g', thread, coordinates, l, ⟨hD, hg, hl, hp, hevolves, lm,
    hlm.absent_of fun v hv hlt hmoved => hlm.absent v hv hlt (.inr hmoved), hkept⟩, hD', haccesses,
    hadvances.evolves, hafter, fun v hv hmoved => ?_⟩
  rw [hlf.lists.order] at hv
  by_cases hlt : v < s.nodes.size
  · exact hlf.absent v hv hlt hmoved
  · have hcoord := hmoved.2.1
    rw [node_eq_default (Nat.not_lt.1 hlt)] at hcoord
    cases hcoord

section Access

variable {gm g₁ : Graph} {thread : Option NodeId} {coordinates A B : List NodeId}

/-- The pass is at one of the accesses of a cluster: those in front of it have been treated. -/
structure Halfway (s : Graph) (k : ClusterId) (D : ClusterId → Prop) (gm : Graph) (n : NodeId)
    (g₁ : Graph) (l₁ : List NodeId) : Prop where
  old : n ∈ s.order
  accesses : (s.node n).op.kind.accesses
  cluster : (s.node n).cluster = some k
  listed : Flattening s (fun j => D j ∨ j = k) (MovedIn s (· = k)) g₁ l₁
  mem : n ∈ l₁
  kept : gm.order ⊆ l₁
  evolves : Evolves (AccessIn s (· = k)) nothing gm g₁
  args : (g₁.node n).args = (s.node n).args

namespace Prepares

variable (hp : Prepares s k h D g gm thread coordinates l) (hs : s.Sparse s.order)
  (hsplit : ((gm.run k).filter fun n => (gm.node n).op.kind.accesses) = A ++ n :: B)

include hp hs hsplit

lemma of_split :
    ∃ lm, Flattening s (fun j => D j ∨ j = k) (MovedIn s (· = k)) gm lm ∧ n ∉ A ∧ n ∉ B ∧
      ∀ v ∈ A ++ n :: B, v ∈ lm ∧ v < s.nodes.size ∧ (s.node v).op.kind.accesses ∧
        (s.node v).cluster = some k := by
  obtain ⟨lm, hlm, -⟩ := hp.kept
  have hall : ∀ v ∈ A ++ n :: B, v ∈ lm ∧ v < s.nodes.size ∧ (s.node v).op.kind.accesses ∧
      (s.node v).cluster = some k :=
      fun v hv => (hlm.mem_accesses_iff hs.lists (.inr rfl)).1 (hsplit ▸ hv)
  obtain ⟨hnl, hlt, -, hkn⟩ := hall n (by simp)
  obtain ⟨h', hh', hmem', -⟩ := hlm.spans.head hnl hlt ((hlm.outline.cluster n hlt).trans hkn)
  obtain ⟨hnA, hnB⟩ := not_mem_of_nodup_append (hsplit ▸ (nodup_run hlm.lists hh' hmem').filter _)
  exact ⟨lm, hlm, hnA, hnB, hall⟩

lemma halfway (hrun : A.forM (Build.flattenAccess thread coordinates) gm = .ok ⟨⟩ g₁) :
    ∃ l₁, Halfway s k D gm n g₁ l₁ := by
  obtain ⟨lm, hlm, hnA, -, hall⟩ := hp.of_split hs hsplit
  obtain ⟨hnl, hlt, haccess, hkn⟩ := hall n (by simp)
  have hadvances := hlm.accesses (.inr rfl) (fun v hv => hall v (mem_append_left _ hv)) hrun
  obtain ⟨l₁, hsub, hl₁⟩ := hadvances.lists hlm
  refine ⟨l₁, ?_, haccess, hkn, hl₁, hsub hnl, hlm.lists.order ▸ hsub,
    hadvances.evolves.mono (fun _ hv => hv.1) fun _ => id, ?_⟩
  · exact hlm.access_old hnl (by rwa [hlm.outline.op n hlt])
  · rw [hadvances.evolves.args n (Nat.lt_of_lt_of_le hlt hlm.outline.size) fun hn => hnA hn.2,
      hp.provided.args n (Nat.lt_of_lt_of_le hlt hp.listed.outline.size) id,
      hp.reached.evolves.args n hlt (not_accessIn hp.fresh hkn)]

lemma access {g₂ : Graph} (hA : A.forM (Build.flattenAccess thread coordinates) gm = .ok ⟨⟩ g₁)
    (hrun : Build.flattenAccess thread coordinates n g₁ = .ok ⟨⟩ g₂)
    (hB : B.forM (Build.flattenAccess thread coordinates) g₂ = .ok ⟨⟩ g') :
    ∃ flat l₁, Halfway s k D gm n g₁ l₁ ∧ AddressedBy g₁ thread coordinates n flat g₂ ∧
      Evolves (· = n) nothing g₁ g₂ ∧ Evolves (fun v => AccessIn s (· = k) v ∧ v ≠ n)
      nothing g₂ g' ∧
      ((g₂.node n).args.filter fun a => a.kind = .index) = [⟨.index, 0, g₂.label flat⟩] := by
  obtain ⟨lm, hlm, -, hnB, hall⟩ := hp.of_split hs hsplit
  obtain ⟨l₁, hhalf⟩ := hp.halfway hs hsplit hA
  have hlt := hs.lists.lt_size hhalf.old
  obtain ⟨⟨l₂, hsub₂, hl₂⟩, hevolves, flat, haddressed, hfilter⟩ := hhalf.listed.flattenAccess
    hhalf.mem ((hhalf.listed.outline.cluster n hlt).trans hhalf.cluster) (.inr rfl) hrun
  have hadvB := hl₂.accesses (k := k) (.inr rfl) (fun v hv => by
    obtain ⟨hvlm, hrest⟩ := hall v (by simp [hv])
    exact ⟨hsub₂ (hhalf.kept (hlm.lists.order ▸ hvlm)), hrest⟩) hB
  exact ⟨flat, l₁, hhalf, haddressed, hevolves, hadvB.evolves.mono
    (fun v hv => ⟨hv.1, fun heq => hnB (heq ▸ hv.2)⟩) fun _ => id, hfilter⟩

end Prepares

/-- The state in which an access is flattened, and what becomes of it. -/
lemma Treats.access (ht : Treats s k h f D D' g gm g' thread coordinates l) (hs : s.Sparse s.order)
    (hn : n ∈ s.order) (hkn : (s.node n).cluster = some k) (haccess : (s.node n).op.kind.accesses) :
    ∃ g₁ g₂ flat, Evolves (AccessIn s (· = k)) nothing gm g₁ ∧
      (g₁.node n).args = (s.node n).args ∧ AddressedBy g₁ thread coordinates n flat g₂ ∧
      Evolves (· = n) nothing g₁ g₂ ∧
      Evolves (AccessIn s fun j => D' j ∨ j = k) (MovedIn s D') g₂ f ∧
      ((f.node n).args.filter fun a => a.kind = .index) = [⟨.index, 0, g₂.label flat⟩] := by
  obtain ⟨lm, hlm, hkept⟩ := ht.kept
  have hlt := hs.lists.lt_size hn
  have hnlm := hkept n (ht.listed.mem_of_untouched ht.fresh hn hkn)
    (hs.not_movedIn_of_accesses hn haccess)
  obtain ⟨A, B, hsplit⟩ := append_of_mem
    ((hlm.mem_accesses_iff hs.lists (.inr rfl)).2 ⟨hnlm, hlt, haccess, hkn⟩)
  obtain ⟨g₁, g₂, hA, hrun, hB⟩ := forM_append_cons_eq_ok (hsplit ▸ ht.treated)
  obtain ⟨flat, l₁, hhalf, haddressed, hevolves, hback, hfilter⟩ :=
    ht.toPrepares.access hs hsplit hA hrun hB
  have hlt₂ : n < g₂.nodes.size :=
    Nat.lt_of_lt_of_le (Nat.lt_of_lt_of_le hlt hhalf.listed.outline.size) hevolves.size
  refine ⟨g₁, g₂, flat, hhalf.evolves, hhalf.args, haddressed, hevolves, ?_, ?_⟩
  · exact (hback.mono (fun v hv => hv.1.mono fun _ => .inr) fun _ => False.elim).trans
      (ht.after.mono (fun v hv => hv.mono fun _ => .inl) fun _ => id)
  · rw [ht.after.args n (Nat.lt_of_lt_of_le hlt₂ hback.size) (not_accessIn ht.later hkn),
      hback.args n hlt₂ fun hn => hn.2 rfl, hfilter]

end Access

end Graph

end KernelFusion
