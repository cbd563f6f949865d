/-
Which memory the accesses of a program take once values go through memory.

The memory argument of an access has moved if another cluster computes what it takes for memory,
and then it comes from the memory of that value. So an access takes memory, unless it takes a value
of its own cluster for memory.
-/
import KernelFusion.Proofs.Pass.Prune
import KernelFusion.Proofs.Pass.Spill

namespace KernelFusion.Graph

open List

variable {g p s : Graph} {lp ls : List NodeId} {n m : NodeId} {es : List (NodeId × Entry)}
  {done : List (NodeId × Nat)} {a : Argument}

/-- Nodes keep their operation and their cluster, and their arguments keep their places. -/
structure Rewired (g g' : Graph) : Prop extends g.Outline g' where
  places : ∀ n < g.nodes.size, (g'.node n).args.map Argument.place =
  (g.node n).args.map Argument.place

/-- The state when values go through memory: an access takes memory, unless it takes a value of its
own cluster for memory. -/
structure Spilled (p : Graph) (lp : List NodeId) (s : Graph) (ls : List NodeId) :
    Prop extends s.Sparse ls where
  rewired : p.Rewired s
  listed : lp.Sublist ls
  accessed : ∀ n ∈ ls, (s.node n).op.kind.accesses → ∃ m, s.memoryOf? n = some m ∧
    ((s.node m).isMemory ∨ n ∈ lp ∧ p.memoryOf? n = some m ∧ p.SameCluster m n)
  kept : ∀ n ∈ lp, (p.node n).op.kind.accesses → ∀ m, p.memoryOf? n = some m →
    (p.node m).isMemory = false → p.SameCluster m n → s.memoryOf? n = some m

lemma Pruned.spillable (hp : g.Pruned p lp) : p.Spillable lp := by
  have hsize := hp.labelled.size
  refine ⟨⟨hp.lists, fun n hn => ?_, fun n hn a ha => ?_⟩, hp.grouped.toRuns,
    fun n hn hmem => hp.grouped.clustered hn hmem, fun n hn a ha => ?_,
    fun n hn a ha hshape hmem => ?_⟩
  · have hlt := hp.lists.lt_size hn
    rw [hp.labelled.label n hlt, hsize]
    exact ⟨hlt, hp.labelled.target n hlt⟩
  · rw [hsize]
    exact hp.inside n hn a ha
  · rw [hp.source_eq hn ha]
    exact hp.inside n hn a ha
  · rw [hp.source_eq hn ha] at hmem ⊢
    exact hp.ordered n hn a ha hshape hmem

namespace Passing

variable (hs : Passing p lp es done s ls) {x : NodeId} {e : Entry}

include hs

section

variable (hp : g.Pruned p lp) {x : Argument}

include hp

/-- A node after spilling is a memory outside or stands in an old node's cluster. -/
lemma stands_beside (hn : n ∈ ls) :
    ((s.node n).isMemory ∧ (s.node n).cluster = none) ∨
      ∃ v ∈ lp, (s.node n).cluster = (p.node v).cluster ∧
        (s.node n).isMemory = (p.node v).isMemory := by
  have hother : ∀ {name : String}, (s.node n).op.name = name → name ≠ "memory" →
      (s.node n).isMemory = false := by
    intro name hname hne
    simpa [Node.isMemory, hname] using hne
  rcases hs.entered n hn with hnp | ⟨e, he⟩
  · exact .inr ⟨n, hnp, hs.cluster_eq hnp, hs.isMemory_eq hnp⟩
  · obtain ⟨-, -, hfits⟩ := hs.fits n e he
    cases e with
    | memory v =>
      exact .inl ⟨hfits.isMemory, hfits.cluster⟩
    | load v m user =>
      have huser := hfits.before.right_mem
      refine .inr ⟨user, huser, hfits.cluster, (hother hfits.loads.name (by decide)).trans ?_⟩
      -- memory takes nothing but sizes
      obtain ⟨k, -, hk⟩ := hfits.takes
      obtain ⟨a, ha, hshape, -⟩ := exists_of_mem_taken hk
      by_contra hmem
      exact hshape ((hp.regular user huser).plain (by simpa using hmem) a ha)
    | store v m =>
      obtain ⟨hv, hvalue⟩ := hs.value_of_store he
      exact .inr ⟨v, hv, hfits.cluster, (hother hfits.stores.name (by decide)).trans hvalue.symm⟩

lemma grouped :
    s.Grouped (fun _ => true) ls := by
  refine ⟨hs.runs, fun {n m k} hn hm hkn hkm => ?_, fun {n} hn hmem => ?_⟩
  · have hbeside : ∀ {x}, x ∈ ls → (s.node x).cluster = some k → ∃ v ∈ lp,
        (p.node v).cluster = some k ∧ (s.node x).isMemory = (p.node v).isMemory := by
      intro x hx hkx
      rcases hs.stands_beside hp hx with ⟨-, hnone⟩ | ⟨v, hv, hsame, hmem⟩
      · rw [hnone] at hkx
        cases hkx
      · exact ⟨v, hv, hsame.symm.trans hkx, hmem⟩
    obtain ⟨v, hv, hkv, hmv⟩ := hbeside hn hkn
    obtain ⟨w, hw, hkw, hmw⟩ := hbeside hm hkm
    rw [hmv, hmw]
    exact hp.grouped.apart hv hw hkv hkw
  · rcases hs.stands_beside hp hn with ⟨hmem', -⟩ | ⟨v, hv, hsame, hmem'⟩
    · rw [hmem] at hmem'
      cases hmem'
    · rw [hsame]
      exact hp.grouped.clustered hv (hmem'.symm.trans hmem)

lemma labelled : s.Labelled :=
  hs.extended.labelled hp.labelled

lemma source_eq (hn : n ∈ ls) (hx : x ∈ (s.node n).args) :
    x.source < s.nodes.size ∧ s.source x = x.source := by
  have hlt : x.source < s.nodes.size := (hs.labelled hp).size ▸ hs.inside n hn x hx
  exact ⟨hlt, (hs.labelled hp).source hlt⟩

lemma precedes_of_isMemory (hn : n ∈ ls) (hx : x ∈ (s.node n).args) (hshape : x.kind ≠ .shape)
    (hmem : (s.node (s.source x)).isMemory) : Precedes ls (s.source x) n := by
  rcases hs.precedes_or_old hn hx hshape with hprec | ⟨hnp, hxp⟩
  · exact hprec
  · obtain ⟨hsource, hsame⟩ := hs.isMemory_source hp.spillable hnp hxp
    rw [hsource, hsame] at hmem
    rw [hsource]
    exact (hp.spillable.behind n hnp x hxp hshape hmem).mono hs.listed

end

lemma kind_of_entered (he : (x, e) ∈ es) (ha : a ∈ (s.node x).args) :
    a.kind ≠ .index := by
  intro hkind
  obtain ⟨m, rfl⟩ := hs.value_of_entered he ha (by rw [hkind]; decide) (by rw [hkind]; decide)
  have hmem := mem_taken ha (by rw [hkind]; decide)
  rw [(hs.fits x _ he).2.2.stores.taken, hkind] at hmem
  simp at hmem

lemma isCoordinate_of_entered (he : (x, e) ∈ es) :
    (s.node x).isCoordinate = false := by
  have hname : ∀ {name : String}, (s.node x).op.name = name → name ≠ "dim_id" →
      (s.node x).isCoordinate = false := by
    intro name hname hne
    simpa [Node.isCoordinate, hname] using hne
  obtain ⟨-, -, hfits⟩ := hs.fits x e he
  cases e with
  | memory v => exact hname (by simpa [Node.isMemory] using hfits.isMemory) (by decide)
  | load v m n => exact hname hfits.loads.name (by decide)
  | store v m => exact hname hfits.stores.name (by decide)

lemma typed (hp : g.Pruned p lp) : s.Typed ls := by
  refine ⟨fun n hn x hx hkind => ?_, fun n hn hcoord => ?_⟩
  · rcases hs.entered n hn with hnp | ⟨e, he⟩
    · obtain ⟨i, hi⟩ := mem_iff_getElem?.1 hx
      by_cases hdone : (n, i) ∈ done
      · obtain ⟨c, hc, hckind, -, -, hload⟩ := hs.exists_moved hnp hi hdone
        obtain ⟨m, hm⟩ := hload (by rw [hkind]; decide)
        have hcp := mem_of_getElem? hc
        rw [← (hs.source_eq hp hn hx).2, (hs.fits _ _ hm).2.2.type, hp.source_eq hnp hcp]
        exact hp.typed.index n hnp c hcp (hckind.trans hkind)
      · rw [hs.kept n hnp i hdone] at hi
        have hxp := mem_of_getElem? hi
        rw [hs.extended.type _ (hp.inside n hnp x hxp)]
        exact hp.typed.index n hnp x hxp hkind
    · exact absurd hkind (hs.kind_of_entered he hx)
  · rcases hs.entered n hn with hnp | ⟨e, he⟩
    · have hlt := hs.old n hnp
      rw [Node.isCoordinate, hs.extended.op n hlt] at hcoord
      rw [hs.extended.op n hlt, hs.extended.type n hlt]
      exact hp.typed.coordinate n hnp hcoord
    · rw [hs.isCoordinate_of_entered he] at hcoord
      cases hcoord

lemma sparse (hp : g.Pruned p lp) : s.Sparse ls := by
  refine ⟨⟨hs.toLists, hs.labelled hp, hs.extended.recording.trans hp.recording, hs.grouped hp,
    hs.regular hp.regular, hs.typed hp⟩, fun n hn x hx => (hs.source_eq hp hn hx).1,
    fun n hn x hx hshape hmem => ?_⟩
  obtain ⟨-, hsource⟩ := hs.source_eq hp hn hx
  rw [← hsource] at hmem ⊢
  exact hs.precedes_of_isMemory hp hn hx hshape hmem

end Passing

lemma Pruned.moves_iff (hp : g.Pruned p lp) (hn : n ∈ lp) (ha : a ∈ (p.node n).args)
    (hkind : a.kind = .memory) : p.Moves lp n a ↔
      (p.node (p.source a)).isMemory = false ∧ ¬ p.SameCluster (p.source a) n := by
  constructor
  · rintro ⟨-, -, hmoves⟩
    split at hmoves
    · exact absurd hkind hmoves.1
    · rename_i hmem
      exact ⟨by simpa using hmem, hmoves⟩
  · rintro ⟨hvalue, hne⟩
    refine ⟨by rw [hkind]; decide, ?_, by rwa [if_neg (by simp [hvalue])]⟩
    rw [hp.source_eq hn ha]
    exact hp.accessed n hn a ha hkind

lemma Pruned.spilled (hp : g.Pruned p lp) (hrun : Build.spill p = .ok ⟨⟩ s) :
    ∃ ls, Spilled p lp s ls := by
  obtain ⟨es, done, ls, hs, -, hall⟩ := hp.spillable.spill hrun
  have hsparse := hs.sparse hp
  have hsource : ∀ n ∈ lp, ∀ a ∈ (p.node n).args, s.source a = p.source a := fun n hn a ha =>
    (hs.isMemory_source hp.spillable hn ha).1
  refine ⟨ls, hsparse, ⟨hs.extended.toOutline, hs.places⟩, hs.listed, fun n hn hacc => ?_,
    fun n hn hacc m hm hvalue hsame => ?_⟩
  · obtain ⟨m, hm⟩ := (hsparse.regular n hn).exists_memory hacc
    obtain ⟨x, hx, hkind, -⟩ := Node.mem_labels.1 (hm ▸ mem_singleton_self m)
    refine ⟨s.source x, hsparse.memoryOf?_eq_source hn hacc hx hkind, ?_⟩
    rcases hs.entered n hn with hnp | ⟨e, he⟩
    · obtain ⟨i, hi⟩ := mem_iff_getElem?.1 hx
      by_cases hdone : (n, i) ∈ done
      · obtain ⟨a, -, -, -, hmemory, -⟩ := hs.exists_moved hnp hi hdone
        exact .inl (hs.fits _ _ (hmemory hkind)).2.2.isMemory
      · rw [hs.kept n hnp i hdone] at hi
        have hap := mem_of_getElem? hi
        have hmoves := mt (hall n i x hi) hdone
        rw [hsource n hnp x hap]
        rw [hp.moves_iff hnp hap hkind, not_and_or, Bool.not_eq_false, not_not] at hmoves
        rcases hmoves with hmem | hsame
        · exact .inl ((hs.isMemory_source hp.spillable hnp hap).2.trans hmem)
        · rw [hs.extended.op n (hs.old n hnp)] at hacc
          exact .inr ⟨hnp, hp.memoryOf?_eq_source hnp hacc hap hkind, hsame⟩
    · exact .inl (hs.memory_of_entered he hx hkind).1
  · obtain ⟨a, ha, hkind, rfl⟩ := hp.exists_argument hn hm
    obtain ⟨i, hi⟩ := mem_iff_getElem?.1 ha
    have hmoves : ¬ p.Moves lp n a := by
      rw [hp.moves_iff hn ha hkind, hp.source_eq hn ha]
      exact fun hmoves => hmoves.2 hsame
    have has := mem_of_getElem? ((hs.argument hall hn hi).2 hmoves)
    rw [← hs.extended.op n (hs.old n hn)] at hacc
    rw [hsparse.memoryOf?_eq_source (hs.listed.subset hn) hacc has hkind, hsource n hn a ha,
      hp.source_eq hn ha]

lemma Spilled.memoryListed (hs : Spilled p lp s ls) (hp : g.Pruned p lp) : s.MemoryListed ls := by
  intro n hn hacc m hm
  obtain ⟨x, hx, hkind, rfl⟩ := hs.exists_argument hn hm
  obtain ⟨m, hm', hcases⟩ := hs.accessed n hn hacc
  obtain rfl := Option.mem_unique hm hm'
  rcases hcases with hmem | ⟨hnp, hmp, -⟩
  · exact (hs.ordered n hn x hx (by rw [hkind]; decide) hmem).left_mem
  · obtain ⟨y, hy, hkind', hsource⟩ := hp.exists_argument hnp hmp
    rw [← hsource]
    exact hs.listed.subset (hp.accessed n hnp y hy hkind').left_mem

end KernelFusion.Graph
