/-
Writes and loads of one memory in one cluster.

The threads of a kernel do not wait for each other, so a load behind a write of the same memory is
safe only if both take the same indices. The cut guarantees this as long as the memory itself
belongs to the cluster; memory of an earlier cluster has no edge that could part the two.
-/
import KernelFusion.Proofs.Cluster.Sweep
import KernelFusion.Proofs.Recording.Scripts

namespace KernelFusion.Graph

variable {g : Graph} {n m w r : Nat} {a : Argument}

lemma Recorded.not_isBoundary (h : g.Recorded) (hn : n < g.nodes.size)
    (ha : a ∈ (g.clusterize.node n).args)
    (hsame : g.clusterize.SameCluster (g.clusterize.source a) n) :
    g.clusterize.isBoundary (g.clusterize.source a) n (some a)
      (g.clusterize.node n).isElementwise = false := by
  have hlt : g.clusterize.source a < n := by
    rw [h.recut_clusterize.source]
    rw [h.recut_clusterize.args] at ha
    exact h.source_lt ha
  have hparted := (h.sameCluster_iff_forall (Nat.le_of_lt hlt) hn).1 hsame n hlt (Nat.le_refl n)
  rw [← Bool.not_eq_true]
  exact fun hb => hparted (.inr ⟨a, ha, rfl, hb⟩)

/-- The ways in which an access can share a cluster with what it accesses. -/
lemma Recorded.access_inside (h : g.Recorded) (hn : n < g.nodes.size)
    (hacc : (g.clusterize.node n).op.kind.accesses) (hm : g.clusterize.memoryOf? n = some m)
    (hsame : g.clusterize.SameCluster m n) :
    ((g.clusterize.node m).op.kind = .scatter ∧ (g.clusterize.node n).op.kind = .scatter) ∨
      ((g.clusterize.node m).op.kind ≠ .scatter ∧
        (g.clusterize.node n).isElementwise) := by
  have hreg : (g.clusterize.node n).Regular := h.recut_clusterize.regular (h.regular n)
  obtain ⟨a, ha, hkind, rfl⟩ := exists_of_memoryOf? hm
  have hb := h.not_isBoundary hn ha hsame
  rw [isBoundary, if_pos (hreg.index_nonneg ha), hkind] at hb
  -- the kinds of both ends decide whether the edge from the memory is a boundary
  unfold edgeSeparates? at hb
  dsimp only at hb
  by_cases hscatter : (g.clusterize.node (g.clusterize.source a)).op.kind = .scatter
  · rw [if_pos hscatter] at hb
    exact .inl ⟨hscatter, by simpa using hb⟩
  · refine .inr ⟨hscatter, ?_⟩
    rw [if_neg hscatter] at hb
    by_cases hstore : (g.clusterize.node (g.clusterize.source a)).op.kind = .store
    · rw [if_pos hstore] at hb
      cases hb
    · rw [if_neg hstore] at hb
      cases hc : (g.clusterize.node n).op.kind <;> rw [hc] at hacc hb <;> simp_all [OpKind.accesses]

lemma accesses_of_writes {k : OpKind} (h : k.writes) : k.accesses := by
  cases k <;> simp_all [OpKind.writes, OpKind.accesses]

lemma sources_index_eq_nil (hreg : (g.node n).Regular) (he : (g.node n).isElementwise) :
    g.sources n .index = [] := by
  rw [sources_eq hreg, hreg.isElementwise_iff.1 he]
  rfl

/-- For every program that functions on tensors record: a load behind a write of the same memory
takes the indices of the write whenever they share a cluster, if and only if it takes them anyway,
the memory belongs to the cluster of the write, or a node behind the write, up to the load, is
parted from that cluster. -/
theorem load_behind_write_iff {l : List Step} (hl : Step.allRegular l = true) {c : Graph}
    (hc : (Script.scene l).graph.clusterize = c) (hw : (c.node w).op.kind.writes = true)
    (hr : (c.node r).op.kind = .load) (hwr : c.Before w r) (hmw : c.memoryOf? w = some m)
    (hmr : c.memoryOf? r = some m) :
    (c.SameCluster w r → c.sources w .index = c.sources r .index) ↔
      c.sources w .index = c.sources r .index ∨ c.SameCluster m w ∨
        ∃ n, c.Before w n ∧ (n = r ∨ c.Before n r) ∧ c.PartedFrom w n := by
  subst hc
  have h := (Script.recorded hl).graph
  obtain ⟨hlt, hsize⟩ := h.before_iff.1 hwr
  have hcut := h.sameCluster_iff_forall (Nat.le_of_lt hlt) hsize
  constructor
  · intro hbehind
    by_cases hsame : (Script.scene l).graph.clusterize.SameCluster w r
    · exact .inl (hbehind hsame)
    · refine .inr (.inr ?_)
      rw [hcut] at hsame
      push Not at hsame
      obtain ⟨n, hwn, hnr, hparted⟩ := hsame
      refine ⟨n, h.before_iff.2 ⟨hwn, by omega⟩, ?_, hparted⟩
      rcases Nat.eq_or_lt_of_le hnr with heq | hlt
      · exact .inl heq
      · exact .inr (h.before_iff.2 ⟨hlt, hsize⟩)
  · rintro (hindices | hmem | ⟨n, hwn, hnr, hparted⟩) hsame
    · exact hindices
    · -- the memory is in the cluster, so that neither access takes indices
      have hload := h.access_inside hsize (by rw [hr]; rfl) hmr (hmem.trans hsame)
      have hwrite := h.access_inside (Nat.lt_trans hlt hsize) (accesses_of_writes hw) hmw hmem
      have hregular : ∀ n, ((Script.scene l).graph.clusterize.node n).Regular := fun n =>
        h.recut_clusterize.regular (h.regular n)
      rcases hload with ⟨-, hscatter⟩ | ⟨hne, hload⟩
      · rw [hr] at hscatter
        cases hscatter
      · rcases hwrite with ⟨hscatter, -⟩ | ⟨-, hwrite⟩
        · exact absurd hscatter hne
        · rw [sources_index_eq_nil (hregular w) hwrite, sources_index_eq_nil (hregular r) hload]
    · have hnr' : n ≤ r := by
        rcases hnr with rfl | hnr
        · exact Nat.le_refl _
        · exact Nat.le_of_lt (h.before_iff.1 hnr).1
      exact absurd hparted (hcut.1 hsame n (h.before_iff.1 hwn).1 hnr')

/-- A program that stores to each element of a memory and loads the opposite one. -/
def mirrored : List Step :=
  [ .act (.input .float (.sizes [4])) (some "A"),
    .act (.index (.like "A") 0) (some "i"),
    .act (.call (.named "neg") ["i"]) (some "j"),
    .act (.call (.named "float") ["i"]) (some "x"),
    .act (.store "A" "x" ["i"]) none,
    .act (.load "A" ["j"]) (some "r") ]

/-- Its clusters. -/
def mirroredCut : Graph := (Script.scene mirrored).graph.clusterize

theorem load_behind_write_mirrored :
    (mirroredCut.node 5).op.kind.writes = true ∧ (mirroredCut.node 6).op.kind = .load ∧
      ((mirroredCut.SameCluster 5 6 → mirroredCut.sources 5 .index = mirroredCut.sources 6 .index) ↔
        mirroredCut.sources 5 .index = mirroredCut.sources 6 .index ∨ mirroredCut.SameCluster 1 5 ∨
          ∃ n, mirroredCut.Before 5 n ∧ (n = 6 ∨ mirroredCut.Before n 6) ∧
            mirroredCut.PartedFrom 5 n) := by
  refine ⟨by decide +kernel, by decide +kernel, ?_⟩
  exact load_behind_write_iff (l := mirrored) (by decide +kernel) rfl (by decide +kernel)
    (by decide +kernel) (by unfold Before Precedes; decide +kernel) (by decide +kernel)
    (by decide +kernel)

/-- Not every load behind a write in its cluster takes the indices of the write. -/
theorem not_forall_load_behind_write :
    ¬ ∀ (l : List Step) (c : Graph) (w r m : NodeId), Step.allRegular l = true →
      (Script.scene l).graph.clusterize = c → (c.node w).op.kind.writes = true →
      (c.node r).op.kind = .load → c.Before w r → c.memoryOf? w = some m →
      c.memoryOf? r = some m → c.SameCluster w r → c.sources w .index = c.sources r .index := by
  intro hall
  have hsources := hall mirrored mirroredCut 5 6 1 (by decide +kernel) rfl (by decide +kernel)
    (by decide +kernel) (by unfold Before Precedes; decide +kernel) (by decide +kernel)
    (by decide +kernel) (by unfold SameCluster; decide +kernel)
  exact absurd hsources (by decide +kernel)

end KernelFusion.Graph
