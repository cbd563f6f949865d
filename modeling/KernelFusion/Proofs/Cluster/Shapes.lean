/-
Shapes inside one cluster.

A node without a shape agrees with every other one, so agreement is an equivalence among nodes with
a shape only. As the cut compares neighbours, two shapes that face each other across nodes without
one agree only if they happen to.
-/
import KernelFusion.Proofs.Cluster.Sweep
import KernelFusion.Proofs.Recording.Scripts

namespace KernelFusion.Graph

open List

variable {g : Graph} {n m x y z : Nat}

/-! ### Agreement is an equivalence -/

lemma sameSize_refl (x : NodeId) : g.sameSize x x := by
  simp [sameSize]

lemma sameSize_symm (h : g.sameSize x y) : g.sameSize y x := by
  unfold sameSize at h ⊢
  by_cases hx : (g.node x).isConst = true <;> by_cases hy : (g.node y).isConst
    <;> simp_all

lemma sameSize_trans (h : g.sameSize x y) (h' : g.sameSize y z) :
    g.sameSize x z := by
  unfold sameSize at *
  by_cases hx : (g.node x).isConst = true <;> by_cases hy : (g.node y).isConst
    <;> by_cases hz : (g.node z).isConst = true <;> simp_all

/-- The sizes of a node, outermost first. -/
def sizes (g : Graph) (n : NodeId) : List NodeId := ((g.node n).labels .shape).map g.target

/-- The node has shape arguments. -/
def HasShape (g : Graph) (n : NodeId) : Prop := (g.node n).arguments .shape ≠ []

lemma hasShape_iff (h : (g.node n).Regular) : g.HasShape n ↔ g.sizes n ≠ [] := by
  rw [HasShape, h.arguments_eq, Ne, block_eq_nil_iff, sizes, Ne, map_eq_nil_iff]

section

variable (hn : (g.node n).Regular)

include hn

lemma sizesAgree_iff (hm : (g.node m).Regular) (i : Nat) :
    g.sizesAgree n m i ↔
      ∃ x y, (g.sizes n)[i]? = some x ∧ (g.sizes m)[i]? = some y ∧ g.sameSize x y := by
  have hsize : ∀ {k}, (g.node k).Regular → g.size? k i = (g.sizes k)[i]? := by
    intro k hk
    rw [size?_eq hk, sizes, getElem?_map]
  rw [sizesAgree, hsize hn, hsize hm]
  cases (g.sizes n)[i]? <;> cases (g.sizes m)[i]? <;> simp

lemma shapesAgree_iff (hm : (g.node m).Regular) (hsn : g.HasShape n) (hsm : g.HasShape m) :
    g.shapesAgree n m ↔ (g.sizes n).length = (g.sizes m).length ∧
      ∀ i < (g.sizes n).length, g.sizesAgree n m i := by
  have hlen : ∀ {k}, (g.node k).Regular → (g.node k).extent .shape = (g.sizes k).length := by
    intro k hk
    rw [hk.extent_eq, sizes, length_map]
  have hpos : ∀ {k}, (g.node k).Regular → g.HasShape k → 0 < (g.sizes k).length := by
    intro k hk hs
    exact length_pos_iff.2 ((hasShape_iff hk).1 hs)
  have hn' := hpos hn hsn
  have hm' := hpos hm hsm
  rw [shapesAgree, hlen hn, hlen hm]
  dsimp only
  rw [if_neg (by omega), Bool.and_eq_true, decide_eq_true_eq, Int.ofNat_inj, all_eq_true,
    Int.toNat_natCast]
  simp only [mem_range]

lemma shapesAgree_refl (hs : g.HasShape n) :
    g.shapesAgree n n := by
  rw [shapesAgree_iff hn hn hs hs]
  refine ⟨rfl, fun i hi => (sizesAgree_iff hn hn i).2 ?_⟩
  exact ⟨_, _, getElem?_eq_getElem hi, getElem?_eq_getElem hi, sameSize_refl _⟩

lemma shapesAgree_symm (hm : (g.node m).Regular) (hsn : g.HasShape n) (hsm : g.HasShape m)
    (h : g.shapesAgree n m) : g.shapesAgree m n := by
  rw [shapesAgree_iff hn hm hsn hsm] at h
  rw [shapesAgree_iff hm hn hsm hsn]
  refine ⟨h.1.symm, fun i hi => (sizesAgree_iff hm hn i).2 ?_⟩
  obtain ⟨x, y, hx, hy, hxy⟩ := (sizesAgree_iff hn hm i).1 (h.2 i (h.1 ▸ hi))
  exact ⟨y, x, hy, hx, sameSize_symm hxy⟩

end

lemma shapesAgree_trans {a b c : Nat} (ha : (g.node a).Regular) (hb : (g.node b).Regular)
    (hc : (g.node c).Regular) (hsa : g.HasShape a) (hsb : g.HasShape b) (hsc : g.HasShape c)
    (hab : g.shapesAgree a b) (hbc : g.shapesAgree b c) :
    g.shapesAgree a c := by
  rw [shapesAgree_iff ha hb hsa hsb] at hab
  rw [shapesAgree_iff hb hc hsb hsc] at hbc
  rw [shapesAgree_iff ha hc hsa hsc]
  refine ⟨hab.1.trans hbc.1, fun i hi => (sizesAgree_iff ha hc i).2 ?_⟩
  obtain ⟨x, y, hx, hy, hxy⟩ := (sizesAgree_iff ha hb i).1 (hab.2 i hi)
  obtain ⟨y', z, hy', hz, hyz⟩ := (sizesAgree_iff hb hc i).1 (hbc.2 i (hab.1 ▸ hi))
  obtain rfl := Option.mem_unique hy hy'
  exact ⟨x, z, hx, hz, sameSize_trans hxy hyz⟩

/-! ### From neighbours to whole clusters -/

lemma Recorded.shapesAgree_succ (h : g.Recorded) (hn : n + 1 < g.nodes.size)
    (hsame : g.clusterize.SameCluster n (n + 1)) :
    g.clusterize.shapesAgree n (n + 1) := by
  have hprev : g.clusterize.prev? (n + 1) = some n := by
    rw [h.recut_clusterize.prev?, h.prev?_succ hn]
  by_contra hagree
  rw [Bool.not_eq_true] at hagree
  refine (h.sameCluster_succ_iff hn).1 hsame (.inl ⟨n, hprev, rfl, ?_⟩)
  rw [nodesSeparate, hagree]
  rfl

/-- Shapes agree across a cluster if they do over every stretch without shapes. -/
lemma Recorded.shapesAgree_of_bridges (h : g.Recorded) {k : ClusterId}
    (hbridge : ∀ a b : Nat, a + 1 < b → b < g.nodes.size →
      (g.clusterize.node a).cluster = some k → (g.clusterize.node b).cluster = some k →
      g.clusterize.HasShape a → g.clusterize.HasShape b →
      (∀ n, a < n → n < b → ¬ g.clusterize.HasShape n) → g.clusterize.shapesAgree a b)
    (d : Nat) : ∀ a b : Nat, b - a = d → a < b → b < g.nodes.size →
      (g.clusterize.node a).cluster = some k → (g.clusterize.node b).cluster = some k →
      g.clusterize.HasShape a → g.clusterize.HasShape b →
      g.clusterize.shapesAgree a b := by
  have hreg : ∀ n, (g.clusterize.node n).Regular := fun n =>
    h.recut_clusterize.regular (h.regular n)
  induction d using Nat.strongRecOn with
  | ind d ih =>
    intro a b hd hab hb hka hkb hsa hsb
    have hsame : g.clusterize.SameCluster a b := hka.trans hkb.symm
    by_cases hgap : ∃ n, a < n ∧ n < b ∧ g.clusterize.HasShape n
    · -- a node with a shape lies in between: it agrees with both
      obtain ⟨n, han, hnb, hsn⟩ := hgap
      have hkn : (g.clusterize.node n).cluster = some k :=
        (h.sameCluster_between hb hsame (by omega) (by omega)).symm.trans hka
      have hleft := ih (n - a) (by omega) a n rfl han (by omega) hka hkn hsa hsn
      have hright := ih (b - n) (by omega) n b rfl hnb hb hkn hkb hsn hsb
      exact shapesAgree_trans (hreg a) (hreg n) (hreg b) hsa hsn hsb hleft hright
    · push Not at hgap
      rcases Nat.eq_or_lt_of_le (Nat.succ_le_of_lt hab) with rfl | hlt
      · exact h.shapesAgree_succ hb hsame
      · exact hbridge a b hlt hb hka hkb hsa hsb hgap

/-- For every program that functions on tensors record: all nodes of a cluster that have a shape
agree, if and only if those do that face each other across nodes without a shape. -/
theorem cluster_has_one_shape_iff {l : List Step} (hl : Step.allRegular l = true) {c : Graph}
    (hc : (Script.scene l).graph.clusterize = c) (k : ClusterId) :
    (∀ a ∈ c.order, ∀ b ∈ c.order, (c.node a).cluster = some k → (c.node b).cluster = some k →
        c.HasShape a → c.HasShape b → c.shapesAgree a b = true) ↔
      ∀ a b, (∃ n, c.Before a n ∧ c.Before n b) → (c.node a).cluster = some k →
        (c.node b).cluster = some k → c.HasShape a → c.HasShape b →
        (∀ n, c.Before a n → c.Before n b → ¬ c.HasShape n) → c.shapesAgree a b = true := by
  subst hc
  have h := (Script.recorded hl).graph
  have horder : ∀ n, n ∈ (Script.scene l).graph.clusterize.order ↔
      n < (Script.scene l).graph.nodes.size := by
    intro n
    rw [h.recut_clusterize.order, h.order, mem_range]
  have hreg : ∀ n, ((Script.scene l).graph.clusterize.node n).Regular := fun n =>
    h.recut_clusterize.regular (h.regular n)
  constructor
  · rintro hall a b ⟨n, han, hnb⟩ hka hkb hsa hsb -
    obtain ⟨hlt, -⟩ := h.before_iff.1 han
    obtain ⟨hlt', hb⟩ := h.before_iff.1 hnb
    have ha := (horder a).2 (Nat.lt_trans hlt (Nat.lt_trans hlt' hb))
    exact hall a ha b ((horder b).2 hb) hka hkb hsa hsb
  · intro hbridge a ha b hb hka hkb hsa hsb
    rw [horder] at ha hb
    have hwalk := h.shapesAgree_of_bridges (k := k) fun a b hab hb hka hkb hsa hsb hgap => by
      refine hbridge a b ⟨a + 1, ?_, ?_⟩ hka hkb hsa hsb fun n han hnb => ?_
      · exact h.before_iff.2 ⟨by omega, by omega⟩
      · exact h.before_iff.2 ⟨hab, hb⟩
      · exact hgap n (h.before_iff.1 han).1 (h.before_iff.1 hnb).1
    -- agreement is symmetric, so that the order of the two nodes does not matter
    rcases Nat.lt_trichotomy a b with hlt | rfl | hlt
    · exact hwalk _ a b rfl hlt hb hka hkb hsa hsb
    · exact shapesAgree_refl (hreg a) hsa
    · exact shapesAgree_symm (hreg b) (hreg a) hsb hsa (hwalk _ b a rfl hlt ha hkb hka hsb hsa)

/-- A program with two index spaces and a constant without a shape between them. -/
def bridged : List Step :=
  [ .act (.constant .int 4 (.sizes [])) (some "a"),
    .act (.constant .int 8 (.sizes [])) (some "b"),
    .act (.index (.extent (.tensors ["a"])) 0) (some "i"),
    .act (.constant .int 1 (.sizes [])) (some "one"),
    .act (.index (.extent (.tensors ["b"])) 0) (some "j") ]

/-- Its clusters. -/
def bridgedCut : Graph := (Script.scene bridged).graph.clusterize

theorem cluster_of_bridged_has_one_shape_iff :
    (∀ a ∈ bridgedCut.order, ∀ b ∈ bridgedCut.order, (bridgedCut.node a).cluster = some 1 →
        (bridgedCut.node b).cluster = some 1 → bridgedCut.HasShape a → bridgedCut.HasShape b →
        bridgedCut.shapesAgree a b = true) ↔
      ∀ a b, (∃ n, bridgedCut.Before a n ∧ bridgedCut.Before n b) →
        (bridgedCut.node a).cluster = some 1 → (bridgedCut.node b).cluster = some 1 →
        bridgedCut.HasShape a → bridgedCut.HasShape b →
        (∀ n, bridgedCut.Before a n → bridgedCut.Before n b → ¬ bridgedCut.HasShape n) →
        bridgedCut.shapesAgree a b = true :=
  cluster_has_one_shape_iff (l := bridged) (by decide +kernel) rfl 1

/-- Not all nodes of a cluster that have a shape agree. -/
theorem not_forall_cluster_has_one_shape :
    ¬ ∀ (l : List Step) (c : Graph) (a b : NodeId), Step.allRegular l = true →
      (Script.scene l).graph.clusterize = c → a ∈ c.order → b ∈ c.order → c.SameCluster a b →
      c.HasShape a → c.HasShape b → c.shapesAgree a b = true := by
  intro hall
  have hagree := hall bridged bridgedCut 2 4 (by decide +kernel) rfl (by decide +kernel)
    (by decide +kernel) (by unfold SameCluster; decide +kernel) (by unfold HasShape; decide +kernel)
    (by unfold HasShape; decide +kernel)
  exact absurd hagree (by decide +kernel)

end KernelFusion.Graph
