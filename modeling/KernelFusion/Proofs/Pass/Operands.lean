/-
What a computed address is computed from.

Operators with folding drop an operand only if it is a constant, apart from a product with the
constant zero. So an address takes the index of every dimension, unless a size that is zero forgets
the dimensions in front of it.
-/
import KernelFusion.Proofs.Pass.Redirected

namespace KernelFusion

open List

namespace Graph

/-- Is the node the constant zero? -/
def isZero (g : Graph) (n : NodeId) : Bool :=
  (g.node n).isConst && match constantEquals (g.node n).type (g.node n).word 0 with
    | .ok b => b
    | .error _ => false

lemma isZero_eq (g : Graph) (n : NodeId) : g.isZero n = g.isValue n 0 := by
  rw [isZero, isValue]
  cases constantEquals (g.node n).type (g.node n).word 0 <;> rfl

/-- The node is there, and it is not the constant zero. -/
structure IsNonzero (n : NodeId) (g : Graph) : Prop where
  lt : n < g.nodes.size
  isZero : g.isZero n = false

variable {g g' : Graph} {E F : NodeId → Prop} {z : Nat} {n v c : NodeId}

lemma IsNonzero.evolves (h : IsNonzero n g) (hg : Evolves E F g g') : IsNonzero n g' := by
  refine ⟨Nat.lt_of_lt_of_le h.lt hg.size, ?_⟩
  have hzero := h.isZero
  rw [Graph.isZero, Node.isConst, Node.word] at hzero ⊢
  rwa [hg.op n h.lt, hg.type n h.lt, hg.data n h.lt]

/-- The node is there, and it is no constant. -/
structure IsVariable (c : NodeId) (g : Graph) : Prop where
  lt : c < g.nodes.size
  isConst : (g.node c).isConst = false

lemma IsVariable.evolves (h : IsVariable c g) (hg : Evolves E F g g') : IsVariable c g' := by
  refine ⟨Nat.lt_of_lt_of_le h.lt hg.size, ?_⟩
  rw [Node.isConst, hg.op c h.lt]
  exact h.isConst

/-- A node from `z` on takes `c`. -/
def Taken (z : Nat) (c : NodeId) (g : Graph) : Prop :=
  ∃ w, z ≤ w ∧ w < g.nodes.size ∧ ∃ a ∈ (g.node w).args, a.source = g.label c

lemma Taken.evolves (h : Taken z c g) (hc : c < g.nodes.size) (hg : Evolves nothing nothing g g') :
    Taken z c g' := by
  obtain ⟨w, hge, hlt, a, ha, hsource⟩ := h
  refine ⟨w, hge, Nat.lt_of_lt_of_le hlt hg.size, a, ?_, ?_⟩
  · rwa [hg.args w hlt id]
  · rw [hsource, hg.label c hc id]

/-- The node is the variable `c`, or a node from `z` on takes `c`. -/
structure Involves (z : Nat) (c v : NodeId) (g : Graph) : Prop extends IsVariable c g where
  bound : z ≤ g.nodes.size
  taken : v = c ∨ Taken z c g

lemma Involves.evolves (h : Involves z c v g) (hg : Evolves nothing nothing g g') :
    Involves z c v g' :=
  ⟨h.toIsVariable.evolves hg, Nat.le_trans h.bound hg.size, h.taken.imp_right (·.evolves h.lt hg)⟩

end Graph

namespace Build

open KernelFusion.Graph

variable {g : Graph} {z : Nat} {n m c v : NodeId} {name : String}

lemma keeps_taken_apply {ns : List NodeId} (hc : IsVariable c g) (hz : z ≤ g.nodes.size)
    (hmem : c ∈ ns) :
    Keeps (Evolves nothing nothing) (apply name ns) g fun _ => Taken z c := by
  refine keeps_apply_of fun op o _ _ => ?_
  have hevolves : Evolves nothing nothing g (g.insert op o.output
      (g.argumentsFrom .input ns ++ g.commonShape ns)) := Evolves.insert g op o.output _
  refine ⟨hevolves, g.nodes.size, hz, by simp, ?_⟩
  obtain ⟨i, hi⟩ := mem_iff_getElem?.1 (mem_map_of_mem (f := g.label) hmem)
  refine ⟨⟨.input, i, g.label c⟩, ?_, (hevolves.label c hc.lt id).symm⟩
  rw [node_insert_self, argumentsFrom_eq]
  exact mem_append_left _ (mem_block.2 ⟨i, _, hi, rfl⟩)

lemma keeps_involves_of_taken {act : Build NodeId} (h : Involves z c v g) (ht : Taken z c g)
    (hact : Keeps (Evolves nothing nothing) act g fun _ _ => True) :
    Keeps (Evolves nothing nothing) act g (Involves z c) :=
  hact.mono fun _ _ hg _ => ⟨h.toIsVariable.evolves hg, Nat.le_trans h.bound hg.size,
    .inr (ht.evolves h.lt hg)⟩

lemma keeps_involves_apply {ns : List NodeId} (hc : IsVariable c g) (hz : z ≤ g.nodes.size)
    (hmem : c ∈ ns) : Keeps (Evolves nothing nothing) (apply name ns) g (Involves z c) :=
  (keeps_taken_apply hc hz hmem).mono fun _ _ hg ht =>
    ⟨hc.evolves hg, Nat.le_trans hz hg.size, .inr ht⟩

lemma involves_self (hc : IsVariable c g) (hz : z ≤ g.nodes.size) : Involves z c c g :=
  ⟨hc, hz, .inl rfl⟩

lemma keeps_involves_add (h : Involves z c v g) (hv : v ∈ [n, m]) :
    Keeps (Evolves nothing nothing) (add n m) g (Involves z c) := by
  rcases h.taken with rfl | ht
  · have hvalue := isValue_of_not_isConst h.isConst
    refine keeps_arithmetic_of (f := .add) (fun hs => ?_) (fun hs => ?_) (fun hs => ?_)
      (fun w hs => ?_)
      (keeps_involves_apply h.toIsVariable h.bound hv)
    · cases hs with
      | addLeft hzero => rcases mem_pair.1 hv with rfl | rfl <;> simp_all
    · cases hs with
      | addRight hzero => rcases mem_pair.1 hv with rfl | rfl <;> simp_all
    · cases hs
    · cases hs with
      | computed hn hm => rcases mem_pair.1 hv with rfl | rfl <;> simp_all [h.isConst]
  · exact keeps_involves_of_taken h ht (recorder_evolves.keeps_arithmetic .add trivial trivial)

lemma keeps_involves_mul (h : Involves z c n g) (hm : IsNonzero m g) :
    Keeps (Evolves nothing nothing) (mul n m) g (Involves z c) := by
  rcases h.taken with rfl | ht
  · have hvalue := isValue_of_not_isConst h.isConst
    have hzero : g.isValue m 0 = false := by rw [← isZero_eq, hm.isZero]
    refine keeps_arithmetic_of (f := .mul) (fun _ => h) (fun hs => ?_) (fun hs => ?_)
      (fun w hs => ?_)
      (keeps_involves_apply h.toIsVariable h.bound (by simp))
    · cases hs with
      | mulRight hone => simp [hvalue] at hone
    · cases hs
    · cases hs with
      | mulZero hs => simp [hvalue, hzero] at hs
      | computed hn => simp [h.isConst] at hn
  · exact keeps_involves_of_taken h ht (recorder_evolves.keeps_arithmetic .mul trivial trivial)

/-! ### Addresses -/

section Flat

variable {mode : TensorMode} {rank d : Nat} {size? : Nat → Option NodeId}
  {indices : List (Int × NodeId)} {coordinates : List NodeId} {flat : NodeId} {dims : List Nat}

lemma keeps_involves_indexFor (hc : IsVariable c g) (hz : z ≤ g.nodes.size)
    (hindex : indexNode indices coordinates d = c) :
    Keeps (Evolves nothing nothing) (indexFor mode size? indices coordinates d) g
      fun v g' => Involves z c v g' ∧ (mode = .clamp → Taken z c g') := by
  unfold indexFor
  cases mode with
  | unchecked =>
    rw [indexNode] at hindex
    rw [hindex]
    exact ends_pure ⟨involves_self hc hz, fun h => by cases h⟩
  | clamp =>
    refine Keeps.bind (recorder_evolves.constant (n := 0) trivial .int _) fun one g₁ h₁ _ => ?_
    refine Keeps.bind (recorder_evolves.keeps_arithmetic .sub trivial trivial) fun top g₂ h₂ _ => ?_
    refine Keeps.bind (recorder_evolves.constant (n := 0) trivial .int _) fun bottom g₃ h₃ _ => ?_
    have h₀₃ : Evolves nothing nothing g g₃ := (h₁.trans h₂).trans h₃
    have hc₃ := hc.evolves h₀₃
    have hz₃ := Nat.le_trans hz h₀₃.size
    have hmem : c ∈ [indexNode indices coordinates d, bottom, top] := by simp [hindex]
    exact (keeps_taken_apply hc₃ hz₃ hmem).mono fun _ _ h₄ ht =>
      ⟨⟨hc₃.evolves h₄, Nat.le_trans hz₃ h₄.size, .inr ht⟩, fun _ => ht⟩
  | wrap => exact keeps_throw
  | zero => exact keeps_throw

lemma keeps_involves_flatFrom (h : Involves z c flat g)
    (hsizes : Taken z c g ∨ ∀ dim ∈ dims, IsNonzero ((size? dim).getD 0) g) :
    Keeps (Evolves nothing nothing) (flatFrom mode size? indices coordinates flat dims) g
      (Involves z c) := by
  rcases hsizes with ht | hsizes
  · exact keeps_involves_of_taken h ht (recorder_evolves.keeps_flatFrom _ _ _ _ _ _)
  induction dims generalizing g flat with
  | nil => exact ends_pure h
  | cons dim rest ih =>
    refine Keeps.bind (keeps_involves_mul h (hsizes dim mem_cons_self)) fun row g₁ h₁ hrow => ?_
    refine Keeps.bind (recorder_evolves.keeps_indexFor _ _ _ _ dim) fun index g₂ h₂ _ => ?_
    refine Keeps.bind (keeps_involves_add (hrow.evolves h₂) (by simp)) fun next g₃ h₃ hnext => ?_
    exact ih hnext fun i hi =>
      (((hsizes i (mem_cons_of_mem _ hi)).evolves h₁).evolves h₂).evolves h₃

lemma keeps_involves_flatFrom_of_mem (hc : IsVariable c g) (hz : z ≤ g.nodes.size) (hd : d ∈ dims)
    (hindex : indexNode indices coordinates d = c)
    (hsizes : mode = .clamp ∨ ∀ dim ∈ dims, IsNonzero ((size? dim).getD 0) g) :
    Keeps (Evolves nothing nothing) (flatFrom mode size? indices coordinates flat dims) g
      (Involves z c) := by
  induction dims generalizing g flat with
  | nil => cases hd
  | cons dim rest ih =>
    have hrest : ∀ {g'}, Evolves nothing nothing g g' →
        mode = .clamp ∨ ∀ i ∈ rest, IsNonzero ((size? i).getD 0) g' := fun hg =>
      hsizes.imp_right fun hall i hi => (hall i (mem_cons_of_mem _ hi)).evolves hg
    refine Keeps.bind (recorder_evolves.keeps_arithmetic .mul trivial trivial) fun row g₁ h₁ _ => ?_
    by_cases hdim : dim = d
    · subst hdim
      refine Keeps.bind (keeps_involves_indexFor (hc.evolves h₁) (Nat.le_trans hz h₁.size) hindex)
        fun index g₂ h₂ hinvolves => ?_
      refine Keeps.bind (keeps_involves_add hinvolves.1 (by simp)) fun next g₃ h₃ hnext => ?_
      refine keeps_involves_flatFrom hnext
        ((hrest ((h₁.trans h₂).trans h₃)).imp_left fun hclamp => ?_)
      exact (hinvolves.2 hclamp).evolves hinvolves.1.lt h₃
    · refine Keeps.bind (recorder_evolves.keeps_indexFor _ _ _ _ dim) fun index g₂ h₂ _ => ?_
      refine Keeps.bind (recorder_evolves.keeps_arithmetic .add trivial trivial)
        fun next g₃ h₃ _ => ?_
      have h₀₃ : Evolves nothing nothing g g₃ := (h₁.trans h₂).trans h₃
      exact ih (hc.evolves h₀₃) (Nat.le_trans hz h₀₃.size)
        ((mem_cons.1 hd).resolve_left fun heq => hdim heq.symm) (hrest h₀₃)

/-- A flat index involves every coordinate it is made of. -/
lemma keeps_involves_flatIndex (hc : IsVariable c g) (hz : z ≤ g.nodes.size) (hd : d < max rank 1)
    (hindex : indexNode indices coordinates d = c) (hsizes : mode = .clamp ∨
      ∀ dim < rank, 1 ≤ dim → IsNonzero ((size? dim).getD 0) g) :
    Keeps (Evolves nothing nothing) (flatIndex mode rank size? indices coordinates) g
      (Involves z c) := by
  have hrest : ∀ {g'}, Evolves nothing nothing g g' →
      mode = .clamp ∨ ∀ i ∈ range' 1 (rank - 1), IsNonzero ((size? i).getD 0) g' := fun hg =>
    hsizes.imp_right fun hall i hi => by
      rw [mem_range'_1] at hi
      exact (hall i (by omega) hi.1).evolves hg
  by_cases hzero : d = 0
  · subst hzero
    refine Keeps.bind (keeps_involves_indexFor hc hz hindex) fun first g₁ h₁ hfirst => ?_
    exact keeps_involves_flatFrom hfirst.1 ((hrest h₁).imp_left hfirst.2)
  · refine Keeps.bind (recorder_evolves.keeps_indexFor _ _ _ _ 0) fun first g₁ h₁ _ => ?_
    refine keeps_involves_flatFrom_of_mem (hc.evolves h₁) (Nat.le_trans hz h₁.size)
      ?_ hindex (hrest h₁)
    rw [mem_range'_1]
    omega

end Flat

end Build

end KernelFusion
