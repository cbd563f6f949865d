/-
Runs, step by step.

Binding the inputs gives every input node its memory, and every size of its declared shape the size
at the same place of the shape handed in. From then on the value of a size does not change,
whatever kernels run.
-/
import KernelFusion.Device.Execute
import KernelFusion.Proofs.Build.Outcome
import KernelFusion.Proofs.Graph.Listing
import Mathlib.Data.List.Induction

namespace KernelFusion

open List Bindings

/-! ### Outputs by place -/

section Outputs

variable {slot : Int} {b : Buffer} {outs : List (Int × Buffer)} {q : Int × Buffer}

/-- Inserting an output replaces the one in its slot and keeps the others. -/
lemma mem_insertOutput (h : outs.Pairwise fun q r => q.1 < r.1) :
    q ∈ insertOutput slot b outs ↔ q = (slot, b) ∨ (q ∈ outs ∧ q.1 ≠ slot) := by
  induction outs with
  | nil => simp [insertOutput]
  | cons r rest ih =>
    obtain ⟨hr, hrest⟩ := pairwise_cons.1 h
    obtain ⟨s, c⟩ := r
    rw [insertOutput]
    split
    · rename_i hlt
      have hall : ∀ r ∈ (s, c) :: rest, r.1 ≠ slot := by
        intro r hr'
        rcases mem_cons.1 hr' with rfl | hr'
        · exact (Int.ne_of_lt hlt).symm
        · exact (Int.ne_of_lt (Int.lt_trans hlt (hr r hr'))).symm
      rw [mem_cons]
      exact or_congr Iff.rfl ⟨fun hq => ⟨hq, hall q hq⟩, And.left⟩
    · split
      · rename_i heq
        subst heq
        have hne : ∀ r ∈ rest, r.1 ≠ slot := fun r hr' => (Int.ne_of_lt (hr r hr')).symm
        rw [mem_cons, mem_cons]
        refine or_congr Iff.rfl ⟨fun hq => ⟨.inr hq, hne q hq⟩, ?_⟩
        rintro ⟨rfl | hq, hqs⟩
        · exact absurd rfl hqs
        · exact hq
      · rename_i hne
        have hs : s ≠ slot := fun heq => hne heq.symm
        rw [mem_cons, ih hrest, mem_cons]
        constructor
        · rintro (rfl | rfl | ⟨hq, hqs⟩)
          · exact .inr ⟨.inl rfl, hs⟩
          · exact .inl rfl
          · exact .inr ⟨.inr hq, hqs⟩
        · rintro (rfl | ⟨rfl | hq, hqs⟩)
          · exact .inr (.inl rfl)
          · exact .inl rfl
          · exact .inr (.inr ⟨hq, hqs⟩)

lemma pairwise_insertOutput (h : outs.Pairwise fun q r => q.1 < r.1) :
    (insertOutput slot b outs).Pairwise fun q r => q.1 < r.1 := by
  induction outs with
  | nil => exact pairwise_singleton _ _
  | cons r rest ih =>
    obtain ⟨hr, hrest⟩ := pairwise_cons.1 h
    obtain ⟨s, c⟩ := r
    rw [insertOutput]
    split
    · rename_i hlt
      refine pairwise_cons.2 ⟨fun r hr' => ?_, h⟩
      rcases mem_cons.1 hr' with rfl | hr'
      · exact hlt
      · exact Int.lt_trans hlt (hr r hr')
    · split
      · rename_i heq
        subst heq
        exact pairwise_cons.2 ⟨hr, hrest⟩
      · rename_i hlt hne
        refine pairwise_cons.2 ⟨fun r hr' => ?_, ih hrest⟩
        rcases (mem_insertOutput hrest).1 hr' with rfl | ⟨hr', -⟩
        · show s < slot
          omega
        · exact hr r hr'

end Outputs

/-! ### Sizes -/

/-- The nodes that give the sizes of a node, by ascending index. -/
def Graph.declared (g : Graph) (n : NodeId) : List NodeId :=
  ((g.node n).arguments .shape).map g.source

/-- The nodes whose memory the caller hands in. -/
def Graph.inputNodes (g : Graph) : List NodeId := g.order.filter fun n => (g.node n).role = .input

namespace Bindings

variable {g : Graph} {bound bound' : Bindings} {n : NodeId} {ns : List NodeId}
  {inputs : List Buffer} {i : Nat} {shape : List Int} {q : NodeId × Buffer}

/-- The value that a node has as a size. -/
def value (bound : Bindings) (g : Graph) (n : NodeId) : Int := (bound.size g n).1

lemma value_of_isConst (h : (g.node n).isConst) : bound.value g n = signed (g.node n).word := by
  rw [value, size, if_pos h]

lemma value_of_not_isConst (h : (g.node n).isConst = false) :
    bound.value g n = (bound.sizes.lookup n).getD 0 := by
  rw [value, size, if_neg (by simp [h])]
  cases bound.sizes.lookup n with
  | none => rfl
  | some v => rfl

lemma value_congr (h : bound'.sizes = bound.sizes) (n : NodeId) :
    bound'.value g n = bound.value g n := by
  cases hconst : (g.node n).isConst with
  | true => rw [value_of_isConst hconst, value_of_isConst hconst]
  | false => rw [value_of_not_isConst hconst, value_of_not_isConst hconst, h]

/-- What asking for sizes leaves as it was. -/
structure SameMemory (bound bound' : Bindings) : Prop where
  buffers : bound'.buffers = bound.buffers
  temporary : bound'.temporary = bound.temporary
  outputs : bound'.outputs = bound.outputs

lemma size_snd (g : Graph) (bound : Bindings) (n : NodeId) :
    bound.SameMemory (bound.size g n).2 ∧ ∀ m, (bound.size g n).2.value g m = bound.value g m := by
  rw [size]
  split
  · exact ⟨⟨rfl, rfl, rfl⟩, fun _ => rfl⟩
  · split
    · exact ⟨⟨rfl, rfl, rfl⟩, fun _ => rfl⟩
    · rename_i hnone
      refine ⟨⟨rfl, rfl, rfl⟩, fun m => ?_⟩
      -- a size that nothing has bound counts as zero already
      cases hconst : (g.node m).isConst with
      | true => rw [value_of_isConst hconst, value_of_isConst hconst]
      | false =>
        rw [value_of_not_isConst hconst, value_of_not_isConst hconst, lookup_cons]
        cases hm : m == n with
        | true => rw [LawfulBEq.eq_of_beq hm, hnone]; rfl
        | false => rfl

lemma sizesOf_spec (g : Graph) (bound : Bindings) (ns : List NodeId) :
    (bound.sizesOf g ns).1 = ns.map (bound.value g) ∧ bound.SameMemory (bound.sizesOf g ns).2 ∧
      ∀ m, (bound.sizesOf g ns).2.value g m = bound.value g m := by
  induction ns generalizing bound with
  | nil => exact ⟨rfl, ⟨rfl, rfl, rfl⟩, fun _ => rfl⟩
  | cons n ns ih =>
    obtain ⟨hsame, hvalue⟩ := size_snd g bound n
    obtain ⟨hfst, hsame', hvalue'⟩ := ih (bound.size g n).2
    refine ⟨?_, ⟨hsame'.buffers.trans hsame.buffers, hsame'.temporary.trans hsame.temporary,
      hsame'.outputs.trans hsame.outputs⟩, fun m => (hvalue' m).trans (hvalue m)⟩
    have hcons : (bound.sizesOf g (n :: ns)).1 =
        bound.value g n :: ((bound.size g n).2.sizesOf g ns).1 := rfl
    rw [hcons, hfst, map_cons]
    exact congrArg _ (map_congr_left fun m _ => hvalue m)

lemma offset_sizesOf (g : Graph) (bound : Bindings) (ns : List NodeId) :
    (bound.sizesOf g ns).2.offset = bound.offset := by
  funext n
  rw [offset, offset, (sizesOf_spec g bound ns).2.1.buffers]

/-! ### Binding the inputs -/

/-- The sizes that an input binds: those of its declared shape, to what stands at the same place of
the shape handed in. -/
def sizesOfInput (g : Graph) (input : NodeId × Buffer) : List (NodeId × Int) :=
  (g.declared input.1).zipIdx.map fun q => (q.1, input.2.shape.getD q.2 0)

/-- A constant is bound to its own value. -/
def Accepts (g : Graph) (size : NodeId × Int) : Prop :=
  (g.node size.1).isConst → signed (g.node size.1).word = size.2

lemma bindSize_eq_ok_iff {q : NodeId × Nat} :
    bindSize g i shape bound q = .ok bound' ↔ Accepts g (q.1, shape.getD q.2 0) ∧
      bound' = { bound with sizes := (q.1, shape.getD q.2 0) :: bound.sizes } := by
  rw [bindSize]
  split
  · rename_i hbad
    obtain ⟨hconst, hne⟩ : (g.node q.1).isConst ∧
        signed (g.node q.1).word ≠ shape.getD q.2 0 := by simpa using hbad
    constructor
    · intro h
      cases h
    · rintro ⟨hacc, -⟩
      exact absurd (hacc hconst) hne
  · rename_i hgood
    have hacc : Accepts g (q.1, shape.getD q.2 0) := by
      intro hconst
      by_contra hne
      exact hgood (by simpa using ⟨hconst, hne⟩)
    exact ⟨fun h => ⟨hacc, (Except.ok.inj h).symm⟩, fun h => by rw [h.2]⟩

lemma foldlM_bindSize_eq_ok_iff {qs : List (NodeId × Nat)} :
    qs.foldlM (bindSize g i shape) bound = .ok bound' ↔
      (∀ q ∈ qs.map fun q => (q.1, shape.getD q.2 0), Accepts g q) ∧
        bound' = { bound with
          sizes := (qs.map fun q => (q.1, shape.getD q.2 0)).reverse ++ bound.sizes } := by
  induction qs generalizing bound with
  | nil =>
    constructor
    · intro h
      exact ⟨by simp, (Except.ok.inj h).symm⟩
    · rintro ⟨-, rfl⟩
      rfl
  | cons q qs ih =>
    rw [foldlM_cons, Except.bind_eq_ok]
    simp only [bindSize_eq_ok_iff, ih]
    constructor
    · rintro ⟨bound₁, ⟨hq, rfl⟩, hqs, rfl⟩
      exact ⟨by simpa using ⟨hq, by simpa using hqs⟩, by simp⟩
    · rintro ⟨hqs, rfl⟩
      rw [map_cons, forall_mem_cons] at hqs
      exact ⟨_, ⟨hqs.1, rfl⟩, hqs.2, by simp⟩

lemma foldlM_bindInput_eq_ok_iff {qs : List ((NodeId × Buffer) × Nat)} :
    qs.foldlM (bindInput g) bound = .ok bound' ↔
      (∀ q ∈ (qs.map Prod.fst).flatMap (sizesOfInput g), Accepts g q) ∧
        bound' = { bound with
          buffers := (qs.map Prod.fst).reverse ++ bound.buffers
          sizes := ((qs.map Prod.fst).flatMap (sizesOfInput g)).reverse ++ bound.sizes } := by
  induction qs generalizing bound with
  | nil =>
    constructor
    · intro h
      exact ⟨by simp, (Except.ok.inj h).symm⟩
    · rintro ⟨-, rfl⟩
      rfl
  | cons q qs ih =>
    have hbind : ∀ bound₁, bindInput g bound q = .ok bound₁ ↔
        (∀ s ∈ sizesOfInput g q.1, Accepts g s) ∧ bound₁ = { bound with
          buffers := q.1 :: bound.buffers
          sizes := (sizesOfInput g q.1).reverse ++ bound.sizes } := fun bound₁ =>
      foldlM_bindSize_eq_ok_iff
    rw [foldlM_cons, Except.bind_eq_ok]
    simp only [hbind, ih, map_cons, flatMap_cons, mem_append]
    constructor
    · rintro ⟨bound₁, ⟨hq, rfl⟩, hqs, rfl⟩
      exact ⟨fun s hs => hs.elim (hq s) (hqs s), by simp⟩
    · rintro ⟨hall, rfl⟩
      exact ⟨_, ⟨fun s hs => hall s (.inl hs), rfl⟩, fun s hs => hall s (.inr hs), by simp⟩

lemma ofInputs_eq_ok_iff : ofInputs g inputs = .ok bound ↔
    g.inputNodes.length = inputs.length ∧
      (∀ q ∈ (g.inputNodes.zip inputs).flatMap (sizesOfInput g), Accepts g q) ∧
      bound = { buffers := (g.inputNodes.zip inputs).reverse
                sizes := ((g.inputNodes.zip inputs).flatMap (sizesOfInput g)).reverse } := by
  have hfold : ∀ bound, ((g.inputNodes.zip inputs).zipIdx.foldlM (bindInput g) {}) = .ok bound ↔
      (∀ q ∈ (g.inputNodes.zip inputs).flatMap (sizesOfInput g), Accepts g q) ∧
        bound = { buffers := (g.inputNodes.zip inputs).reverse
                  sizes := ((g.inputNodes.zip inputs).flatMap (sizesOfInput g)).reverse } := by
    intro bound
    rw [foldlM_bindInput_eq_ok_iff]
    simp
  show (if g.inputNodes.length = inputs.length then
    (g.inputNodes.zip inputs).zipIdx.foldlM (bindInput g) {} else _) = _ ↔ _
  split
  · rename_i hlen
    rw [hfold]
    exact ⟨fun h => ⟨hlen, h⟩, fun h => h.2⟩
  · rename_i hlen
    constructor
    · intro h
      cases h
    · rintro ⟨hlen', -⟩
      exact absurd hlen' hlen

lemma mem_sizesOfInput {v : Int} :
    (n, v) ∈ sizesOfInput g q ↔
      ∃ i : Nat, (g.declared q.1)[i]? = some n ∧ v = q.2.shape.getD i 0 := by
  rw [sizesOfInput, mem_map]
  constructor
  · rintro ⟨⟨m, i⟩, hm, heq⟩
    obtain ⟨rfl, rfl⟩ := Prod.mk.inj heq
    exact ⟨i, mem_zipIdx_iff_getElem?.1 hm, rfl⟩
  · rintro ⟨i, hi, rfl⟩
    exact ⟨(n, i), mem_zipIdx_iff_getElem?.2 hi, rfl⟩

lemma exists_of_value (h : ofInputs g inputs = .ok bound) (hconst : (g.node n).isConst = false)
    (hq : q ∈ g.inputNodes.zip inputs) (hn : n ∈ g.declared q.1) :
    ∃ r ∈ g.inputNodes.zip inputs, ∃ j : Nat, (g.declared r.1)[j]? = some n ∧
      bound.value g n = r.2.shape.getD j 0 := by
  obtain ⟨-, -, rfl⟩ := ofInputs_eq_ok_iff.1 h
  obtain ⟨i, hi⟩ := mem_iff_getElem?.1 hn
  rw [value_of_not_isConst hconst]
  have hmem : n ∈ ((g.inputNodes.zip inputs).flatMap (sizesOfInput g)).reverse.map Prod.fst := by
    refine mem_map.2 ⟨(n, q.2.shape.getD i 0), mem_reverse.2 ?_, rfl⟩
    exact mem_flatMap.2 ⟨q, hq, mem_sizesOfInput.2 ⟨i, hi, rfl⟩⟩
  obtain ⟨v, hfound⟩ := exists_lookup_eq_some hmem
  obtain ⟨r, hr, hv⟩ := mem_flatMap.1 (mem_reverse.1 (mem_of_lookup hfound))
  obtain ⟨j, hj, rfl⟩ := mem_sizesOfInput.1 hv
  exact ⟨r, hr, j, hj, by rw [hfound, Option.getD_some]⟩

/-! ### Kernels -/

/-- The bindings when a buffer has been allocated for a node. -/
def withBuffer (bound : Bindings) (g : Graph) (n : NodeId) (b : Buffer) : Bindings :=
  { (bound.sizesOf g (g.dimensions n)).2 with
    buffers := (n, b) :: bound.buffers
    temporary := if (g.node n).role = .output then bound.temporary else b :: bound.temporary
    outputs := if (g.node n).role = .output then insertOutput (g.node n).slot b bound.outputs
      else bound.outputs }

lemma value_withBuffer (b : Buffer) (m : NodeId) :
    (bound.withBuffer g n b).value g m = bound.value g m := by
  have hsizes : (bound.withBuffer g n b).sizes = (bound.sizesOf g (g.dimensions n)).2.sizes := rfl
  rw [value_congr hsizes, (sizesOf_spec g bound (g.dimensions n)).2.2 m]

end Bindings

namespace Run

variable {g : Graph} {effect : Effect} {compiled : Bool} {bound bound' bound'' : Bindings}
  {m m' m'' : Machine} {number : Nat} {kn : Kernel} {ks before after : List Kernel} {n : NodeId}

/-- The tensor that a memory kernel allocates, and the heap with it. -/
def allocation (g : Graph) (bound : Bindings) (n : NodeId) (m : Machine) : Buffer × Heap :=
  m.heap.allocate ((g.dimensions n).map (bound.value g))

lemma memoryKernel_eq : memoryKernel g bound n m =
    .ok (bound.withBuffer g n (allocation g bound n m).1)
      { m with heap := (allocation g bound n m).2 } := by
  obtain ⟨hfst, hsame, -⟩ := sizesOf_spec g bound (g.dimensions n)
  rw [allocation, ← hfst, withBuffer, ← hsame.buffers, ← hsame.temporary, ← hsame.outputs]
  rw [memoryKernel]
  by_cases hrole : (g.node n).role = .output
  · simp only [hrole, if_true]
    rfl
  · simp only [hrole, if_false]
    rfl

/-- What a compute kernel is launched with. -/
def launch (g : Graph) (bound : Bindings) (kn : Kernel) (number : Nat) (m : Machine) : Launch :=
  { kernel := number
    scalars := kn.scalars.map
      ((bound.sizesOf g (kn.shape.map g.target)).2.scalarValue m.heap.words)
    offsets := kn.memory.map bound.offset
    shape := launchShape kn.mode ((kn.shape.map g.target).map (bound.value g)) }

lemma computeKernelWith_eq_ok_iff :
    computeKernelWith g (.ofEffect effect compiled) bound kn number m = .ok bound' m' ↔ compiled ∧
    bound' = (bound.sizesOf g (kn.shape.map g.target)).2 ∧
      m' = { heap := { m.heap with words := effect (launch g bound kn number m) m.heap.words }
             launches := m.launches ++ [launch g bound kn number m] } := by
  rw [launch, ← (sizesOf_spec g bound (kn.shape.map g.target)).1,
    ← offset_sizesOf g bound (kn.shape.map g.target)]
  cases compiled with
  | false =>
    constructor
    · intro h
      cases h
    · rintro ⟨h, -⟩
      cases h
  | true =>
    constructor
    · intro h
      cases h
      exact ⟨rfl, rfl, rfl⟩
    · rintro ⟨-, rfl, rfl⟩
      rfl

/-- One step of a run. -/
inductive Steps (g : Graph) (effect : Effect) (number : Nat) (kn : Kernel) (bound : Bindings)
    (m : Machine) : Bindings → Machine → Prop
  | memory (hkind : kn.kind = .memory) :
    Steps g effect number kn bound m
      (bound.withBuffer g kn.first (allocation g bound kn.first m).1)
      { m with heap := (allocation g bound kn.first m).2 }
  | compute (hkind : kn.kind = .compute) :
    Steps g effect number kn bound m (bound.sizesOf g (kn.shape.map g.target)).2
      { heap := { m.heap with words := effect (launch g bound kn number m) m.heap.words }
        launches := m.launches ++ [launch g bound kn number m] }

/-- The number of the next compute kernel. -/
def numberAfter (number : Nat) (ks : List Kernel) : Nat :=
  number + (ks.filter fun kn => kn.kind = .compute).length

/-- A run is a step of its first kernel and a run of the others. -/
lemma kernels_cons_eq_ok_iff :
    kernels g effect compiled bound number (kn :: ks) m = .ok bound'' m'' ↔
      ∃ bound' m', Steps g effect number kn bound m bound' m' ∧
        (kn.kind = .compute → compiled) ∧
        kernels g effect compiled bound' (numberAfter number [kn]) ks m' = .ok bound'' m'' := by
  rw [kernels, kernelsWith]
  cases hkind : kn.kind with
  | memory =>
    have hnumber : numberAfter number [kn] = number := by simp [numberAfter, hkind]
    rw [hnumber]
    dsimp only
    rw [bind_of_ok memoryKernel_eq]
    constructor
    · intro h
      exact ⟨_, _, .memory hkind, by simp, h⟩
    · rintro ⟨bound', m', hstep, -, h⟩
      cases hstep with
      | memory _ => exact h
      | compute hkind' =>
        rw [hkind] at hkind'
        cases hkind'
  | compute =>
    have hnumber : numberAfter number [kn] = number + 1 := by simp [numberAfter, hkind]
    rw [hnumber, bind_eq_ok]
    simp only [computeKernelWith_eq_ok_iff]
    constructor
    · rintro ⟨bound', m', ⟨hcompiled, rfl, rfl⟩, h⟩
      exact ⟨_, _, .compute hkind, fun _ => hcompiled, h⟩
    · rintro ⟨bound', m', hstep, hcompiled, h⟩
      cases hstep with
      | memory hkind' =>
        rw [hkind] at hkind'
        cases hkind'
      | compute _ => exact ⟨_, _, ⟨hcompiled trivial, rfl, rfl⟩, h⟩

lemma kernels_append_eq_ok_iff :
    kernels g effect compiled bound number (before ++ after) m = .ok bound'' m'' ↔
      ∃ bound' m', kernels g effect compiled bound number before m = .ok bound' m' ∧
        kernels g effect compiled bound' (numberAfter number before) after m' =
        .ok bound'' m'' := by
  induction before generalizing bound number m with
  | nil =>
    constructor
    · intro h
      exact ⟨bound, m, rfl, h⟩
    · rintro ⟨bound', m', h, h'⟩
      cases h
      exact h'
  | cons kn before ih =>
    have hnumber : numberAfter (numberAfter number [kn]) before = numberAfter number
      (kn :: before) := by
      by_cases hkind : kn.kind = .compute <;> simp [numberAfter, hkind, Nat.add_assoc, Nat.add_comm]
    rw [cons_append, kernels_cons_eq_ok_iff]
    simp only [kernels_cons_eq_ok_iff, ih, hnumber]
    constructor
    · rintro ⟨bound₁, m₁, hstep, hcompiled, bound₂, m₂, hbefore, hafter⟩
      exact ⟨bound₂, m₂, ⟨bound₁, m₁, hstep, hcompiled, hbefore⟩, hafter⟩
    · rintro ⟨bound₂, m₂, ⟨bound₁, m₁, hstep, hcompiled, hbefore⟩, hafter⟩
      exact ⟨bound₁, m₁, hstep, hcompiled, bound₂, m₂, hbefore, hafter⟩

/-- Induction along a run: what each kernel's step keeps, the run keeps. -/
lemma of_kernels_eq_ok {P : List Kernel → Bindings → Machine → Prop}
    (hrun : kernels g effect compiled bound number ks m = .ok bound' m') (hstart : P [] bound m)
    (hstep : ∀ before kn after bound₁ m₁ bound₂ m₂, ks = before ++ kn :: after →
      kernels g effect compiled bound number before m = .ok bound₁ m₁ → P before bound₁ m₁ →
      Steps g effect (numberAfter number before) kn bound₁ m₁ bound₂ m₂ →
      P (before ++ [kn]) bound₂ m₂) : P ks bound' m' := by
  -- induction on the kernels that have run
  induction ks using reverseRecOn generalizing bound' m' with
  | nil =>
    cases hrun
    exact hstart
  | append_singleton ks kn ih =>
    obtain ⟨bound₁, m₁, hbefore, hlast⟩ := kernels_append_eq_ok_iff.1 hrun
    obtain ⟨bound₂, m₂, hs, -, hend⟩ := kernels_cons_eq_ok_iff.1 hlast
    cases hend
    refine hstep ks kn [] bound₁ m₁ _ _ rfl hbefore (ih hbefore ?_) hs
    intro before kn' after bound₃ m₃ bound₄ m₄ hks
    exact hstep before kn' (after ++ [kn]) bound₃ m₃ bound₄ m₄ (by rw [hks]; simp)

lemma steps_of_kernels_eq_ok
    (hrun : kernels g effect compiled bound number (before ++ kn :: after) m = .ok bound' m') :
    ∃ bound₁ m₁ bound₂ m₂, kernels g effect compiled bound number before m = .ok bound₁ m₁ ∧
      Steps g effect (numberAfter number before) kn bound₁ m₁ bound₂ m₂ ∧
      kernels g effect compiled bound number (before ++ [kn]) m = .ok bound₂ m₂ := by
  obtain ⟨bound₁, m₁, hbefore, hrest⟩ := kernels_append_eq_ok_iff.1 hrun
  obtain ⟨bound₂, m₂, hs, hcompiled, -⟩ := kernels_cons_eq_ok_iff.1 hrest
  exact ⟨bound₁, m₁, bound₂, m₂, hbefore, hs, kernels_append_eq_ok_iff.2
    ⟨bound₁, m₁, hbefore, kernels_cons_eq_ok_iff.2 ⟨bound₂, m₂, hs, hcompiled, rfl⟩⟩⟩

section

variable (hrun : kernels g effect compiled bound number ks m = .ok bound' m')

include hrun

lemma value_of_kernels_eq_ok (n : NodeId) : bound'.value g n = bound.value g n := by
  refine of_kernels_eq_ok (P := fun _ b _ => b.value g n = bound.value g n) hrun rfl ?_
  intro before kn after bound₁ m₁ bound₂ m₂ _ _ ih hs
  cases hs with
  | memory _ => exact (value_withBuffer _ n).trans ih
  | compute _ => exact ((sizesOf_spec g bound₁ _).2.2 n).trans ih

lemma launches_of_kernels_eq_ok :
    ∃ ls, m'.launches = m.launches ++ ls := by
  refine of_kernels_eq_ok (P := fun _ _ m' => ∃ ls, m'.launches = m.launches ++ ls) hrun
    ⟨[], by simp⟩ ?_
  rintro before kn after bound₁ m₁ bound₂ m₂ - - ⟨ls, hls⟩ hs
  cases hs with
  | memory _ => exact ⟨ls, hls⟩
  | compute _ =>
    exact ⟨ls ++ [launch g bound₁ kn (numberAfter number before) m₁], by simp [hls]⟩

lemma buffers_of_kernels_eq_ok :
    ∃ more, bound'.buffers = more ++ bound.buffers := by
  refine of_kernels_eq_ok (P := fun _ b _ => ∃ more, b.buffers = more ++ bound.buffers) hrun
    ⟨[], rfl⟩ ?_
  rintro before kn after bound₁ m₁ bound₂ m₂ - - ⟨more, hmore⟩ hs
  cases hs with
  | memory _ =>
    exact ⟨(kn.first, (allocation g bound₁ kn.first m₁).1) :: more, by
      rw [withBuffer, hmore, cons_append]⟩
  | compute _ => exact ⟨more, (sizesOf_spec g bound₁ _).2.1.buffers.trans hmore⟩

end

lemma forM_free (bs : List Buffer) (m : Machine) :
    bs.forM free m = .ok ⟨⟩ { m with heap := bs.foldl Heap.free m.heap } := by
  induction bs generalizing m with
  | nil => rfl
  | cons b bs ih => exact (bind_of_ok rfl).trans (ih _)

/-- A run binds, executes, frees what is temporary and returns the outputs. -/
lemma execute_eq_ok_iff {inputs outs : List Buffer} :
    execute g ks effect compiled inputs m = .ok outs m' ↔
      ∃ bound bound' m₁, ofInputs g inputs = .ok bound ∧
        kernels g effect compiled bound 0 ks m = .ok bound' m₁ ∧
        m' = { m₁ with heap := bound'.temporary.foldl Heap.free m₁.heap } ∧
        outs = bound'.outputs.map (·.2) := by
  rw [execute, executeWith, kernels]
  cases hbind : ofInputs g inputs with
  | error e =>
    constructor
    · intro h
      cases h
    · rintro ⟨bound, bound', m₁, h, -⟩
      cases h
  | ok bound =>
    dsimp only
    rw [bind_eq_ok]
    constructor
    · rintro ⟨bound', m₁, hrun, h⟩
      rw [bind_of_ok (forM_free _ m₁)] at h
      cases h
      exact ⟨bound, bound', m₁, rfl, hrun, rfl, rfl⟩
    · rintro ⟨bound₀, bound', m₁, hbound, hrun, rfl, rfl⟩
      obtain rfl := Except.ok.inj hbound
      refine ⟨bound', m₁, hrun, ?_⟩
      rw [bind_of_ok (forM_free _ m₁)]
      rfl

end Run

end KernelFusion
