/-
Operators against recorded operations.

Where an operator takes a shortcut it should give what the operation would have given: a failure if
the types do not go together, and otherwise a tensor of the same type and shape. As shortcuts look
at constants only, this needs a condition on the two operands.
-/
import KernelFusion.Proofs.Recording.WellFormed

namespace KernelFusion

open List Build

lemma Operation.isNumber_of_const {op : Operation} {o : Overload} (h : op ∈ table)
    (hname : op.name = "const") (ho : o ∈ op.overloads) : o.output.isNumber := by
  have hall : ∀ op ∈ table, op.name = "const" → ∀ o ∈ op.overloads, o.output.isNumber := by
    decide +kernel
  exact hall op h hname o ho

namespace Graph

variable {g g' : Graph} {f : Arithmetic} {a b n : NodeId} {op : Operation} {type : Scalar}
  {s : Shortcut}

/-! ### Shapes -/

/-- A node that an operator may take: a constant is a number, and the sizes are numbered and
labelled. -/
structure IsTensor (g : Graph) (n : NodeId) : Prop where
  numeric : g.IsNumeric n
  sizes : ((g.node n).args.filter fun a =>
  a.kind = .shape) = block .shape ((g.node n).labels .shape)
  inside : ∀ l ∈ (g.node n).labels .shape, l < g.labels.size

/-- The shape of a node: the number of each dimension, with the node of its size. -/
def shapeOf (g : Graph) (n : NodeId) : List (Int × NodeId) :=
  ((g.node n).arguments .shape).map fun a => (a.index, g.source a)

/-- The shape that an operation on two tensors takes: that of the left one, unless it is a
scalar. -/
def jointShape (g : Graph) (a b : NodeId) : List (Int × NodeId) :=
  if g.shapeOf a = [] then g.shapeOf b else g.shapeOf a

/-- The labels that it comes from. -/
def jointLabels (g : Graph) (a b : NodeId) : List LabelId :=
  if (g.node a).labels .shape = [] then (g.node b).labels .shape else (g.node a).labels .shape

lemma IsTensor.arguments_eq (h : g.IsTensor n) :
    (g.node n).arguments .shape = block .shape ((g.node n).labels .shape) :=
  Node.arguments_of_block h.sizes

lemma IsTensor.shapeOf_eq_nil_iff (h : g.IsTensor n) :
    g.shapeOf n = [] ↔ (g.node n).labels .shape = [] := by
  rw [shapeOf, map_eq_nil_iff, h.arguments_eq, block_eq_nil_iff]

lemma jointShape_eq (ha : g.IsTensor a) (hb : g.IsTensor b) :
    g.jointShape a b = (block .shape (g.jointLabels a b)).map fun x => (x.index, g.source x) := by
  by_cases hscalar : (g.node a).labels .shape = []
  · rw [jointShape, jointLabels, if_pos (ha.shapeOf_eq_nil_iff.2 hscalar), if_pos hscalar, shapeOf,
      hb.arguments_eq]
  · rw [jointShape, jointLabels, if_neg (mt ha.shapeOf_eq_nil_iff.1 hscalar),
      if_neg hscalar, shapeOf, ha.arguments_eq]

lemma commonShape_pair (ha : g.IsTensor a) (hb : g.IsTensor b) :
    g.commonShape [a, b] = block .shape (g.jointLabels a b) := by
  rw [commonShape, jointLabels, map_cons, map_cons, map_nil, ha.arguments_eq,
    hb.arguments_eq, find?_cons, find?_cons, find?_nil]
  cases (g.node a).labels .shape with
  | cons _ _ => rfl
  | nil =>
    cases (g.node b).labels .shape with
    | cons _ _ => rfl
    | nil => rfl

lemma commonShape_single (hb : g.IsTensor b) :
    g.commonShape [b] = block .shape ((g.node b).labels .shape) := by
  rw [commonShape, map_cons, map_nil, hb.arguments_eq, find?_cons, find?_nil]
  cases (g.node b).labels .shape with
  | cons _ _ => rfl
  | nil => rfl

lemma shapeOf_insert {ns : List NodeId} {ls : List LabelId} (hls : ∀ l ∈ ls, l < g.labels.size) :
    (g.insert op type (g.argumentsFrom .input ns ++ block .shape ls)).shapeOf g.nodes.size =
      (block .shape ls).map fun a => (a.index, g.source a) := by
  have hfilter : ((g.argumentsFrom .input ns ++ block .shape ls).filter fun a => a.kind = .shape) =
      block .shape ls := by
    rw [argumentsFrom_eq, filter_append, filter_block_of_ne (by decide), filter_block_self,
      nil_append]
  rw [shapeOf, node_insert_self, Node.arguments_of_block hfilter]
  refine map_congr_left fun a ha => ?_
  have hlt : a.source < g.labels.size := by
    obtain ⟨i, l, hl, rfl⟩ := mem_block.1 ha
    exact hls l (mem_of_getElem? hl)
  exact congrArg (a.index, ·) (target_insert_of_ne (Nat.ne_of_lt hlt))

lemma isTensor_of_calls {l : List Step} (hl : Step.allRegular l) (hp : Step.allObey .complete l)
    (hn : n < (Script.scene l).graph.nodes.size) :
    (Script.scene l).graph.IsTensor n := by
  obtain ⟨hscene, ht⟩ := Script.history hl hp
  have h := hscene.graph.toRecorded
  refine ⟨fun hconst => ?_, (h.regular n).blocks .shape, fun l hl => ?_⟩
  · have hname : ((Script.scene l).graph.node n).op.name = "const" := of_decide_eq_true hconst
    have hload : ((Script.scene l).graph.node n).op.name ≠ "load" := by
      rw [hname]
      decide
    obtain ⟨o, ho, -, htype⟩ := (ht.typechecks rfl n hn).overload hload
    rw [← htype]
    exact Operation.isNumber_of_const (ht.known n hn).table hname ho
  · obtain ⟨a, ha, -, rfl⟩ := Node.mem_labels.1 hl
    rw [h.labelled.size]
    exact Nat.lt_trans (h.earlier n a ha) hn

/-! ### What an operation gives -/

/-- Do two tensors go together as operands? -/
def Compatible (g : Graph) (a b : NodeId) : Prop :=
  (g.node a).type = (g.node b).type ∧ (g.node a).type.isNumber

lemma apply_of_compatible (hg : g.recording) (ha : g.IsTensor a) (hb : g.IsTensor b)
    (hcompat : g.Compatible a b) (f : Arithmetic) :
    ∃ g', apply f.operation [a, b] g = .ok g.nodes.size g' ∧
      (g'.node g.nodes.size).type = (g.node a).type ∧
      g'.shapeOf g.nodes.size = g.jointShape a b := by
  obtain ⟨op, hok⟩ := apply_operation_eq hg hcompat.1 hcompat.2 f
  refine ⟨_, hok, by rw [node_insert_self], ?_⟩
  rw [commonShape_pair ha hb, jointShape_eq ha hb]
  refine shapeOf_insert fun l hl => ?_
  rw [jointLabels] at hl
  split at hl
  · exact hb.inside l hl
  · exact ha.inside l hl

/-! ### What a shortcut gives -/

/-- The type of what a shortcut gives. -/
def typeBy (g : Graph) (a b : NodeId) : Shortcut → Scalar
  | .left | .constant _ => (g.node a).type
  | .right | .negation => (g.node b).type

/-- The shape of what a shortcut gives. A constant is a scalar. -/
def shapeBy (g : Graph) (a b : NodeId) : Shortcut → List (Int × NodeId)
  | .left => g.shapeOf a
  | .right | .negation => g.shapeOf b
  | .constant _ => []

lemma isNumber_of_shortcut? (ha : g.IsNumeric a) (hs : g.shortcut? f a b = some s) :
    (g.node a).type.isNumber ∨ (g.node b).type.isNumber ∧ s = .left := by
  cases shortens_of_shortcut? hs with
  | addRight h | subNegation h | mulRight h | divZero h => exact .inl (isNumber_of_isValue h)
  | addLeft h | subLeft h | mulLeft h | divLeft h => exact .inr ⟨isNumber_of_isValue h, rfl⟩
  | mulZero _ h => exact .inl h
  | computed h _ _ => exact .inl (ha h)

lemma negation_of_isNumber (hg : g.recording) (hb : g.IsTensor b)
    (hnumber : (g.node b).type.isNumber) : ∃ g', apply "neg" [b] g = .ok g.nodes.size g' ∧
      (g'.node g.nodes.size).type = (g.node b).type ∧ g'.shapeOf g.nodes.size = g.shapeOf b := by
  obtain ⟨op, hok⟩ := apply_neg_eq hg hnumber
  refine ⟨_, hok, by rw [node_insert_self], ?_⟩
  rw [commonShape_single hb, shapeOf_insert hb.inside, ← hb.arguments_eq, shapeOf]

lemma constant_of_isNumber (hg : g.recording) (htype : type.isNumber) (w : UInt32) :
    ∃ g', constant type w g = .ok g.nodes.size g' ∧
      (g'.node g.nodes.size).type = type ∧ g'.shapeOf g.nodes.size = [] := by
  obtain ⟨op, hok⟩ := constant_eq hg htype w
  refine ⟨_, hok, by rw [node_insertWith_self], ?_⟩
  rw [shapeOf, node_insertWith_self]
  rfl

/-- Does the shortcut end in a failure? -/
def FailsBy (g : Graph) (b : NodeId) (s : Shortcut) : Prop :=
  s = .negation ∧ ¬ (g.node b).type.isNumber

lemma arithmetic_of_failsBy (ha : g.IsTensor a) (hb : g.IsTensor b)
    (hs : g.shortcut? f a b = some s)
    (hfails : g.FailsBy b s) : ∃ e, arithmetic f a b g = .error e g := by
  obtain ⟨rfl, hnumber⟩ := hfails
  rw [arithmetic_eq ha.numeric hb.numeric, hs]
  exact apply_neg_refused hnumber

/-- What a shortcut returns: its type and its shape. -/
lemma arithmetic_of_shortcut (hg : g.recording) (ha : g.IsTensor a) (hb : g.IsTensor b)
    (hs : g.shortcut? f a b = some s) (hfails : ¬ g.FailsBy b s) :
    ∃ m g', arithmetic f a b g = .ok m g' ∧
      (g'.node m).type = g.typeBy a b s ∧ g'.shapeOf m = g.shapeBy a b s := by
  rw [arithmetic_eq ha.numeric hb.numeric, hs]
  cases s with
  | left => exact ⟨a, g, rfl, rfl, rfl⟩
  | right => exact ⟨b, g, rfl, rfl, rfl⟩
  | negation =>
    have hnumber := Decidable.not_not.1 fun h => hfails ⟨rfl, h⟩
    exact ⟨_, negation_of_isNumber hg hb hnumber⟩
  | constant w =>
    have hnumber : (g.node a).type.isNumber := by
      rcases isNumber_of_shortcut? ha.numeric hs with h | ⟨-, h⟩
      · exact h
      · cases h
    exact ⟨_, constant_of_isNumber hg hnumber w⟩

/-! ### The two compared -/

/-- The operator does for two operands what its operation would do: it fails where the operation
fails, and otherwise it gives a tensor of the same type and the same shape. -/
structure FoldsFaithfully (g : Graph) (f : Arithmetic) (a b : NodeId) : Prop where
  refuses : ∀ e g', apply f.operation [a, b] g = .error e g' →
    ∃ e' g'', arithmetic f a b g = .error e' g''
  agrees : ∀ n g', apply f.operation [a, b] g = .ok n g' →
    ∃ m g'', arithmetic f a b g = .ok m g'' ∧
      (g''.node m).type = (g'.node n).type ∧ g''.shapeOf m = g'.shapeOf n

lemma foldsFaithfully_of_no_shortcut (ha : g.IsTensor a) (hb : g.IsTensor b)
    (hs : g.shortcut? f a b = none) : g.FoldsFaithfully f a b := by
  have heq : arithmetic f a b g = apply f.operation [a, b] g := by
    rw [arithmetic_eq ha.numeric hb.numeric, hs]
    rfl
  exact ⟨fun e g' h => ⟨e, g', heq.trans h⟩, fun n g' h => ⟨n, g', heq.trans h, rfl, rfl⟩⟩

section

variable (hg : g.recording) (ha : g.IsTensor a) (hb : g.IsTensor b)
  (hs : g.shortcut? f a b = some s)

include hg ha hb hs

/-- Folding is faithful where the shortcut has the joint shape. -/
lemma foldsFaithfully_iff_of_compatible (hcompat : g.Compatible a b) :
    g.FoldsFaithfully f a b ↔ g.shapeBy a b s = g.jointShape a b := by
  obtain ⟨g₁, happly, htype₁, hshape₁⟩ := apply_of_compatible hg ha hb hcompat f
  have hfails : ¬ g.FailsBy b s := fun h => h.2 (hcompat.1 ▸ hcompat.2)
  obtain ⟨m, g₂, harith, htype₂, hshape₂⟩ := arithmetic_of_shortcut hg ha hb hs hfails
  have htype : g.typeBy a b s = (g.node a).type := by
    cases s with
    | left | constant _ => rfl
    | right | negation => exact hcompat.1.symm
  rw [← hshape₁, ← hshape₂]
  constructor
  · intro h
    obtain ⟨m', g₂', harith', -, hshape⟩ := h.agrees _ _ happly
    cases harith.symm.trans harith'
    exact hshape
  · intro hshape
    refine ⟨fun e g' h => ?_, fun n g' h => ?_⟩
    · rw [happly] at h
      cases h
    · cases happly.symm.trans h
      exact ⟨m, g₂, harith, htype₂.trans (htype.trans htype₁.symm), hshape⟩

lemma foldsFaithfully_iff_of_not_compatible (hcompat : ¬ g.Compatible a b) :
    g.FoldsFaithfully f a b ↔ g.FailsBy b s := by
  obtain ⟨e, happly⟩ := apply_operation_refused hcompat f
  constructor
  · intro h
    by_contra hfails
    obtain ⟨m, g₂, harith, -⟩ := arithmetic_of_shortcut hg ha hb hs hfails
    obtain ⟨e', g', herror⟩ := h.refuses _ _ happly
    rw [harith] at herror
    cases herror
  · intro hfails
    obtain ⟨e', herror⟩ := arithmetic_of_failsBy ha hb hs hfails
    refine ⟨fun _ _ _ => ⟨e', g, herror⟩, fun n g' h => ?_⟩
    rw [happly] at h
    cases h

end

/-- For all tensors and every operator: the operator does what its operation would do if and only if
each shortcut that it takes is either a negation that fails, of an operand that is no number, or is
taken between tensors of one type and gives the shape that the operation would have had. -/
theorem foldsFaithfully_iff (hg : g.recording = true) (ha : g.IsTensor a) (hb : g.IsTensor b)
    (f : Arithmetic) : g.FoldsFaithfully f a b ↔ ∀ s, g.shortcut? f a b = some s →
      s = .negation ∧ ¬ (g.node b).type.isNumber = true ∨
        (g.node a).type = (g.node b).type ∧ g.shapeBy a b s = g.jointShape a b := by
  cases hs : g.shortcut? f a b with
  | none => exact iff_of_true (foldsFaithfully_of_no_shortcut ha hb hs) fun s h => by cases h
  | some s =>
    have hall : ∀ P : Shortcut → Prop, (∀ s', some s = some s' → P s') ↔ P s :=
      fun P => ⟨fun h => h s rfl, fun h s' hs' => Option.some.inj hs' ▸ h⟩
    rw [hall]
    by_cases hcompat : g.Compatible a b
    · rw [foldsFaithfully_iff_of_compatible hg ha hb hs hcompat]
      refine ⟨fun h => .inr ⟨hcompat.1, h⟩, fun h => h.elim (fun hfails => ?_) And.right⟩
      exact absurd (hcompat.1 ▸ hcompat.2) hfails.2
    · rw [foldsFaithfully_iff_of_not_compatible hg ha hb hs hcompat]
      refine ⟨.inl, fun h => h.elim id fun hsame => absurd ⟨hsame.1, ?_⟩ hcompat⟩
      rcases isNumber_of_shortcut? ha.numeric hs with h | ⟨h, -⟩
      · exact h
      · rw [hsame.1]
        exact h

/-- A zero of the shape of an input, and the input. -/
def paddedSum : List Step :=
  [ .act (.constant .int 4 (.sizes [])) (some "n"),
    .act (.constant .float 0 (.tensors ["n"])) (some "zero"),
    .act (.input .float (.tensors ["n"])) (some "x") ]

theorem foldsFaithfully_paddedSum :
    (Script.scene paddedSum).graph.shortcut? .add 1 2 = some .right ∧
      (Script.scene paddedSum).graph.FoldsFaithfully .add 1 2 := by
  have hl : Step.allRegular paddedSum = true := by decide +kernel
  have hp : Step.allObey .complete paddedSum = true := by decide +kernel
  have hright : (Script.scene paddedSum).graph.shortcut? .add 1 2 = some .right := by decide +kernel
  refine ⟨hright, (foldsFaithfully_iff (Script.recorded hl).graph.recording
    (isTensor_of_calls hl hp (by decide +kernel))
    (isTensor_of_calls hl hp (by decide +kernel)) .add).2 ?_⟩
  intro s hs
  cases hright.symm.trans hs
  exact .inr (by decide +kernel)

/-- The integer zero and a fraction. -/
def mixedSum : List Step :=
  [ .act (.constant .int 0 (.sizes [])) (some "a"),
    .act (.constant .float 0x3fc00000 (.sizes [])) (some "b") ]

/-- The sum of the integer zero and a fraction is the fraction, though no operation takes such
operands. -/
theorem not_foldsFaithfully_mixedSum : ¬ ∀ l : List Step, Step.allRegular l = true →
    Step.allObey .complete l = true → ∀ f a b, a < (Script.scene l).graph.nodes.size →
      b < (Script.scene l).graph.nodes.size → (Script.scene l).graph.FoldsFaithfully f a b := by
  intro h
  have hl : Step.allRegular mixedSum = true := by decide +kernel
  have hp : Step.allObey .complete mixedSum = true := by decide +kernel
  have hfaithful := h mixedSum hl hp .add 0 1 (by decide +kernel) (by decide +kernel)
  have hright : (Script.scene mixedSum).graph.shortcut? .add 0 1 = some .right := by decide +kernel
  have hcompat : ¬ (Script.scene mixedSum).graph.Compatible 0 1 :=
    fun hcompat => absurd hcompat.1 (by decide +kernel)
  have hfails := (foldsFaithfully_iff_of_not_compatible (Script.recorded hl).graph.recording
    (isTensor_of_calls hl hp (by decide +kernel))
    (isTensor_of_calls hl hp (by decide +kernel)) hright hcompat).1 hfaithful
  exact absurd hfails.1 (by decide)

end Graph

end KernelFusion
