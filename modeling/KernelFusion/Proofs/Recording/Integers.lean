/-
Operators on integers.

Operations are read as operations on whole numbers (`Operation.reckon`), apart from how constants
are computed; the result counts modulo `2 ^ 32`. Whether a constant is zero or one is looked at in
single precision, where no other integer is either. Two constants are divided at once, and what
comes of it is left open where they have no quotient.
-/
import KernelFusion.Proofs.Pass.Coordinates
import KernelFusion.Proofs.Recording.Folding

namespace KernelFusion

open List

/-! ### Words and whole numbers -/

/-- The whole number that a word of an integer type stands for. -/
def Scalar.number (type : Scalar) (w : UInt32) : ℤ :=
  match type with
  | .int => signed w
  | _ => w.toNat

/-- The operator on whole numbers. A quotient goes toward zero. -/
def Arithmetic.onNumbers : Arithmetic → ℤ → ℤ → ℤ
  | add => (· + ·)
  | sub => (· - ·)
  | mul => (· * ·)
  | div => Int.tdiv

/-- Two numbers of an integer type have a quotient: the divisor is not zero, and a signed quotient
does not overflow. -/
def Scalar.HasQuotient (type : Scalar) (x y : ℤ) : Prop :=
  y ≠ 0 ∧ (type = .int → x.tdiv y < 2 ^ 31)

/-- What the operation of a name gives on whole numbers. The negation is a difference from zero. -/
def Operation.reckon (name : String) : List ℤ → Option ℤ
  | [x] => if name = "neg" then some (0 - x) else none
  | [x, y] =>
    (([.add, .sub, .mul, .div] : List Arithmetic).find? fun f => f.operation = name).map fun f =>
      f.onNumbers x y
  | _ => none

lemma Operation.reckon_operation (f : Arithmetic) (x y : ℤ) :
    reckon f.operation [x, y] = some (f.onNumbers x y) := by
  cases f <;> simp [reckon, Arithmetic.operation]

section Words

variable {type : Scalar} {f : Arithmetic} {x y w : UInt32} {i : ℤ}

lemma word_number (type : Scalar) (w : UInt32) : word (type.number w) = w := by
  cases type with
  | int => exact word_signed w
  | float | uint | bool | void => exact word_toNat w

/-- Constant folding computes the word of the number. -/
lemma evaluate_eq_word (htype : type.Integral) (h : f.evaluate type x y = some w) :
    w = word (f.onNumbers (type.number x) (type.number y)) := by
  have hx := word_number type x
  have hy := word_number type y
  have hwords : f ≠ .div → f.onWords x y = word (f.onNumbers (type.number x) (type.number y)) := by
    intro hf
    cases f with
    | add => rw [Arithmetic.onNumbers, word_add, hx, hy, Arithmetic.onWords]
    | sub => rw [Arithmetic.onNumbers, word_sub, hx, hy, Arithmetic.onWords]
    | mul => rw [Arithmetic.onNumbers, word_mul, hx, hy, Arithmetic.onWords]
    | div => exact absurd rfl hf
  rcases htype with rfl | rfl
  · cases f with
    | div => exact (Option.some.inj h).symm.trans (word_tdiv_signed x y).symm
    | add | sub | mul => exact (Option.some.inj h).symm.trans (hwords (by decide))
  · cases f with
    | div => exact (Option.some.inj h).symm.trans (word_tdiv_toNat x y).symm
    | add | sub | mul => exact (Option.some.inj h).symm.trans (hwords (by decide))

end Words

namespace Graph

variable {g g' : Graph} {f : Arithmetic} {a b n m : NodeId} {ns : List NodeId} {op : Operation}
  {type : Scalar} {given : NodeId → UInt32} {z : Nat} {v w : UInt32} {i : ℤ}

/-! ### Values -/

/-- The value of a node, if the nodes below `z` that are no constants have the given words. A later
node is computed from its operands, each read by its own type. -/
inductive Denotes (g : Graph) (z : Nat) (given : NodeId → UInt32) : NodeId → UInt32 → Prop where
  | constant {n : NodeId} (hconst : (g.node n).isConst) : Denotes g z given n (g.node n).word
  | given {n : NodeId} (hconst : (g.node n).isConst = false) (hn : n < z) :
    Denotes g z given n (given n)
  | operation {n : NodeId} {value : Argument → UInt32} {i : ℤ} (hconst : (g.node n).isConst = false)
    (hn : z ≤ n)
    (hargs : ∀ x ∈ (g.node n).args, x.kind = .input → Denotes g z given (g.source x) (value x))
    (hi : Operation.reckon (g.node n).name (((g.node n).arguments .input).map fun x =>
      (g.node (g.source x)).type.number (value x)) = some i) : Denotes g z given n (word i)

lemma Denotes.unique (h : g.Denotes z given n v) (h' : g.Denotes z given n w) : v = w := by
  induction h generalizing w with
  | constant hconst => cases h' <;> simp_all
  | given hconst hn =>
    cases h' with
    | constant hconst' => simp_all
    | given => rfl
    | operation _ hn' => exact absurd hn (Nat.not_lt.2 hn')
  | @operation n value i hconst hn hargs hi ih =>
    cases h' with
    | constant hconst' => simp_all
    | given _ hn' => exact absurd hn' (Nat.not_lt.2 hn)
    | @operation _ value' j _ _ hargs' hj =>
      have hvalue : (((g.node n).arguments .input).map fun x =>
          (g.node (g.source x)).type.number (value x)) =
          ((g.node n).arguments .input).map fun x => (g.node (g.source x)).type.number
          (value' x) := by
        refine map_congr_left fun x hx => ?_
        obtain ⟨hx, hkind⟩ := Node.mem_arguments.1 hx
        rw [ih x hx hkind (hargs' x hx hkind)]
      rw [hvalue, hj] at hi
      rw [Option.some.inj hi]

/-- The word of an operand: that of a constant, or the one that is given. -/
def operandWord (g : Graph) (given : NodeId → UInt32) (n : NodeId) : UInt32 :=
  if (g.node n).isConst then (g.node n).word else given n

/-- The whole number that an operand stands for. -/
def operandNumber (g : Graph) (given : NodeId → UInt32) (n : NodeId) : ℤ :=
  (g.node n).type.number (g.operandWord given n)

/-- A node that operators can take: it is in the table, and its label stands for it. -/
structure IsOperand (g : Graph) (n : NodeId) : Prop extends g.Named n where
  lt_size : n < g.nodes.size

lemma isOperand_scene {l : List Step} (hl : Step.allRegular l)
    (hn : n < (Script.scene l).graph.nodes.size) : (Script.scene l).graph.IsOperand n := by
  have h := (Script.recorded hl).graph
  have hlabel := h.labelled.label n hn
  refine ⟨⟨?_, ?_⟩, hn⟩
  · rw [hlabel, h.labelled.size]
    exact hn
  · rw [hlabel, h.labelled.target n hn]

lemma denotes_operand (hnode : g'.node n = g.node n) (hn : n < z) :
    g'.Denotes z given n (g.operandWord given n) := by
  unfold operandWord
  cases hconst : (g.node n).isConst with
  | true =>
    rw [if_pos rfl, ← hnode]
    exact .constant (hnode ▸ hconst)
  | false =>
    rw [if_neg Bool.false_ne_true]
    exact .given (hnode ▸ hconst) hn

lemma denotes_insert (hns : ∀ n ∈ ns, g.IsOperand n) (hop : op.name ≠ "const")
    (hi : Operation.reckon op.name (ns.map (g.operandNumber given)) = some i) :
    (g.insert op type (g.argumentsFrom .input ns ++ g.commonShape ns)).Denotes g.nodes.size given
      g.nodes.size (word i) := by
  have hblock := filter_operands (g := g) ns
  generalize g.argumentsFrom .input ns ++ g.commonShape ns = args at hblock ⊢
  generalize hg' : g.insert op type args = g'
  have hself : g'.node g.nodes.size =
      { op, type, args, label := g.labels.size, cluster := g.current } := hg' ▸ node_insert_self
  -- the sources of the operands are the nodes they were made from
  have hsource : ∀ n ∈ ns, g'.target (g.label n) = n := by
    intro n hn
    rw [← hg', target_insert_of_ne (Nat.ne_of_lt (hns n hn).lt), (hns n hn).target]
  have hnode : ∀ n ∈ ns, g'.node n = g.node n := fun n hn =>
    hg' ▸ node_insert_of_ne (Nat.ne_of_lt (hns n hn).lt_size)
  have hvalue : ((g'.node g.nodes.size).arguments .input).map (fun x =>
      (g'.node (g'.source x)).type.number (g.operandWord given (g'.source x))) =
      ns.map (g.operandNumber given) := by
    have hmap : ((block .input (ns.map g.label)).map (·.source)).map (fun l =>
        (g'.node (g'.target l)).type.number (g.operandWord given (g'.target l))) =
        ns.map (g.operandNumber given) := by
      rw [map_source_block, map_map]
      refine map_congr_left fun n hn => ?_
      simp only [Function.comp_apply]
      rw [hsource n hn, hnode n hn]
      rfl
    have hinputs : (g'.node g.nodes.size).arguments .input = block .input (ns.map g.label) :=
      Node.arguments_of_block (by rw [hself]; exact hblock)
    rw [hinputs, ← hmap, map_map]
    rfl
  have hconst : (g'.node g.nodes.size).isConst = false := by
    rw [hself]
    simpa [Node.isConst] using hop
  have hargs : ∀ x ∈ (g'.node g.nodes.size).args, x.kind = .input →
      g'.Denotes g.nodes.size given (g'.source x) (g.operandWord given (g'.source x)) := by
    intro x hx hkind
    have hmem : x ∈ block .input (ns.map g.label) := by
      rw [← hblock, mem_filter]
      rw [hself] at hx
      exact ⟨hx, by simpa using hkind⟩
    obtain ⟨j, l, hl, rfl⟩ := mem_block.1 hmem
    obtain ⟨n, hn, rfl⟩ := mem_map.1 (mem_of_getElem? hl)
    have hn' : g'.source ⟨.input, j, g.label n⟩ = n := hsource n hn
    rw [hn']
    exact denotes_operand (hnode n hn) (hns n hn).lt_size
  refine .operation hconst (Nat.le_refl _) hargs ?_
  rw [hvalue, hself]
  exact hi

lemma denotes_of_apply {name : String} (hrun : Build.apply name ns g = .ok m g') (hns : ∀ n ∈ ns,
    g.IsOperand n)
    (hname : Text.removeSpaces name ≠ "const")
    (hi : Operation.reckon (Text.removeSpaces name) (ns.map (g.operandNumber given)) = some i) :
    g'.Denotes g.nodes.size given m (word i) := by
  rcases Build.apply_cases g name ns with ⟨e, he⟩ | ⟨-, op, o, hop, -, hok⟩
  · rw [he] at hrun
    cases hrun
  · cases hok.symm.trans hrun
    have hopname := (Operation.mem_table_of_find hop).2
    exact denotes_insert hns (hopname ▸ hname) (hopname ▸ hi)

lemma denotes_of_constant (hrun : Build.constant type w g = .ok m g') :
    g'.Denotes z given m w := by
  rcases Build.sourceWith_cases g "const" [] type [w] with ⟨e, he⟩ | ⟨-, op, hop, hok⟩
  · rw [Build.constant, he] at hrun
    cases hrun
  · cases hok.symm.trans hrun
    have hnode : (g.insertWith op type [] [w]).node g.nodes.size = _ := node_insertWith_self
    have hword : ((g.insertWith op type [] [w]).node g.nodes.size).word = w := by
      rw [hnode]
      rfl
    have hconst : ((g.insertWith op type [] [w]).node g.nodes.size).isConst := by
      rw [hnode, Node.isConst, (Operation.mem_table_of_find hop).2]
      rfl
    have hdenotes := @Denotes.constant _ z given _ hconst
    rw [hword] at hdenotes
    exact hdenotes

/-! ### Shortcuts -/

lemma operandWord_of_isConst (hconst : (g.node n).isConst) :
    g.operandWord given n = (g.node n).word := if_pos hconst

lemma Shortens.wordOf_eq {s : Shortcut} (h : g.Shortens a b f s)
    (hsame : (g.node a).type = (g.node b).type) (htype : (g.node a).type.Integral)
    (given : NodeId → UInt32) :
    s.wordOf (g.operandWord given a) (g.operandWord given b) =
      word (f.onNumbers (g.operandNumber given a) (g.operandNumber given b)) := by
  rw [operandNumber, operandNumber, ← hsame]
  exact evaluate_eq_word htype
    (h.evaluate_eq htype (hsame ▸ htype) operandWord_of_isConst operandWord_of_isConst)

/-! ### Operators -/

/-- Whatever arithmetic records denotes the word of the number. -/
lemma denotes_of_arithmetic (hrun : Build.arithmetic f a b g = .ok m g') (ha : g.IsOperand a)
    (hb : g.IsOperand b) (hsame : (g.node a).type = (g.node b).type)
    (htype : (g.node a).type.Integral) (given : NodeId → UInt32) :
    g'.Denotes g.nodes.size given m
      (word (f.onNumbers (g.operandNumber given a) (g.operandNumber given b))) := by
  have hnumber : (g.node a).type.isNumber := by
    rcases htype with h | h <;> rw [h] <;> rfl
  rw [Build.arithmetic_eq (fun _ => hnumber) fun _ => hsame ▸ hnumber] at hrun
  cases hs : g.shortcut? f a b with
  | none =>
    rw [hs] at hrun
    have hspaces : Text.removeSpaces f.operation = f.operation := by cases f <;> rfl
    refine denotes_of_apply hrun (by simp [ha, hb]) ?_ ?_
    · rw [hspaces]
      cases f <;> decide
    · rw [hspaces]
      exact Operation.reckon_operation f _ _
  | some s =>
    rw [hs] at hrun
    rw [← (shortens_of_shortcut? hs).wordOf_eq hsame htype given]
    cases s with
    | left =>
      cases hrun
      exact denotes_operand rfl ha.lt_size
    | right =>
      cases hrun
      exact denotes_operand rfl hb.lt_size
    | negation =>
      have hneg : Build.apply "neg" [b] g = .ok m g' := hrun
      have hdenotes : g'.Denotes g.nodes.size given m _ :=
        denotes_of_apply hneg (by simp [hb]) (by decide) rfl
      rwa [word_sub, operandNumber, word_number] at hdenotes
    | constant w => exact denotes_of_constant hrun

/-- For all tensors of one integer type and every operator, except for the division of constants
without a quotient: the operator succeeds with a tensor of that type, and whatever words the tensors
that are no constants have, its value is the number that the operation gives on the numbers of the
operands; exactly if signed integers do not overflow, and modulo `2 ^ 32` if they are unsigned. -/
theorem arithmetic_exact (hg : g.recording = true) (ha : g.IsOperand a) (hb : g.IsOperand b)
    (hsame : (g.node a).type = (g.node b).type) (htype : (g.node a).type.Integral)
    (f : Arithmetic) :
    (f = .div → (g.node a).isConst = true → (g.node b).isConst = true →
      (g.node a).type.HasQuotient ((g.node a).type.number (g.node a).word)
        ((g.node b).type.number (g.node b).word)) →
    ∃ m g', Build.arithmetic f a b g = .ok m g' ∧ (g'.node m).type = (g.node a).type ∧
      ∀ (given : NodeId → UInt32) (i : ℤ),
        f.onNumbers (g.operandNumber given a) (g.operandNumber given b) = i →
        (f = .div → g.operandNumber given b ≠ 0) →
        ∃ w, (∀ v, g'.Denotes g.nodes.size given m v ↔ v = w) ∧
          ((g.node a).type = .int → -2 ^ 31 ≤ i → i < 2 ^ 31 → signed w = i) ∧
          ((g.node a).type = .uint → (w.toNat : ℤ) = i % 2 ^ 32) := by
  intro _
  have hnumber : (g.node a).type.isNumber = true := by
    rcases htype with h | h <;> rw [h] <;> rfl
  obtain ⟨m, g', hrun, hresult⟩ := Build.exists_arithmetic hg hsame hnumber f
  refine ⟨m, g', hrun, hresult, fun given i hi _ =>
    ⟨word i, fun v => ?_, fun _ hlo hhi => ?_, fun _ => ?_⟩⟩
  · have hdenotes := denotes_of_arithmetic hrun ha hb hsame htype given
    rw [hi] at hdenotes
    constructor
    · exact fun hv => hv.unique hdenotes
    · rintro rfl
      exact hdenotes
  · exact signed_word (by omega) (by omega)
  · exact toNat_word_eq_emod i

/-- The integer zero and an input of integers. -/
def zeroAndInput : List Step :=
  [ .act (.constant .int 0 (.sizes [])) (some "zero"),
    .act (.input .int (.sizes [4])) (some "x") ]

/-- Their difference is a negation; at seven it is minus seven. -/
theorem arithmetic_exact_zeroAndInput :
    (Script.scene zeroAndInput).graph.shortcut? .sub 0 2 = some .negation ∧
      ∃ m g', Build.arithmetic .sub 0 2 (Script.scene zeroAndInput).graph = .ok m g' ∧
        ∃ w, (∀ v, g'.Denotes 3 (fun _ => 7) m v ↔ v = w) ∧ signed w = -7 := by
  have hl : Step.allRegular zeroAndInput = true := by decide +kernel
  have htype : ((Script.scene zeroAndInput).graph.node 0).type = .int := by decide +kernel
  have hsize : (Script.scene zeroAndInput).graph.nodes.size = 3 := by decide +kernel
  obtain ⟨m, g', hrun, -, hvalue⟩ := arithmetic_exact (Script.recorded hl).graph.recording
    (isOperand_scene (n := 0) hl (by decide +kernel))
    (isOperand_scene (n := 2) hl (by decide +kernel)) (by decide +kernel)
    (.inl htype) .sub (fun h => by cases h)
  obtain ⟨w, hdenotes, hsigned, -⟩ := hvalue (fun _ => 7) (-7) (by decide +kernel)
    (fun h => by cases h)
  rw [hsize] at hdenotes
  exact ⟨by decide +kernel, m, g', hrun, w, hdenotes, hsigned htype (by decide) (by decide)⟩

end Graph

end KernelFusion
