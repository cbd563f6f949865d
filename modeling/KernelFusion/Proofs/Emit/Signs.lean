/-
Signs in the lines of a kernel.

A brace opens or closes a block, and a dollar sign makes the text that replaces a name a format.
Operations, names and numbers have none of them, and no operation has a negative cost, so the lines
of a kernel are plain (`Lined.plain`).
-/
import KernelFusion.Proofs.Emit.Rendering
import KernelFusion.Proofs.Text.Braces

namespace KernelFusion

open List Text Operation

/-! ### Texts without signs -/

section Texts

variable {names args : List String} {op : Operation} {type : Scalar} {var text e : String}
  {c : Char}

lemma isSign_of_isWordChar (h : isWordChar c) : isSign c = false := by
  by_contra hsign
  simp only [isSign, Bool.not_eq_false, Bool.or_eq_true, decide_eq_true_eq] at hsign
  rcases hsign with (rfl | rfl) | rfl <;> exact absurd h (by decide)

lemma signs_of_isOperandChar (h : ∀ c ∈ text.toList, isOperandChar c) : signs text = [] := by
  refine signs_eq_nil_iff.2 fun c hc => ?_
  have hcases : (isWordChar c ∨ c = '.') ∨ c = '-' := by simpa [isOperandChar] using h c hc
  rcases hcases with (hword | rfl) | rfl
  · exact isSign_of_isWordChar hword
  · rfl
  · rfl

lemma signs_toString (n : Nat) : signs (toString n) = [] :=
  signs_of_isOperandChar fun _ => isOperandChar_of_mem_toString

lemma signs_operand (h : ∀ t ∈ args, signs t = []) (i : Nat) : signs (operand args i) = [] := by
  rw [operand, getD_eq_getElem?_getD]
  cases hi : args[i]? with
  | none => rfl
  | some t => exact h t (mem_of_getElem? hi)

lemma signs_intercalate (h : ∀ t ∈ args, signs t = []) : signs (", ".intercalate args) = [] := by
  induction args with
  | nil => rfl
  | cons t args ih =>
    have hrest := ih fun t' ht' => h t' (mem_cons_of_mem _ ht')
    by_cases hnil : args = []
    · subst hnil
      simpa using h t mem_cons_self
    · rw [String.intercalate_cons_of_ne_nil hnil, signs_append, signs_append, hrest,
        h t mem_cons_self]
      rfl

lemma Operation.signs_code (h : op ∈ table) : signs op.code = [] := by
  have hall : ∀ op ∈ table, signs op.code = [] := by decide +kernel
  exact hall op h

lemma Operation.signs_expression (h : op ∈ table) (hargs : ∀ t ∈ args, signs t = []) :
    signs (op.expression args) = [] := by
  have hcode := signs_code h
  have hoperand := signs_operand hargs
  have hall := signs_intercalate hargs
  have hsigns : signs " " = [] ∧ signs "(" = [] ∧ signs ")" = [] ∧ signs "*(" = [] ∧
    signs "*)&" = [] ∧
      signs "" = [] := ⟨rfl, rfl, rfl, rfl, rfl, rfl⟩
  cases hkind : op.kind
  all_goals simp [expression, hkind, hcode, hoperand, hall, hsigns]

end Texts

/-! ### Lines without signs -/

namespace Graph

variable {g : Graph} {k : Kernel} {n : NodeId} {l : List NodeId} {lines : List Line} {line : Line}
  {type : Scalar}

lemma Lists.signs_valueName (hl : g.Lists l) (n : NodeId) : signs (g.valueName g.names n) = [] :=
  signs_of_isOperandChar fun _ => hl.isOperandChar_of_mem_valueName

lemma Lists.signs_operands (hl : g.Lists l) : ∀ t ∈ (g.operands g.names k n).texts,
    signs t = [] := by
  intro t ht
  rw [operands, mem_append] at ht
  rcases ht with ht | ht
  · obtain ⟨m, -, rfl⟩ := mem_map.1 ht
    exact hl.signs_valueName m
  · obtain ⟨m, -, rfl⟩ := mem_map.1 ht
    rw [valueOperand]
    split
    · rw [signs_append, signs_append, signs_toString]
      rfl
    · exact hl.signs_valueName m

lemma Lists.signs_accessParts (hl : g.Lists l) (hop : (g.node n).op ∈ table) (name : String)
    (type : Scalar) : signs (g.accessParts k n name (g.operands g.names k n) type).1.2.1 = [] := by
  have hoperand := signs_operand (hl.signs_operands (k := k) (n := n))
  have haddress : signs (g.address k n (g.operands g.names k n).texts) = [] := by
    rw [address, signs_append, signs_append, signs_append, signs_toString, hoperand]
    rfl
  have hread : ∀ (type : Scalar) (t : String), signs t = [] → signs (readAs type t) = [] := by
    intro type t ht
    cases type <;> simp only [readAs, signs_append, ht] <;> rfl
  have hword : ∀ (type : Scalar) (t : String), signs t = [] → signs (asWord type t) = [] := by
    intro type t ht
    cases type <;> simp only [asWord, signs_append, ht] <;> rfl
  have htype : ∀ type : Scalar, signs type.name = [] := fun type => by cases type <;> rfl
  rw [accessParts]
  split
  · refine hread type _ ?_
    rw [signs_append, signs_append, haddress]
    rfl
  split
  · simp only [signs_append, haddress, hword _ _ (hoperand 2)]
    rfl
  · simp only [signs_append, haddress, hoperand, htype, signs_code hop]
    rfl

lemma Lists.signs_plainExpression (hl : g.Lists l) (hop : (g.node n).op ∈ table) :
    signs (g.plainExpression n (g.operands g.names k n).texts).1 = [] := by
  have hexpression := signs_expression hop (hl.signs_operands (k := k) (n := n))
  rw [plainExpression]
  split
  · rw [signs_append, signs_code hop, signs_toString]
    rfl
  · exact signs_of_isOperandChar fun _ => Node.isOperandChar_of_mem_constantText
  · exact hexpression
  · exact hexpression
  · exact hexpression

/-- No expression holds a brace. -/
lemma IsLine.signs_expression (h : g.IsLine k n type line) (hl : g.Lists l)
    (hop : (g.node n).op ∈ table) : signs line.expression = [] := by
  cases hcontrol : (g.node n).op.isControl with
  | true =>
    have hempty : line.expression = "" := by
      rcases isControl_iff.1 hcontrol with hname | hname | hname | hname
      · exact (h.of_loop_begin hname).2.1
      · exact (h.of_block_end (.inl hname)).2.1
      · exact (h.of_if_begin hname).2.1
      · exact (h.of_block_end (.inr hname)).2.1
    rw [hempty]
    rfl
  | false =>
    cases haccess : (g.node n).op.kind.accesses with
    | true =>
      have hexpression : line.expression
          = (g.accessParts k n (g.names.of n) (g.operands g.names k n) type).1.2.1 :=
        congrArg (fun x => x.1.2.1) (h.of_access hcontrol haccess)
      rw [hexpression]
      exact hl.signs_accessParts hop _ _
    | false =>
      rw [(h.of_plain hcontrol haccess).2.1]
      exact hl.signs_plainExpression hop

/-- No line of a kernel has a negative cost or a dollar sign in its expression. -/
lemma Lined.plain (h : g.Lined k lines) : ∀ line ∈ lines, line.Plain := by
  have hweight : ∀ op ∈ Operation.table, Cost.zero ≤ op.weight := by decide +kernel
  intro line hmem
  obtain ⟨i, hi⟩ := mem_iff_getElem?.1 hmem
  obtain ⟨n, type, hn, hline⟩ := h.exists_node hi
  have hop := h.table n (mem_of_getElem? hn)
  refine ⟨hline.cost ▸ hweight _ hop, fun hdollar => ?_⟩
  exact absurd (signs_eq_nil_iff.1 (hline.signs_expression h.lists hop) '$' hdollar) (by decide)

end Graph

end KernelFusion
