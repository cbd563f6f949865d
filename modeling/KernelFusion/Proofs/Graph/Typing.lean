/-
Types of nodes and of what they compute with.

A node *agrees* with its operation if the first overload that takes the types of its values gives
the type of the node. Only operations without operands that give a number of any type make an
exception.
-/
import KernelFusion.Proofs.Recording.Forms
import KernelFusion.Proofs.Recording.Recorded

namespace KernelFusion

open List Operation

namespace Operation

variable {op : Operation} {o o' : Overload} {type : Scalar}

/-- Does the operation give several types on equal operands? -/
def isAmbiguous (op : Operation) : Bool :=
  op.overloads.any fun o => op.overloads.any fun o' => o.inputs = o'.inputs && o.output ≠ o'.output

lemma output_eq (h : op.isAmbiguous = false) (ho : o ∈ op.overloads) (ho' : o' ∈ op.overloads)
    (hinputs : o.inputs = o'.inputs) : o.output = o'.output := by
  simp only [isAmbiguous, any_eq_false, Bool.not_eq_true, Bool.and_eq_false_iff,
    decide_eq_false_iff_not, not_not] at h
  exact (h o ho o' ho').resolve_left fun hne => hne hinputs

section

variable (h : op ∈ table)

include h

lemma isAmbiguous_iff : op.isAmbiguous ↔
    op.name ∈ ["load", "const_memory", "memory", "variable", "const"] := by
  have hall : ∀ op ∈ table, op.isAmbiguous ↔
      op.name ∈ ["load", "const_memory", "memory", "variable", "const"] := by decide +kernel
  exact hall op h

lemma overload?_of_isAmbiguous (hop : op.isAmbiguous) :
    op.overload? [] = some ⟨[], .float⟩ ∧ ∀ o ∈ op.overloads, o.inputs = [] := by
  have hall : ∀ op ∈ table, op.isAmbiguous →
      op.overload? [] = some ⟨[], .float⟩ ∧ ∀ o ∈ op.overloads, o.inputs = [] := by decide +kernel
  exact hall op h hop

lemma inputs_eq_nil (ho : o ∈ op.overloads) (ho' : o' ∈ op.overloads) (hnil : o.inputs = []) :
    o'.inputs = [] := by
  have hall : ∀ op ∈ table, ∀ o ∈ op.overloads, ∀ o' ∈ op.overloads, o.inputs = [] →
      o'.inputs = [] := by decide +kernel
  exact hall op h o ho o' ho' hnil

lemma output_of_store (hname : op.name = "store") (ho : o ∈ op.overloads) :
    o.output = .void := by
  have hall : ∀ op ∈ table, op.name = "store" → ∀ o ∈ op.overloads, o.output = .void := by
    decide +kernel
  exact hall op h hname o ho

lemma accesses_of_store (hname : op.name = "store") : op.kind.accesses := by
  have hall : ∀ op ∈ table, op.name = "store" → op.kind.accesses := by decide +kernel
  exact hall op h hname

lemma accesses_of_load (hname : op.name = "load") : op.kind.accesses := by
  have hall : ∀ op ∈ table, op.name = "load" → op.kind.accesses := by decide +kernel
  exact hall op h hname

end

lemma mem_of_overload? {types : List Scalar} (h : op.overload? types = some o) :
    o ∈ op.overloads ∧ o.inputs = types :=
  ⟨mem_of_find?_eq_some h, by simpa using find?_some h⟩

end Operation

namespace Graph

variable {g g' : Graph} {n n' : NodeId} {op : Operation} {o : Overload} {type : Scalar}
  {args : List Argument}

/-- The types of the values that a node computes with. -/
def inputTypes (g : Graph) (n : NodeId) : List Scalar :=
  ((g.node n).arguments .input).map fun a => (g.node (g.source a)).type

lemma inputTypes_eq (h : (g.node n).Regular) :
    g.inputTypes n = ((g.node n).args.filter fun a => a.kind = .input).map
      fun a => (g.node (g.source a)).type := by
  rw [inputTypes, h.arguments_eq, h.blocks]

lemma inputTypes_congr (h : (g.node n).Regular) (h' : (g'.node n').Regular)
    (hargs : Forall₂ (fun a a' => a.kind = a'.kind ∧ (a.kind = .input →
      (g.node (g.source a)).type = (g'.node (g'.source a')).type)) (g.node n).args
      (g'.node n').args) :
    g.inputTypes n = g'.inputTypes n' := by
  rw [inputTypes_eq h, inputTypes_eq h']
  generalize (g.node n).args = args, (g'.node n').args = args' at hargs
  induction hargs with
  | nil => rfl
  | @cons a a' rest rest' hhead _ ih =>
    obtain ⟨hkind, htype⟩ := hhead
    by_cases ha : a.kind = .input
    · rw [filter_cons_of_pos (by simpa using ha),
        filter_cons_of_pos (by simpa using hkind ▸ ha), map_cons, map_cons, ih, htype ha]
    · rw [filter_cons_of_neg (by simpa using ha),
        filter_cons_of_neg (by simpa using hkind ▸ ha), ih]

/-- The overload that the values of a node select gives the type of the node; an ambiguous operation
has no values. -/
structure Agrees (g : Graph) (n : NodeId) : Prop where
  output : (g.node n).op.isAmbiguous = false → ∀ o,
    (g.node n).op.overload? (g.inputTypes n) = some o → o.output = (g.node n).type
  inputs : (g.node n).op.isAmbiguous → g.inputTypes n = []

namespace Agrees

lemma congr (h : g.Agrees n) (hop : (g'.node n').op = (g.node n).op)
    (htype : (g'.node n').type = (g.node n).type) (hinputs : g'.inputTypes n' = g.inputTypes n) :
    g'.Agrees n' := by
  refine ⟨fun hamb o ho => ?_, fun hamb => ?_⟩
  · rw [hop] at hamb ho
    rw [hinputs] at ho
    rw [htype]
    exact h.output hamb o ho
  · rw [hop] at hamb
    rw [hinputs]
    exact h.inputs hamb

section

variable (hop : (g.node n).op ∈ table)

include hop

lemma of_overload? (ho : (g.node n).op.overload? (g.inputTypes n) = some o)
    (htype : (g.node n).op.name ≠ "load" → o.output = (g.node n).type) : g.Agrees n := by
  refine ⟨fun hamb o' ho' => ?_, fun hamb => ?_⟩
  · obtain rfl := Option.mem_unique ho ho'
    refine htype fun hload => ?_
    have hmem := (isAmbiguous_iff hop).2 (by rw [hload]; decide)
    rw [hamb] at hmem
    cases hmem
  · obtain ⟨hmem, hinputs⟩ := mem_of_overload? ho
    rw [← hinputs]
    exact (overload?_of_isAmbiguous hop hamb).2 o hmem

lemma of_yields (hinputs : g.inputTypes n = []) (hyields : (g.node n).op.yields (g.node n).type) :
    g.Agrees n := by
  refine ⟨fun hamb o ho => ?_, fun _ => hinputs⟩
  obtain ⟨o', ho', houtput⟩ := any_eq_true.1 hyields
  obtain ⟨hmem, hnil⟩ := mem_of_overload? ho
  rw [hinputs] at hnil
  rw [← of_decide_eq_true houtput]
  exact output_eq hamb hmem ho'
    (hnil.trans (inputs_eq_nil hop hmem ho' hnil).symm)

lemma of_load (hname : (g.node n).op.name = "load") (hinputs : g.inputTypes n = []) :
    g.Agrees n := by
  refine ⟨fun hamb => ?_, fun _ => hinputs⟩
  have hmem := (isAmbiguous_iff hop).2 (by rw [hname]; decide)
  rw [hamb] at hmem
  cases hmem

lemma of_store (hname : (g.node n).op.name = "store") (htype : (g.node n).type = .void) :
    g.Agrees n := by
  refine ⟨fun _ o ho => ?_, fun hamb => ?_⟩
  · rw [htype]
    exact output_of_store hop hname (mem_of_overload? ho).1
  · have hmem := (isAmbiguous_iff hop).1 hamb
    rw [hname] at hmem
    exact absurd hmem (by decide)

end

lemma resultType_eq_ok (h : g.Agrees n) (hop : (g.node n).op ∈ table)
    (hok : (g.node n).op.resultType (g.inputTypes n) = .ok type) :
    type = if (g.node n).op.isAmbiguous then .float else (g.node n).type := by
  unfold resultType at hok
  cases ho : (g.node n).op.overload? (g.inputTypes n) with
  | none =>
    rw [ho] at hok
    cases hok
  | some o =>
    rw [ho] at hok
    obtain rfl := Except.ok.inj hok
    cases hamb : (g.node n).op.isAmbiguous with
    | false => exact h.output hamb o ho
    | true =>
      rw [h.inputs hamb, (overload?_of_isAmbiguous hop hamb).1] at ho
      exact congrArg Overload.output (Option.some.inj ho).symm

end Agrees

lemma inputTypes_modifyNode {m : NodeId} {f : Node → Node} (hargs : ∀ x, (f x).args = x.args)
    (htype : ∀ x, (f x).type = x.type) : (g.modifyNode m f).inputTypes n = g.inputTypes n := by
  have harguments : ((g.modifyNode m f).node n).arguments .input = (g.node n).arguments .input := by
    rw [Node.arguments, Node.arguments, modifyNode_congr Node.args hargs]
  rw [inputTypes, inputTypes, harguments]
  exact map_congr_left fun a _ => modifyNode_congr Node.type htype

/-! ### New nodes -/

lemma inputTypes_insert {ns : List NodeId} (h : g.Labelled) (op : Operation) (type : Scalar)
    (hns : ∀ m ∈ ns, m < g.nodes.size)
    (hinputs : (args.filter fun a => a.kind = .input) = block .input ns) :
    (g.insert op type args).inputTypes g.nodes.size = ns.map fun m => (g.node m).type := by
  have hnode : (g.insert op type args).node g.nodes.size =
    { op, type, args, label := g.labels.size, cluster := g.current } := node_insert_self
  have hargs : ((g.insert op type args).node g.nodes.size).arguments .input = block .input ns := by
    rw [hnode]
    exact Node.arguments_of_block hinputs
  have hlabelled : (g.insert op type args).Labelled := h.insert
  rw [inputTypes, hargs]
  have hsource : ∀ m ∈ ns, (g.insert op type args).node
    ((g.insert op type args).target m) = g.node m :=
    fun m hm => by
      have hlt : m < (g.insert op type args).nodes.size :=
        Nat.lt_of_lt_of_le (hns m hm) (by simp)
      rw [hlabelled.target m hlt, node_insert_of_ne (Nat.ne_of_lt (hns m hm))]
  calc (block .input ns).map (fun a => ((g.insert op type args).node
        ((g.insert op type args).source a)).type)
      = ((block .input ns).map (·.source)).map fun m =>
          ((g.insert op type args).node ((g.insert op type args).target m)).type := by
        rw [map_map]
        rfl
    _ = ns.map fun m => (g.node m).type := by
        rw [map_source_block]
        exact map_congr_left fun m hm => by rw [hsource m hm]

end Graph

end KernelFusion
