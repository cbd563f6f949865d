/-
The lines of a kernel and the nodes they stand for.

The lines of a compute kernel stand for the nodes of its cluster, in the order of the program,
except for constants.
-/
import KernelFusion.Proofs.Emit.Names
import KernelFusion.Proofs.Kernel.Slots

namespace KernelFusion

open List Operation

namespace Operation

variable {op : Operation} {types : List Scalar} {type : Scalar}

lemma resultType_eq_ok_iff : op.resultType types = .ok type ↔
    ∃ o, op.overload? types = some o ∧ o.output = type := by
  unfold resultType
  cases op.overload? types with
  | none => simp
  | some o => simp

/-- What holds of all results in the table holds of a result. -/
lemma of_resultType {P : Operation → Scalar → Prop} (hall : ∀ op ∈ table, ∀ o ∈ op.overloads,
    P op o.output)
    (h : op ∈ table) (htype : op.resultType types = .ok type) : P op type := by
  obtain ⟨o, ho, rfl⟩ := resultType_eq_ok_iff.1 htype
  exact hall op h o (mem_of_overload? ho).1

lemma ne_load_of_void (h : op ∈ table) (htype : op.resultType types = .ok .void) :
    op.name ≠ "load" :=
  of_resultType (P := fun op type => type = .void → op.name ≠ "load")
    (by decide +kernel) h htype rfl

lemma void_of_writes (h : op ∈ table) (haccess : op.kind.accesses) (hload : op.name ≠ "load")
    (htype : op.resultType types = .ok type) : type = .void :=
  of_resultType (P := fun op type => op.kind.accesses → op.name ≠ "load" → type = .void)
    (by decide +kernel) h htype haccess hload

/-- What stands left of the expression in a line: the head or the end of a block, or the declaration
of the variable if there is a result. -/
def leftText (op : Operation) (type : Scalar) (var : String) (args : List String) : String :=
  if op.name = "loop_begin" then loopHead var args
  else if op.name = "loop_end" ∨ op.name = "if_end" then blockEnd
  else if op.name = "if_begin" then branchHead args
  else if type = .void then ""
  else declaration type var

/-- What stands right of the expression in a line. -/
def rightText (op : Operation) : String := if op.isControl then "" else ";"

lemma leftText_of_plain (h : op.isControl = false) (var : String) (args : List String) :
    op.leftText type var args = if type = .void then "" else declaration type var := by
  simp [leftText, not_isControl_iff.1 h]

lemma rightText_of_plain (h : op.isControl = false) : op.rightText = ";" := by
  simp [rightText, h]

end Operation

namespace Graph

variable {g : Graph} {l ns : List NodeId} {k : Kernel} {ks : List Kernel} {n : NodeId} {depth : Int}
  {lines : List Line}

/-- The nodes that the lines of a kernel stand for. -/
def lineNodes (g : Graph) (k : Kernel) : List NodeId :=
  match (g.node k.first).cluster with
  | some c => (g.run c).filter fun n => !(g.node n).isConst
  | none => []

lemma kernelLines_eq (g : Graph) (k : Kernel) :
    g.kernelLines k = g.linesOf g.names k 0 (g.lineNodes k) := by
  unfold kernelLines lineNodes
  cases (g.node k.first).cluster <;> rfl

/-- A line of a node whose text is typed by the given type. -/
structure IsLine (g : Graph) (k : Kernel) (n : NodeId) (type : Scalar) (line : Line) : Prop where
  resultType : (g.node n).op.resultType (g.inputTypes n) = .ok type
  parts : ((line.left, line.expression, line.right), line.parenthesised)
    = g.lineParts k n (g.names.of n) (g.operands g.names k n) type
  name : line.name = g.names.of n
  arguments : line.arguments = (g.operands g.names k n).lines
  cost : line.cost = (g.node n).op.weight

lemma types_operands (g : Graph) (k : Kernel) (n : NodeId) :
    (g.operands g.names k n).types = g.inputTypes n := by
  simp [operands, inputTypes, Function.comp_def]

lemma lineOf_eq_ok {line : Line} (h : g.lineOf g.names k n = .ok line) :
    ∃ type, g.IsLine k n type line := by
  rw [lineOf, types_operands] at h
  obtain ⟨type, htype, h⟩ := Except.bind_eq_ok.1 h
  obtain rfl := Except.ok.inj h
  exact ⟨type, htype, rfl, rfl, rfl, rfl⟩

lemma linesOf_cons_eq_ok (h : g.linesOf g.names k depth (n :: ns) = .ok lines) :
    ∃ line indent depth' rest, g.lineOf g.names k n = .ok line ∧
      g.linesOf g.names k depth' ns = .ok rest ∧ lines = { line with indent } :: rest := by
  rw [linesOf] at h
  obtain ⟨line, hline, h⟩ := Except.bind_eq_ok.1 h
  obtain ⟨rest, hrest, h⟩ := Except.bind_eq_ok.1 h
  exact ⟨line, _, _, rest, hline, hrest, (Except.ok.inj h).symm⟩

lemma linesOf_eq_ok (h : g.linesOf g.names k depth ns = .ok lines) :
    Forall₂ (fun n line => ∃ type, g.IsLine k n type line) ns lines := by
  induction ns generalizing depth lines with
  | nil =>
    obtain rfl := Except.ok.inj h
    exact .nil
  | cons n ns ih =>
    obtain ⟨line, indent, depth', rest, hline, hrest, rfl⟩ := linesOf_cons_eq_ok h
    obtain ⟨type, hline⟩ := lineOf_eq_ok hline
    exact .cons ⟨type, hline.resultType, hline.parts, hline.name,
      hline.arguments, hline.cost⟩ (ih hrest)

lemma kernelLines_eq_ok (h : g.kernelLines k = .ok lines) :
    Forall₂ (fun n line => ∃ type, g.IsLine k n type line) (g.lineNodes k) lines :=
  linesOf_eq_ok ((kernelLines_eq g k).symm.trans h)

/-! ### The parts of a line -/

namespace IsLine

variable {type : Scalar} {line : Line}

variable (h : g.IsLine k n type line)

include h

lemma of_loop_begin (hname : (g.node n).op.name = "loop_begin") :
    line.left = loopHead (g.names.of n) (g.operands g.names k n).texts ∧
      line.expression = "" ∧ line.right = "" := by
  have hparts := h.parts
  rw [lineParts, if_pos hname] at hparts
  simp only [Prod.mk.injEq] at hparts
  exact hparts.1

lemma of_block_end (hname : (g.node n).op.name = "loop_end" ∨ (g.node n).op.name = "if_end") :
    line.left = blockEnd ∧ line.expression = "" ∧ line.right = "" := by
  have hparts := h.parts
  rcases hname with hname | hname
  · simp only [lineParts, hname, String.reduceEq, if_false, if_true, Prod.mk.injEq] at hparts
    exact hparts.1
  · simp only [lineParts, hname, String.reduceEq, if_false, if_true, Prod.mk.injEq] at hparts
    exact hparts.1

lemma of_if_begin (hname : (g.node n).op.name = "if_begin") :
    line.left = branchHead (g.operands g.names k n).texts ∧
      line.expression = "" ∧ line.right = "" := by
  have hparts := h.parts
  simp only [lineParts, hname, String.reduceEq, if_false, if_true, Prod.mk.injEq] at hparts
  exact hparts.1

lemma of_access (hcontrol : (g.node n).op.isControl = false)
    (haccess : (g.node n).op.kind.accesses) :
    ((line.left, line.expression, line.right), line.parenthesised)
      = g.accessParts k n (g.names.of n) (g.operands g.names k n) type := by
  have hnames := not_isControl_iff.1 hcontrol
  have hparts := h.parts
  rwa [lineParts, if_neg hnames.1, if_neg hnames.2.1, if_neg hnames.2.2.1, if_neg hnames.2.2.2,
    if_pos haccess] at hparts

lemma of_plain (hcontrol : (g.node n).op.isControl = false)
    (haccess : (g.node n).op.kind.accesses = false) :
    line.left = (if type = .void then "" else declaration type (g.names.of n)) ∧
      line.expression = (g.plainExpression n (g.operands g.names k n).texts).1 ∧
      line.right = ";" := by
  have hnames := not_isControl_iff.1 hcontrol
  have hparts := h.parts
  rw [lineParts, if_neg hnames.1, if_neg hnames.2.1, if_neg hnames.2.2.1, if_neg hnames.2.2.2,
    if_neg (by simp [haccess])] at hparts
  simp only [Prod.mk.injEq] at hparts
  exact hparts.1

lemma of_load (hname : (g.node n).op.name = "load") (haccess : (g.node n).op.kind.accesses) :
    line.left = declaration type (g.names.of n) ∧
      line.expression = readAs type
        ("mem[" ++ g.address k n (g.operands g.names k n).texts ++ "]") ∧ line.right = ";" := by
  have hcontrol : (g.node n).op.isControl = false := by rw [isControl, hname]; decide
  have hparts := h.of_access hcontrol haccess
  rw [accessParts, if_pos hname] at hparts
  simp only [Prod.mk.injEq] at hparts
  exact hparts.1

lemma of_write (hname : (g.node n).op.name ≠ "load") (hcontrol : (g.node n).op.isControl = false)
    (haccess : (g.node n).op.kind.accesses) :
    line.left = "" ∧ line.right = ";" ∧
      ∃ rest, line.expression =
        (if (g.node n).op.name = "store" then "mem[" else (g.node n).op.code ++ "((") ++ rest := by
  have hparts := h.of_access hcontrol haccess
  rw [accessParts, if_neg hname] at hparts
  split at hparts
  · next hstore =>
    simp only [Prod.mk.injEq] at hparts
    rw [if_pos hstore]
    exact ⟨hparts.1.1, hparts.1.2.2, _, by rw [hparts.1.2.1]; simp only [String.append_assoc]; rfl⟩
  · next hstore =>
    simp only [Prod.mk.injEq] at hparts
    rw [if_neg hstore]
    exact ⟨hparts.1.1, hparts.1.2.2, _, by rw [hparts.1.2.1]; simp only [String.append_assoc]; rfl⟩

lemma parts_eq (hop : (g.node n).op ∈ table) :
    line.left = (g.node n).op.leftText type (g.names.of n) (g.operands g.names k n).texts ∧
      line.right = (g.node n).op.rightText := by
  cases hcontrol : (g.node n).op.isControl with
  | true =>
    rw [leftText, rightText, hcontrol]
    rcases isControl_iff.1 hcontrol with hname | hname | hname | hname
    · simp [hname, h.of_loop_begin hname]
    · simp [hname, h.of_block_end (.inl hname)]
    · simp [hname, h.of_if_begin hname]
    · simp [hname, h.of_block_end (.inr hname)]
  | false =>
    rw [leftText_of_plain hcontrol, rightText_of_plain hcontrol]
    cases haccess : (g.node n).op.kind.accesses with
    | false => exact ⟨(h.of_plain hcontrol haccess).1, (h.of_plain hcontrol haccess).2.2⟩
    | true =>
      by_cases hload : (g.node n).op.name = "load"
      · have hvoid : type ≠ .void := fun hvoid =>
          ne_load_of_void hop (hvoid ▸ h.resultType) hload
        rw [if_neg hvoid]
        exact ⟨(h.of_load hload haccess).1, (h.of_load hload haccess).2.2⟩
      · rw [if_pos (void_of_writes hop haccess hload h.resultType)]
        exact ⟨(h.of_write hload hcontrol haccess).1, (h.of_write hload hcontrol haccess).2.1⟩

end IsLine

/-- The nodes with a line: the cluster's own, memory and constants apart. -/
lemma lineNodes_spec (hl : g.Lists l) (hg : g.Grouped OpKind.accesses l) (hks : g.kernels = .ok ks)
    (hk : k ∈ ks) (hkind : k.kind = .compute) :
    (g.lineNodes k).Sublist l ∧ ∀ n ∈ g.lineNodes k, (g.node n).isMemory = false ∧
      (g.node n).isConst = false ∧ (g.node n).cluster = (g.node k.first).cluster := by
  obtain ⟨before, after, rfl⟩ := append_of_mem hk
  obtain ⟨A, h, B, rfl, -, hkn⟩ := exists_kernelOf hl hks
  obtain ⟨hmem, hstarts, rfl, -⟩ := kernelOf_eq_compute hkn hkind
  have hfirst : k.first ∈ A ++ k.first :: B := by simp
  obtain ⟨c, hc⟩ := hg.clustered hfirst hmem
  obtain ⟨hhead, hrun⟩ := runFrom_eq_run hc hstarts
  have hsub : (g.run c).Sublist (A ++ k.first :: B) := by
    rw [← hrun, runFrom, hl.fromNode]
    exact (takeWhile_sublist _).trans (sublist_append_right _ _)
  rw [lineNodes, hc]
  refine ⟨filter_sublist.trans hsub, fun n hn => ?_⟩
  obtain ⟨hn, hconst⟩ := mem_filter.1 hn
  obtain ⟨-, hcn⟩ := (hg.mem_run_iff hl hhead hfirst hc).1 hn
  exact ⟨(hg.apart (hsub.subset hn) hfirst hcn hc).trans hmem, by simpa using hconst, hcn⟩

end Graph

end KernelFusion
