/-
How a graph comes about.

While a program is recorded, a node enters in one of four forms, the words of a node are set, or
the role of its memory is. A policy says which operations may be recorded by name, which values may
be used, and which roles may be given.
-/
import KernelFusion.Proofs.Recording.Forms
import KernelFusion.Proofs.Recording.Recorded

namespace KernelFusion

open List

/-- What a program may do while it is recorded. -/
structure Policy where
  loopsOnly : Bool := false
  opened : List MemoryRole := [.input, .constant]
  assigned : List MemoryRole := [.scratch, .input, .output, .constant]
  whole : Bool := false

namespace Policy

variable {p : Policy} {op : Operation}

/-- Everything is allowed. -/
def free : Policy := {}

/-- Blocks are opened and closed by loops only. -/
def structured : Policy := { loopsOnly := true }

/-- Roles are given to new memory only. -/
def sealed : Policy := { assigned := [] }

/-- Operations that take operands are recorded with operands. -/
def complete : Policy := { whole := true }

/-- May the operation be recorded? -/
def records (p : Policy) (op : Operation) : Bool :=
  !p.loopsOnly || (op.name != "if_begin" && op.name != "if_end")

/-- May its value be used? -/
def uses (p : Policy) (op : Operation) : Bool := !p.loopsOnly || op.name != "loop_end"

/-- May the operation be recorded by its name? -/
def names (p : Policy) (op : Operation) : Bool := !p.loopsOnly || !op.isControl

/-- May the operation be recorded without operands? -/
def alone (p : Policy) (op : Operation) : Bool :=
  !p.whole || op.overloads.all fun o => o.inputs.isEmpty

/-- May the memory of the node get the role? -/
def marks (p : Policy) (x : Node) (role : MemoryRole) : Bool :=
  p.assigned.contains role || (p.opened.contains role && x.isMemory && x.role = .scratch)

lemma names_of_not_control (h : op.isControl = false) : p.names op := by
  simp [names, h]

lemma records_of_names (h : p.names op) : p.records op := by
  simp only [names, records, Operation.isControl, Bool.or_eq_true] at h ⊢
  exact h.imp id (by simp +contextual)

lemma uses_of_names (h : p.names op) : p.uses op := by
  simp only [names, uses, Operation.isControl, Bool.or_eq_true] at h ⊢
  exact h.imp id (by simp +contextual)

end Policy

namespace Graph

variable {p : Policy} {g g' : Graph} {n : NodeId} {op : Operation} {type : Scalar}
  {args : List Argument} {ns ls : List NodeId}

/-! ### Forms of nodes -/

/-- The graph has the node, and its value may be used. -/
def Offers (p : Policy) (g : Graph) (n : NodeId) : Prop :=
  n < g.nodes.size ∧ p.uses (g.node n).op

/-- The ways in which an operation becomes a node of a graph whose labels are its nodes. -/
inductive Admits (p : Policy) (g : Graph) : Operation → Scalar → List Argument → Prop where
  | value {op : Operation} {o : Overload} {ns ls : List NodeId} (hop : op ∈ Operation.table)
      (hrecords : p.records op) (haccess : op.kind.accesses = false)
      (hmemory : op.name ≠ "memory") (hns : ∀ n ∈ ns, g.Offers p n)
      (ho : op.overload? (ns.map fun n => (g.node n).type) = some o) (hls : ∀ n ∈
      ls, g.Offers p n) :
      Admits p g op o.output (block .input ns ++ block .shape ls)
  | access {op : Operation} {o : Overload} {m : NodeId} {is xs ls : List NodeId}
      (hop : op ∈ Operation.table) (hrecords : p.records op)
      (haccess : op.kind.accesses) (hmemory : op.name ≠ "memory") (hm : g.Offers p m)
      (his : ∀ i ∈ is, g.Offers p i) (hint : ∀ i ∈ is, (g.node i).type = .int)
      (hxs : ∀ x ∈ xs, g.Offers p x) (ho : op.overload? (xs.map fun n => (g.node n).type) = some o)
      (hls : ∀ n ∈ ls, g.Offers p n)
      (hshape : (g.node (is.headD m)).arguments .shape = block .shape ls) :
      Admits p g op (if op.name = "load" then (g.node m).type else o.output)
        (block .memory [m] ++ block .input xs ++ block .index is ++ block .shape ls)
  | source {op : Operation} {type : Scalar} {ls : List NodeId} (hop : op ∈ Operation.table)
      (hrecords : p.records op) (haccess : op.kind.accesses = false)
      (hyields : op.yields type) (hls : ∀ n ∈ ls, g.Offers p n) (halone : p.alone op) :
      Admits p g op type (block .shape ls)
  | copy {n : NodeId} (hn : g.Offers p n) : Admits p g (g.node n).op (g.node n).type (g.node n).args

/-! ### Changes -/

/-- One change of a graph while a program is recorded. -/
inductive Changes (p : Policy) (g : Graph) : Graph → Prop where
  | enter {op : Operation} {type : Scalar} {args : List Argument} (h : g.Admits p op type args) :
      Changes p g (g.insert op type args)
  | data (n : NodeId) (data : List UInt32) : Changes p g (g.setData n data)
  | role {n : NodeId} {role : MemoryRole} (slot : Int) (hn : g.Offers p n)
      (hrole : p.marks (g.node n) role) : Changes p g (g.setRole n role slot)

/-- The second graph comes from the first one by recording. -/
def Traces (p : Policy) : Graph → Graph → Prop := Relation.ReflTransGen (Changes p)

instance : IsPreorder Graph (Traces p) where
  refl _ := .refl
  trans _ _ _ h h' := h.trans h'

lemma Changes.traces (h : Changes p g g') : Traces p g g' := .single h

/-- The state of a graph while a program is recorded: only values that may be used are used. -/
structure RecordedUnder (p : Policy) (g : Graph) : Prop extends g.Recorded where
  used : ∀ n, ∀ a ∈ (g.node n).args, p.uses (g.node a.source).op

lemma recordedUnder_opened : opened.RecordedUnder p := by
  refine ⟨recorded_opened, fun n a ha => ?_⟩
  rw [node_eq_default (Nat.zero_le n)] at ha
  cases ha

lemma Offers.label_eq (hn : g.Offers p n) (h : g.Recorded) : g.label n = n :=
  h.labelled.label n hn.1

lemma RecordedUnder.offers_argument (h : g.RecordedUnder p) {a : Argument}
    (ha : a ∈ (g.node n).args) : g.Offers p a.source := by
  have hn := lt_size_of_node (P := fun x => a ∈ x.args) ha not_mem_nil
  exact ⟨Nat.lt_trans (h.earlier n a ha) hn, h.used n a ha⟩

lemma offers_of_mem_block {k : ArgKind} {a : Argument} (hns : ∀ n ∈ ns, g.Offers p n)
    (ha : a ∈ block k ns) : g.Offers p a.source := by
  obtain ⟨i, l, hl, rfl⟩ := mem_block.1 ha
  exact hns l (mem_of_getElem? hl)

/-! ### What a form fixes -/

lemma Admits.offers (h : g.RecordedUnder p) (he : g.Admits p op type args) :
    ∀ a ∈ args, g.Offers p a.source := by
  intro a ha
  cases he with
  | value _ _ _ _ hns _ hls =>
    rcases mem_append.1 ha with ha | ha
    · exact offers_of_mem_block hns ha
    · exact offers_of_mem_block hls ha
  | access _ _ _ _ hm his _ hxs _ hls _ =>
    simp only [mem_append] at ha
    rcases ha with ((ha | ha) | ha) | ha
    · exact offers_of_mem_block (by simpa using hm) ha
    · exact offers_of_mem_block hxs ha
    · exact offers_of_mem_block his ha
    · exact offers_of_mem_block hls ha
  | source _ _ _ _ hls => exact offers_of_mem_block hls ha
  | copy _ => exact h.offers_argument ha

section

variable (h : g.Recorded) (he : g.Admits p op type args)

include h he

lemma Admits.regular :
    ({ op, type, args, label := 0 } : Node).Regular := by
  cases he with
  | value _ _ haccess hmemory _ _ _ =>
    refine Node.regular_of_blocks (m := []) (i := _) (x := []) (s := _) (by simp; rfl)
      (by simp [haccess]) fun hm => absurd ?_ hmemory
    simpa [Node.isMemory] using hm
  | access _ _ haccess hmemory _ _ _ _ _ _ _ =>
    refine Node.regular_of_blocks (m := [_]) (i := _) (x := _) (s := _) rfl (by simp [haccess])
      fun hm => absurd ?_ hmemory
    simpa [Node.isMemory] using hm
  | source _ _ haccess _ _ =>
    exact Node.regular_of_blocks (m := []) (i := []) (x := []) (s := _) (by simp; rfl)
      (by simp [haccess]) fun _ => ⟨rfl, rfl, rfl⟩
  | copy _ => exact (h.regular _).congr rfl rfl

lemma Admits.index :
    ∀ a ∈ args, a.kind = .index → (g.node a.source).type = .int := by
  intro a ha hkind
  cases he with
  | value _ _ _ _ _ _ _ =>
    rcases mem_append.1 ha with ha | ha <;> cases (kind_of_mem_block ha).symm.trans hkind
  | access _ _ _ _ _ _ hint _ _ _ _ =>
    simp only [mem_append] at ha
    rcases ha with ((ha | ha) | ha) | ha
    · cases (kind_of_mem_block ha).symm.trans hkind
    · cases (kind_of_mem_block ha).symm.trans hkind
    · obtain ⟨i, l, hl, rfl⟩ := mem_block.1 ha
      exact hint l (mem_of_getElem? hl)
    · cases (kind_of_mem_block ha).symm.trans hkind
  | source _ _ _ _ _ => cases (kind_of_mem_block ha).symm.trans hkind
  | copy hn => exact h.typed.index _ (mem_range.2 hn.1) a ha hkind

lemma Admits.coordinate (hname : op.name = "dim_id") : type = .int ∧ op.kind.accesses = false := by
  cases he with
  | value hop _ haccess _ _ ho _ =>
    exact ⟨(Operation.of_mem_table_coordinate hop hname).1 _ (mem_of_find?_eq_some ho), haccess⟩
  | access hop _ haccess _ _ _ _ _ _ _ _ =>
    have hnot := (Operation.of_mem_table_coordinate hop hname).2
    rw [haccess] at hnot
    cases hnot
  | source hop _ haccess hyields _ =>
    obtain ⟨o, ho, houtput⟩ := any_eq_true.1 hyields
    rw [← of_decide_eq_true houtput]
    exact ⟨(Operation.of_mem_table_coordinate hop hname).1 o ho, haccess⟩
  | copy hn =>
    exact h.typed.coordinate _ (mem_range.2 hn.1) (by simpa [Node.isCoordinate] using hname)

/-! ### What every change keeps -/

end

lemma Changes.node (h : Changes p g g') (hn : n < g.nodes.size) :
    (g'.node n).op = (g.node n).op ∧ (g'.node n).type = (g.node n).type ∧
      (g'.node n).args = (g.node n).args := by
  cases h with
  | enter _ =>
    rw [node_insert_of_ne (Nat.ne_of_lt hn)]
    exact ⟨rfl, rfl, rfl⟩
  | data _ _ =>
    exact ⟨modifyNode_congr Node.op fun _ => rfl, modifyNode_congr Node.type fun _ => rfl,
      modifyNode_congr Node.args fun _ => rfl⟩
  | role _ _ _ =>
    exact ⟨modifyNode_congr Node.op fun _ => rfl, modifyNode_congr Node.type fun _ => rfl,
      modifyNode_congr Node.args fun _ => rfl⟩

lemma Changes.size_le (h : Changes p g g') : g.nodes.size ≤ g'.nodes.size := by
  cases h with
  | enter _ => simp
  | data _ _ => simp [setData]
  | role _ _ _ => simp [setRole]

lemma Offers.changes (hn : g.Offers p n) (h : Changes p g g') : g'.Offers p n :=
  ⟨Nat.lt_of_lt_of_le hn.1 h.size_le, by rw [(h.node hn.1).1]; exact hn.2⟩

lemma RecordedUnder.note (h : g.RecordedUnder p) {f : Node → Node} (hop : ∀ x, (f x).op = x.op)
    (hargs : ∀ x, (f x).args = x.args) (hlabel : ∀ x, (f x).label = x.label)
    (hcluster : ∀ x, (f x).cluster = x.cluster) (htype : ∀ x, (f x).type = x.type) :
    (g.modifyNode n f).RecordedUnder p := by
  refine ⟨h.modifyNode hop hargs hlabel hcluster htype, fun m a ha => ?_⟩
  rw [modifyNode_congr Node.args hargs] at ha
  rw [modifyNode_congr Node.op hop]
  exact h.used m a ha

lemma RecordedUnder.changes (h : g.RecordedUnder p) (hr : Changes p g g') : g'.RecordedUnder p := by
  cases hr with
  | @enter op type args he =>
    have hoffers := he.offers h
    refine ⟨h.insert (he.regular h.toRecorded) (fun a ha => (hoffers a ha).1)
      (he.index h.toRecorded) (he.coordinate h.toRecorded), fun m a ha => ?_⟩
    have hsource : g.Offers p a.source :=
      forall_node_insert (P := fun _ x => ∀ a ∈ x.args, g.Offers p a.source) hoffers
        (fun _ _ _ hb => h.offers_argument hb) m a ha
    exact (hsource.changes (.enter he)).2
  | data _ _ =>
    exact h.note (fun _ => rfl) (fun _ => rfl) (fun _ => rfl) (fun _ => rfl) fun _ => rfl
  | role _ _ _ =>
    exact h.note (fun _ => rfl) (fun _ => rfl) (fun _ => rfl) (fun _ => rfl) fun _ => rfl

lemma Traces.of_changes {I : Graph → Prop} (ht : Traces p g g') (h : g.RecordedUnder p)
    (hstart : I g) (hstep : ∀ g₁ g₂, g₁.RecordedUnder p → Changes p g₁ g₂ → I g₁ → I g₂) :
    g'.RecordedUnder p ∧ I g' := by
  induction ht with
  | refl => exact ⟨h, hstart⟩
  | tail _ hr ih => exact ⟨ih.1.changes hr, hstep _ _ ih.1 hr ih.2⟩

lemma RecordedUnder.traces (h : g.RecordedUnder p) (ht : Traces p g g') : g'.RecordedUnder p :=
  (ht.of_changes (I := fun _ => True) h trivial fun _ _ _ _ _ => trivial).1

lemma Offers.traces (hn : g.Offers p n) (ht : Traces p g g') : g'.Offers p n := by
  induction ht with
  | refl => exact hn
  | tail _ hr ih => exact ih.changes hr

end Graph

end KernelFusion
