/-
Tensor functions record under every policy.

Whether it succeeds or fails, what a function on tensors does to a graph is a sequence of the
changes that a policy allows, and the tensors it gives may be used.
-/
import KernelFusion.Proofs.Build.Arithmetic
import KernelFusion.Proofs.Recording.History
import KernelFusion.Tensor.Function

namespace KernelFusion

open List Operation

/-! ### Argument lists of recorded nodes -/

namespace Graph

variable {p : Policy} {g g' : Graph} {n m : NodeId} {ns : List NodeId} {a : Argument}

/-- The graph is being recorded, has the node, and its value may be used. -/
def Has (p : Policy) (g : Graph) (n : NodeId) : Prop := g.RecordedUnder p ∧ g.Offers p n

lemma Has.traces (h : g.Has p n) (ht : Traces p g g') : g'.Has p n :=
  ⟨h.1.traces ht, h.2.traces ht⟩

lemma offers_of_has (hns : ∀ n ∈ ns, g.Has p n) : ∀ n ∈ ns, g.Offers p n :=
  fun n hn => (hns n hn).2

lemma argumentsFrom_eq (k : ArgKind) (ns : List NodeId) :
    g.argumentsFrom k ns = block k (ns.map g.label) := by
  rw [argumentsFrom, block, zipIdx_map, map_map]
  rfl

lemma accessArguments_eq (m : NodeId) (indices operands : List NodeId) :
    g.accessArguments m indices operands =
      block .memory [g.label m] ++ block .input (operands.map g.label) ++
        block .index (indices.map g.label) ++ (g.node (indices.headD m)).arguments .shape := by
  rw [accessArguments, argumentsFrom_eq, argumentsFrom_eq, argumentsFrom_eq]
  rfl

lemma exists_of_mem_commonShape (ha : a ∈ g.commonShape ns) :
    ∃ m ∈ ns, a ∈ (g.node m).args ∧ a.kind = .shape := by
  unfold commonShape at ha
  cases hfind : (ns.map fun n => (g.node n).arguments .shape).find? fun s => !s.isEmpty with
  | none =>
    rw [hfind] at ha
    cases ha
  | some args =>
    rw [hfind] at ha
    obtain ⟨m, hm, rfl⟩ := mem_map.1 (mem_of_find?_eq_some hfind)
    exact ⟨m, hm, Node.mem_arguments.1 ha⟩

lemma kind_of_mem_commonShape (ha : a ∈ g.commonShape ns) :
    a.kind = .shape := by
  obtain ⟨-, -, -, hkind⟩ := exists_of_mem_commonShape ha
  exact hkind

lemma filter_operands (ns : List NodeId) :
    ((g.argumentsFrom .input ns ++ g.commonShape ns).filter fun a => a.kind = .input) =
      block .input (ns.map g.label) := by
  have hshape : (g.commonShape ns).filter (fun a => a.kind = .input) = [] := by
    rw [filter_eq_nil_iff]
    intro a ha
    simp [kind_of_mem_commonShape ha]
  rw [filter_append, hshape, append_nil, argumentsFrom_eq, filter_block_self]

lemma map_label_eq (h : g.Recorded) (hns : ∀ n ∈ ns, g.Offers p n) : ns.map g.label = ns := by
  rw [map_congr_left fun n hn => (hns n hn).label_eq h, map_id']

lemma RecordedUnder.shape_block (h : g.RecordedUnder p) (n : NodeId) :
    ∃ ls, (g.node n).arguments .shape = block .shape ls ∧ ∀ l ∈ ls, g.Offers p l := by
  refine ⟨_, (h.regular n).arguments_eq .shape, fun l hl => ?_⟩
  obtain ⟨a, ha, -, rfl⟩ := Node.mem_labels.1 hl
  exact h.offers_argument ha

lemma RecordedUnder.commonShape_block (h : g.RecordedUnder p) (ns : List NodeId) :
    ∃ ls, g.commonShape ns = block .shape ls ∧ ∀ l ∈ ls, g.Offers p l := by
  unfold commonShape
  cases hf : (ns.map fun n => (g.node n).arguments .shape).find? fun s => !s.isEmpty with
  | none => exact ⟨[], rfl, by simp⟩
  | some s =>
    obtain ⟨n, -, rfl⟩ := mem_map.1 (mem_of_find?_eq_some hf)
    exact h.shape_block n

end Graph

/-! ### The general forms -/

namespace Build

open KernelFusion.Graph

variable {p : Policy} {g : Graph} {n m : NodeId} {ns ls : List NodeId} {name : String}
  {type : Scalar}

lemma keeps_admitted {act : Build NodeId} {op : Operation} {args : List Argument}
    (h : g.RecordedUnder p) (hok : act g = .ok g.nodes.size (g.insert op type args))
    (he : g.Admits p op type args) :
    Keeps (Traces p) act g fun n g' => p.uses op → g'.Has p n := by
  refine ⟨meets_of_ok hok ⟨(Changes.enter he).traces, fun huse => ⟨h.changes (.enter he), ?_, ?_⟩⟩⟩
  · simp
  · rw [node_insert_self]
    exact huse

lemma keeps_failed {act : Build α} {e : Fault} {P : α → Graph → Prop} (herr : act g = .error e g) :
    Keeps (Traces p) act g P := ⟨meets_of_error herr (refl_of (Traces p) g)⟩

lemma keeps_applied (h : g.RecordedUnder p) (hname : onValues name)
    (hrecords : namedBy p.records name) (hns : ∀ n ∈ ns, g.Has p n) :
    Keeps (Traces p) (apply name ns) g fun n g' =>
      namedBy p.uses name → g'.Has p n := by
  rcases apply_cases g name ns with ⟨e, he⟩ | ⟨-, op, o, hop, ho, hok⟩
  · exact keeps_failed he
  · obtain ⟨haccess, hmem⟩ : op.kind.accesses = false ∧ op.name ≠ "memory" := by
      simpa using of_namedBy hname hop
    obtain ⟨ls, hls, hoffers⟩ := h.commonShape_block ns
    rw [argumentsFrom_eq, map_label_eq h.toRecorded (offers_of_has hns), hls] at hok
    have he : g.Admits p op o.output _ := .value (mem_table_of_find hop).1
      (of_namedBy hrecords hop) haccess hmem (offers_of_has hns) ho hoffers
    exact (keeps_admitted h hok he).mono fun _ _ _ hn huse => hn (of_namedBy huse hop)

lemma records_of_namedBy (h : namedBy p.names name) :
    namedBy p.records name := by
  unfold namedBy at *
  split at h
  · exact Policy.records_of_names h
  · rfl

lemma uses_of_namedBy (h : namedBy p.names name) :
    namedBy p.uses name := by
  unfold namedBy at *
  split at h
  · exact Policy.uses_of_names h
  · rfl

lemma keeps_apply (h : g.RecordedUnder p) (hname : onValues name) (hnames : namedBy p.names name)
    (hns : ∀ n ∈ ns, g.Has p n) :
    Keeps (Traces p) (apply name ns) g fun n g' => g'.Has p n :=
  (keeps_applied h hname (records_of_namedBy hnames) hns).mono
    fun _ _ _ hn => hn (uses_of_namedBy hnames)

lemma names_of_plain (h : namedBy (fun op => !op.isControl) name) :
    namedBy p.names name := by
  unfold namedBy at *
  split at h
  · exact Policy.names_of_not_control (by simpa using h)
  · rfl

lemma names_of_computes (h : computes name) :
    namedBy p.names name := by
  unfold namedBy
  split
  · rename_i op hop
    exact Policy.names_of_not_control (of_computes h hop).2.2.2
  · rfl

lemma alone_of_inputless
    (h : namedBy (fun op => op.overloads.all fun o => o.inputs.isEmpty) name) :
    namedBy p.alone name := by
  unfold namedBy at *
  split at h
  · exact Bool.or_eq_true_iff.2 (.inr h)
  · rfl

lemma keeps_access (h : g.RecordedUnder p) (hname : onMemory name) (hnames : namedBy p.names name)
    (hm : g.Has p m) (hindices : ∀ n ∈ ns, g.Has p n) {operands : List NodeId}
    (hoperands : ∀ n ∈ operands, g.Has p n) :
    Keeps (Traces p) (access name m ns operands) g fun n g' => g'.Has p n := by
  rcases access_cases g name m ns operands with ⟨e, he⟩ | ⟨-, op, o, hop, ho, htype, hok⟩
  · exact keeps_failed he
  · obtain ⟨haccess, hmem⟩ : op.kind.accesses ∧ op.name ≠ "memory" := by
      simpa using of_namedBy hname hop
    have hp := of_namedBy hnames hop
    obtain ⟨hop, hopname⟩ := mem_table_of_find hop
    obtain ⟨ls, hls, hoffers⟩ := h.shape_block (ns.headD m)
    rw [accessArguments_eq, hls, map_label_eq h.toRecorded (offers_of_has hoperands),
      map_label_eq h.toRecorded (offers_of_has hindices), hm.2.label_eq h.toRecorded,
      ← hopname] at hok
    have he := Admits.access hop (Policy.records_of_names hp) haccess hmem hm.2
      (offers_of_has hindices) htype (offers_of_has hoperands) ho hoffers hls
    exact (keeps_admitted h hok he).mono fun _ _ _ hn => hn (Policy.uses_of_names hp)

lemma keeps_source (h : g.RecordedUnder p) (hname : onNothing name) (hnames : namedBy p.names name)
    (halone : namedBy p.alone name) (hls : ∀ l ∈ ls, g.Offers p l) :
    Keeps (Traces p) (source name (block .shape ls) type) g fun n g' => g'.Has p n := by
  rcases source_cases g name (block .shape ls) type with ⟨e, he⟩ | ⟨-, op, hop, hyields, hok⟩
  · exact keeps_failed he
  · have haccess : op.kind.accesses = false := by simpa using of_namedBy hname hop
    have hp := of_namedBy hnames hop
    have he := Admits.source (mem_table_of_find hop).1 (Policy.records_of_names hp)
      haccess hyields hls (of_namedBy halone hop)
    exact (keeps_admitted h hok he).mono fun _ _ _ hn => hn (Policy.uses_of_names hp)

lemma keeps_noted {act : Build NodeId} {P : NodeId → Graph → Prop} (hact : Keeps (Traces p) act g P)
    (hhas : ∀ {n g'}, P n g' → g'.Has p n) {f : NodeId → Graph → Graph}
    (hf : ∀ n g', P n g' → Traces p g' (f n g')) :
    Keeps (Traces p) (do let n ← act; modify (f n); return n) g fun n g' => g'.Has p n := by
  refine Keeps.bind hact fun n g₁ _ hn => ?_
  have ht := hf n g₁ hn
  refine Keeps.bind (keeps_modify (P := fun _ g' => g'.Has p n) ht ((hhas hn).traces ht)) ?_
  exact fun _ g₂ _ hn => ends_pure hn

/-! ### Constants, memory and coordinates -/

lemma keeps_sourceWith (h : g.RecordedUnder p) (hname : onNothing name)
    (hnames : namedBy p.names name) (halone : namedBy p.alone name) (hls : ∀ l ∈ ls, g.Offers p l)
    (data : List UInt32) :
    Keeps (Traces p) (sourceWith name (block .shape ls) type data) g fun n g' => g'.Has p n :=
  keeps_noted (keeps_source h hname hnames halone hls) id fun n _ _ => (Changes.data n data).traces

lemma shapeOf_eq (g : Graph) (ns : List NodeId) :
    shapeOf ns g = .ok (block .shape (ns.map g.label)) g := by
  rw [← argumentsFrom_eq]
  rfl

section

variable (h : g.RecordedUnder p)

include h

lemma keeps_shapeOf (hns : ∀ n ∈ ns, g.Has p n) :
    Keeps (Traces p) (shapeOf ns) g fun args g' =>
      ∃ ls, args = block .shape ls ∧ ∀ l ∈ ls, g'.Offers p l := by
  have hok := shapeOf_eq g ns
  rw [map_label_eq h.toRecorded (offers_of_has hns)] at hok
  exact ⟨meets_of_ok hok ⟨refl_of (Traces p) g, ns, rfl, offers_of_has hns⟩⟩

lemma keeps_shapeArguments (n : NodeId) :
    Keeps (Traces p) (shapeArguments n) g fun args g' =>
      ∃ ls, args = block .shape ls ∧ ∀ l ∈ ls, g'.Offers p l :=
  ⟨⟨refl_of (Traces p) g, h.shape_block n⟩⟩

lemma keeps_constant (type : Scalar) (w : UInt32) :
    Keeps (Traces p) (constant type w) g fun n g' => g'.Has p n := by
  have hnone : ∀ l ∈ ([] : List NodeId), g.Offers p l := by simp
  exact keeps_sourceWith h (by decide +kernel) (names_of_plain (by decide +kernel))
    (alone_of_inputless (by decide +kernel)) hnone [w]

lemma keeps_constantOf (hns : ∀ n ∈ ns, g.Has p n) (type : Scalar) (w : UInt32) :
    Keeps (Traces p) (constantOf ns type w) g fun n g' => g'.Has p n := by
  refine Keeps.bind (keeps_shapeOf h hns) fun args g' ht hargs => ?_
  obtain ⟨ls, rfl, hls⟩ := hargs
  exact keeps_sourceWith (h.traces ht) (by decide +kernel) (names_of_plain (by decide +kernel))
    (alone_of_inputless (by decide +kernel)) hls [w]

lemma keeps_integers (sizes : List Int) :
    Keeps (Traces p) (integers sizes) g fun ns g' => ∀ n ∈ ns, g'.Has p n :=
  keeps_mapM (fun hn ht => hn.traces ht) fun _ _ _ ht => keeps_constant (h.traces ht) .int _

end

/-- Memory that has not got a role yet. -/
def Fresh (p : Policy) (n : NodeId) (g : Graph) : Prop :=
  g.Has p n ∧ (g.node n).isMemory ∧ (g.node n).role = .scratch

lemma keeps_memory (h : g.RecordedUnder p) (hns : ∀ n ∈ ns, g.Has p n) (type : Scalar) :
    Keeps (Traces p) (memory ns type) g (Fresh p) := by
  refine Keeps.bind (keeps_shapeOf h hns) fun args g' ht hargs => ?_
  obtain ⟨ls, rfl, hls⟩ := hargs
  have hkeeps : Keeps (Traces p) (source "memory" (block .shape ls) type)
    g' fun n g' => g'.Has p n :=
    keeps_source (h.traces ht) (by decide +kernel) (names_of_plain (by decide +kernel))
      (alone_of_inputless (by decide +kernel)) hls
  rcases source_cases g' "memory" (block .shape ls) type with ⟨e, he⟩ | ⟨-, op, hop, -, hok⟩
  · exact keeps_failed he
  · obtain ⟨ht', hn⟩ := hkeeps.meets.of_ok hok
    have hname : op.name = "memory" := (mem_table_of_find hop).2
    refine ⟨meets_of_ok hok ⟨ht', hn, ?_, ?_⟩⟩
    · rw [node_insert_self, Node.isMemory, hname]
      rfl
    · rw [node_insert_self]

lemma Fresh.traces {role : MemoryRole} (hn : Fresh p n g) (hrole : p.opened.contains role)
    (slot : Int) : Traces p g (g.setRole n role slot) := by
  refine (Changes.role slot hn.1.2 ?_).traces
  rw [Policy.marks, hrole, hn.2.1, hn.2.2]
  simp

section

variable (h : g.RecordedUnder p)

include h

lemma keeps_constantData (hrole : p.opened.contains .constant) (sizes : List Int)
    (data : List UInt32) :
    Keeps (Traces p) (constantData sizes data) g fun n g' => g'.Has p n := by
  refine Keeps.bind (keeps_integers h sizes) fun ns g' ht hns => ?_
  exact keeps_noted (keeps_memory (h.traces ht) hns .float) And.left fun n g' hn =>
    trans_of (Traces p) (hn.traces hrole 0) (Changes.data n _).traces

lemma keeps_input (hrole : p.opened.contains .input) (hns : ∀ n ∈ ns, g.Has p n) (type : Scalar) :
    Keeps (Traces p) (input ns type) g fun n g' => g'.Has p n :=
  keeps_noted (keeps_memory h hns type) And.left fun _ _ hn => hn.traces hrole 0

lemma keeps_inputSizes (sizes : List Int) :
    Keeps (Traces p) (inputSizes sizes) g fun ns g' => ∀ n ∈ ns, g'.Has p n := by
  refine keeps_mapM (fun hn ht => hn.traces ht) fun i _ g' ht => ?_
  split
  · exact (keeps_memory (h.traces ht) (by simp) .int).mono fun _ _ _ hn => hn.1
  · exact keeps_constant (h.traces ht) .int _

lemma keeps_coordinate (hls : ∀ l ∈ ls, g.Offers p l) (dim : Int) :
    Keeps (Traces p) (coordinate (block .shape ls) dim) g fun n g' => g'.Has p n :=
  keeps_sourceWith h (by decide +kernel) (names_of_plain (by decide +kernel))
    (alone_of_inputless (by decide +kernel)) hls _

lemma keeps_threadIndex (hls : ∀ l ∈ ls, g.Offers p l) :
    Keeps (Traces p) (threadIndex (block .shape ls)) g fun n g' => g'.Has p n :=
  keeps_source h (by decide +kernel) (names_of_plain (by decide +kernel))
    (alone_of_inputless (by decide +kernel)) hls

lemma keeps_load (hm : g.Has p m) (hns : ∀ n ∈ ns, g.Has p n) :
    Keeps (Traces p) (load m ns) g fun n g' => g'.Has p n := by
  exact keeps_access h (by decide +kernel) (names_of_plain (by decide +kernel)) hm hns (by simp)

lemma keeps_store (hm : g.Has p m) (hn : g.Has p n) (hns : ∀ n ∈ ns, g.Has p n) :
    Keeps (Traces p) (store m n ns) g fun n g' => g'.Has p n := by
  exact keeps_access h (by decide +kernel) (names_of_plain (by decide +kernel)) hm hns
    (by simpa using hn)

end

lemma keeps_copyNode (hn : g.Has p n) :
    Keeps (Traces p) (copyNode n (g.node n).args) g fun c g' => g'.Has p c := by
  have hcopy : Keeps (Traces p) (record (g.node n).op (g.node n).type (g.node n).args) g
      fun c g' => g'.Has p c := by
    refine (keeps_admitted hn.1 (record_eq hn.1.recording _ _ _) (.copy hn.2)).mono ?_
    exact fun _ _ _ hc => hc hn.2.2
  exact keeps_get_bind (keeps_noted hcopy id fun c _ _ => (Changes.data c _).traces)

lemma keeps_shape (h : g.RecordedUnder p) (n : NodeId) :
    Keeps (Traces p) (shape n) g fun ns g' => ∀ n ∈ ns, g'.Has p n := by
  refine keeps_get_bind ?_
  dsimp only
  split
  · exact ends_pure (by simp)
  · refine Keeps.bind (keeps_constant h .int (word 1)) fun one g' ht hone => ends_pure ?_
    intro m hm
    obtain ⟨i, -, rfl⟩ := mem_map.1 hm
    rw [size?_eq (h.regular n)]
    cases hl : ((g.node n).labels .shape)[i]? with
    | none => exact hone
    | some l =>
      obtain ⟨a, ha, -, rfl⟩ := Node.mem_labels.1 (mem_of_getElem? hl)
      have hoffers := h.offers_argument ha
      have hl : g.target a.source = a.source := h.labelled.target _ hoffers.1
      exact ⟨h.traces ht, by simpa [hl] using hoffers.traces ht⟩

/-! ### Operators -/

lemma recorder_has : Recorder (Traces p) fun n g => g.Has p n where
  stable hn ht := hn.traces ht
  constant hn type w := keeps_constant hn.1 type w
  apply hn hname hns :=
    keeps_apply hn.1 (onValues_of_computes hname) (names_of_computes hname) hns

end Build

end KernelFusion
