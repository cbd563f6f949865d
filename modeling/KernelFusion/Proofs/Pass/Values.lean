/-
Values of recorded coordinates and addresses.

A node that an operator gives has, when the pass has ended, the value of the operator on the values
of its operands, folded or not (`bearing`). What is known before any thread runs is not affected by
the pass.
-/
import KernelFusion.Proofs.Graph.Value
import KernelFusion.Proofs.Pass.Coordinates

namespace KernelFusion

open List Operation

/-! ### Operations on integers -/

namespace Operation

/-- Does the operation of a name give a value from operands, of the type that all of them have? -/
def isUniform : String → Bool := namedBy fun op =>
  op.valueKind = .operands && op.overloads.all fun o => o.inputs.all fun t => t = o.output

variable {op : Operation}

lemma accesses_of_valueKind (h : op.valueKind = .operands) :
    op.kind.accesses = false := by
  unfold valueKind at h
  split_ifs at h with _ _ _ haccess
  simpa using haccess

lemma accesses_of_valueKind_memory (h : op.valueKind = .memory) :
    op.kind.accesses := by
  unfold valueKind at h
  split_ifs at h with _ _ _ haccess
  exact haccess

end Operation

variable {x : Node} {ns : List NodeId} {xs : List UInt32}

lemma Node.isCoordinate_iff_valueKind :
    x.isCoordinate ↔ x.op.valueKind = .coordinate := by
  rw [Node.isCoordinate, decide_eq_true_eq]
  refine ⟨fun h => by simp [valueKind, h], fun h => ?_⟩
  unfold valueKind at h
  split_ifs at h with _ _ hname
  exact hname

lemma Node.not_isCoordinate_of_isMemory (hmemory : x.isMemory) :
    x.isCoordinate ≠ true := by
  rw [Node.isMemory, decide_eq_true_eq] at hmemory
  simp [Node.isCoordinate, hmemory]

lemma Node.isConst_of_isCoordinate (hcoord : x.isCoordinate) : x.isConst = false := by
  rw [Node.isCoordinate, decide_eq_true_eq] at hcoord
  simp [Node.isConst, hcoord]

lemma Node.valueKind_of_isConst (h : x.isConst) : x.op.valueKind = .word := by
  rw [Node.isConst, decide_eq_true_eq] at h
  simp [valueKind, h]

namespace Graph

variable {σ : Setting} {s f g g' : Graph} {k : ClusterId} {p : Option Position} {n m : NodeId}
  {x y z v w : UInt32} {op : Operation} {type : Scalar} {D : ClusterId → Prop}

/-! ### What the pass leaves alone -/

/-- All clusters. -/
abbrev anywhere : ClusterId → Prop := fun _ => True

/-- What may happen until the pass on `s` has ended. -/
abbrev GoesOn (s g f : Graph) : Prop := Evolves (AccessIn s anywhere) (MovedIn s anywhere) g f

lemma not_accessIn_of_le (hn : s.nodes.size ≤ n) : ¬ AccessIn s D n := by
  rintro ⟨haccess, -⟩
  rw [node_eq_default hn] at haccess
  cases haccess

lemma not_movedIn_of_le (hn : s.nodes.size ≤ n) : ¬ MovedIn s D n := by
  rintro ⟨-, hcoord, -⟩
  rw [node_eq_default hn] at hcoord
  cases hcoord

lemma Yields.not_movedIn (h : s.Yields σ k none n v) : ¬ MovedIn s D n := by
  rintro ⟨-, hcoord, -⟩
  have hkind := Node.isCoordinate_iff_valueKind.1 hcoord
  cases h with
  | constant _ hword => cases hkind.symm.trans hword
  | outside _ _ hnot => exact hnot hkind
  | thread hp => cases hp
  | coordinate hp => cases hp
  | operation _ hoperands => cases hkind.symm.trans hoperands
  | access hp => cases hp

/-- Later changes keep a value they do not touch. -/
lemma Yields.evolves {E F : NodeId → Prop} (h : g.Yields σ k p n v) (hf : Evolves E F g f)
    (hE : ∀ m, (g.node m).op.valueKind = .operands ∨ p ≠ none → ¬ E m)
    (hF : ∀ m w, g.Yields σ k p m w → ¬ F m)
    (hinside : p ≠ none → ∀ m, ∀ a ∈ (g.node m).args, a.source < g.labels.size) :
    f.Yields σ k p n v := by
  have hlt := h.lt_size
  induction h with
  | @constant n hn hkind =>
    have hword : (g.node n).word = (f.node n).word := by rw [Node.word, Node.word, hf.data n hn]
    rw [hword]
    exact .constant (Nat.lt_of_lt_of_le hn hf.size) (by rwa [hf.op n hn])
  | @outside n hn hword hcoord hk =>
    exact .outside (Nat.lt_of_lt_of_le hn hf.size) (by rwa [hf.op n hn]) (by rwa [hf.op n hn])
      (by rwa [hf.cluster n hn])
  | @thread n q hp hk hkind => exact .thread hp (by rwa [hf.cluster n hlt]) (by rwa [hf.op n hlt])
  | @coordinate n q v hp hk hkind hdim hv =>
    refine .coordinate hp (by rwa [hf.cluster n hlt]) (by rwa [hf.op n hlt]) ?_ ?_ <;>
      rwa [Node.word, hf.data n hlt]
  | @operation n value hk hkind hlabels hargs ih =>
    have hsame := hf.args n hlt (hE n (.inl hkind))
    have hinputs : (g.node n).arguments .input = (f.node n).arguments .input := by
      rw [Node.arguments, Node.arguments, hsame]
    rw [← hf.op n hlt, ← hf.type n hlt, ← hf.data n hlt, hinputs]
    refine .operation (by rwa [hf.cluster n hlt]) (by rwa [hf.op n hlt]) (fun a ha hinput => ?_)
      fun a ha hinput => ?_
    · exact Nat.lt_of_lt_of_le (hlabels a (hsame ▸ ha) hinput) hf.labels
    · rw [hsame] at ha
      have hsource : f.source a = g.source a :=
        hf.target a.source (hlabels a ha hinput) (hF _ _ (hargs a ha hinput))
      rw [hsource]
      exact ih a ha hinput (hargs a ha hinput).lt_size
  | @access n q value hp hk hkind hargs ih =>
    have hsome : p ≠ none := hp ▸ Option.some_ne_none q
    have hsame := hf.args n hlt (hE n (.inr hsome))
    have harguments : ∀ K, (g.node n).arguments K = (f.node n).arguments K := fun K => by
      rw [Node.arguments, Node.arguments, hsame]
    rw [harguments .input, harguments .index]
    refine .access hp (by rwa [hf.cluster n hlt]) (by rwa [hf.op n hlt]) fun a ha hkinds => ?_
    rw [hsame] at ha
    have hsource : f.source a = g.source a :=
      hf.target a.source (hinside hsome n a ha) (hF _ _ (hargs a ha hkinds))
    rw [hsource]
    exact ih a ha hkinds (hargs a ha hkinds).lt_size

lemma Yields.goesOn (h : s.Yields σ k none n v) (hf : GoesOn s s f) : f.Yields σ k none n v := by
  refine h.evolves hf (fun m hm haccess => ?_) (fun _ _ hm => hm.not_movedIn) fun hnone =>
    absurd rfl hnone
  have hkind := hm.resolve_right fun hnone => hnone rfl
  have haccesses := haccess.1
  rw [accesses_of_valueKind hkind] at haccesses
  cases haccesses

/-! ### Nodes that bear words -/

/-- The node `n` has the value `x` when the pass on `s` has ended with `f`. It is an integer, and
its label stands for it throughout. -/
structure Bears (σ : Setting) (s f : Graph) (k : ClusterId) (p : Option Position) (n : NodeId)
    (x : UInt32) (g : Graph) : Prop where
  grown : s.nodes.size ≤ g.nodes.size
  lt : n < g.nodes.size
  current : g.current = some k
  integral : (g.node n).type.Integral
  named : g.Named n
  stays : ¬ MovedIn s anywhere n
  yields : GoesOn s g f → f.Yields σ k p n x

/-- The node is a signed integer. -/
structure IsSigned (n : NodeId) (g : Graph) : Prop where
  lt : n < g.nodes.size
  type : (g.node n).type = .int

/-- Recording in the address pass. -/
abbrev Records (s : Graph) : Graph → Graph → Prop :=
  Build.Proceeds (AccessIn s anywhere) (MovedIn s anywhere) fun _ => True

namespace Bears

variable (h : Bears σ s f k p n x g)

include h

lemma goesOn (hg : GoesOn s g g') (hcurrent : g'.current = some k) :
    Bears σ s f k p n x g' :=
  ⟨Nat.le_trans h.grown hg.size, Nat.lt_of_lt_of_le h.lt hg.size, hcurrent,
    by rw [hg.type n h.lt]; exact h.integral, h.named.evolves hg h.lt h.stays, h.stays,
    fun hf => h.yields (hg.trans hf)⟩

lemma stable (hg : Records s g g') : Bears σ s f k p n x g' :=
  h.goesOn hg.evolves (hg.current.trans h.current)

lemma congr (hxy : GoesOn s g f → x = y) : Bears σ s f k p n y g :=
  ⟨h.grown, h.lt, h.current, h.integral, h.named, h.stays, fun hf => hxy hf ▸ h.yields hf⟩

lemma eq_word (hconst : (g.node n).isConst) (hf : GoesOn s g f) :
    x = (g.node n).word := by
  have hword : (f.node n).word = (g.node n).word := by rw [Node.word, Node.word, hf.data n h.lt]
  have hkind : (f.node n).op.valueKind = .word := by
    rw [hf.op n h.lt]
    exact Node.valueKind_of_isConst hconst
  rw [← hword]
  exact (h.yields hf).unique (.constant (Nat.lt_of_lt_of_le h.lt hf.size) hkind)

end Bears

lemma IsSigned.stable (h : IsSigned n g) (hg : Records s g g') : IsSigned n g' :=
  ⟨Nat.lt_of_lt_of_le h.lt hg.evolves.size, (hg.evolves.type n h.lt).trans h.type⟩

lemma named_insertWith (g : Graph) (op : Operation) (type : Scalar) (args : List Argument)
    (data : List UInt32) :
    (g.insertWith op type args data).Named g.nodes.size := by
  have hlabel : (g.insertWith op type args data).label g.nodes.size = g.labels.size := by
    rw [label, node_insertWith_self]
  refine ⟨?_, ?_⟩
  · rw [hlabel]
    simp [insertWith, setData, modifyNode, insert]
  · rw [hlabel]
    show (g.insert op type args).target g.labels.size = g.nodes.size
    exact target_insert_self

lemma Bears.insert_constant (h : Bears σ s f k p n x g) (hop : op.name = "const")
    (htype : type.Integral) (w : UInt32) :
    Bears σ s f k p g.nodes.size w (g.insertWith op type [] [w]) := by
  have hnode : (g.insertWith op type [] [w]).node g.nodes.size = _ := node_insertWith_self
  have hsize : g.nodes.size < (g.insertWith op type [] [w]).nodes.size :=
    by simp [size_nodes_insertWith]
  refine ⟨Nat.le_trans h.grown (Nat.le_of_lt hsize), hsize, h.current, by rw [hnode]; exact htype,
    named_insertWith g op type [] [w], not_movedIn_of_le h.grown, fun hf => ?_⟩
  have hword : (f.node g.nodes.size).word = w := by
    rw [Node.word, hf.data _ hsize, hnode]
    rfl
  have hkind : (f.node g.nodes.size).op.valueKind = .word := by
    rw [hf.op _ hsize, hnode]
    simp [valueKind, hop]
  exact hword ▸ .constant (Nat.lt_of_lt_of_le hsize hf.size) hkind

/-- A recorded operation bears what it computes from its operands. -/
lemma Bears.insert_apply (h : Bears σ s f k p n x g)
    (hns : Build.BearAll (Bears σ s f k p) ns xs g) (hop : op.valueKind = .operands)
    (htype : type.Integral) :
    Bears σ s f k p g.nodes.size (σ.compute op.name type [] xs)
      (g.insert op type (g.argumentsFrom .input ns ++ g.commonShape ns)) := by
  obtain ⟨args, hdef⟩ : ∃ args, args = g.argumentsFrom .input ns ++ g.commonShape ns := ⟨_, rfl⟩
  rw [← hdef]
  have hevolves : Evolves (AccessIn s anywhere) (MovedIn s anywhere) g (g.insert op type args) :=
    Evolves.insert g op type _
  have hnode : (g.insert op type args).node g.nodes.size =
      { op, type, args, label := g.labels.size, cluster := g.current } := node_insert_self
  have hnamed := insertWith_nil ▸ named_insertWith g op type args []
  have hsize : g.nodes.size < (g.insert op type args).nodes.size := by simp
  have hcurrent : (g.insert op type args).current = some k := h.current
  generalize g.insert op type args = g' at *
  refine ⟨Nat.le_trans h.grown (Nat.le_of_lt hsize), hsize, hcurrent, by rw [hnode]; exact htype,
    hnamed, not_movedIn_of_le h.grown, fun hf => ?_⟩
  have hargs : (f.node g.nodes.size).args = args := by
    rw [hf.args _ hsize (not_accessIn_of_le h.grown), hnode]
  have hinputs : (f.node g.nodes.size).arguments .input = block .input (ns.map g.label) :=
    Node.arguments_of_block (by rw [hargs, hdef, filter_operands])
  -- an operand is found by its place
  have hoperand : ∀ a ∈ (f.node g.nodes.size).args, a.kind = .input →
      a.source < f.labels.size ∧ f.Yields σ k p (f.source a) (xs.getD a.index.toNat 0) := by
    intro a ha hinput
    have hmem : a ∈ (f.node g.nodes.size).arguments .input := Node.mem_arguments.2 ⟨ha, hinput⟩
    rw [hinputs] at hmem
    obtain ⟨i, l, hl, rfl⟩ := mem_block.1 hmem
    rw [getElem?_map, Option.map_eq_some_iff] at hl
    obtain ⟨m, hm, rfl⟩ := hl
    obtain ⟨x, hx, hbears⟩ := exists_of_forall₂ hns hm
    have hf' := hevolves.trans hf
    have hnamed := hbears.named.evolves hf' hbears.lt hbears.stays
    have hlabel := hf'.label m hbears.lt hbears.stays
    refine ⟨hlabel ▸ hnamed.lt, ?_⟩
    have hsource : f.source ⟨.input, i, g.label m⟩ = m := hlabel ▸ hnamed.target
    rw [hsource]
    simpa [hx] using hbears.yields hf'
  have hvalues : ((f.node g.nodes.size).arguments .input).map (fun a => xs.getD a.index.toNat 0) =
      xs := by
    rw [hinputs]
    refine ext_getElem? fun i => ?_
    rw [getElem?_map, getElem?_block, getElem?_map, Option.map_map, Option.map_map]
    have hlength := hns.length_eq
    by_cases hi : i < ns.length
    · simp [hi, hlength ▸ hi]
    · simp [hi, hlength ▸ hi]
  have hname : (f.node g.nodes.size).op = op := by rw [hf.op _ hsize, hnode]
  have htype' : (f.node g.nodes.size).type = type := by rw [hf.type _ hsize, hnode]
  have hdata : (f.node g.nodes.size).data = [] := by rw [hf.data _ hsize, hnode]
  have hyields := Yields.operation (σ := σ) (p := p) (k := k)
    (by rw [hf.cluster _ hsize, hnode]; exact h.current) (by rw [hname]; exact hop)
    (fun a ha hinput => (hoperand a ha hinput).1) fun a ha hinput => (hoperand a ha hinput).2
  rwa [hname, htype', hdata, hvalues] at hyields

end Graph

/-! ### Operators -/

namespace Build

open KernelFusion.Graph

variable {σ : Setting} {s f g g' : Graph} {k : ClusterId} {p : Option Position} {n m l : NodeId}
  {x y z w : UInt32} {name : String} {type : Scalar}

lemma keeps_bears_constant (h : Bears σ s f k p n x g) (htype : type.Integral) (w : UInt32) :
    Keeps (Records s) (constant type w) g fun o g' => Bears σ s f k p o w g' ∧
      (type = .int → IsSigned o g') := by
  refine keeps_sourceWith_of fun op hop _ => ?_
  have hname : op.name = "const" := (mem_table_of_find hop).2.trans (by decide +kernel)
  have hbears := h.insert_constant hname htype w
  refine ⟨⟨Evolves.insertWith g op type [] [w], rfl, id⟩, hbears, fun hint => ⟨hbears.lt, ?_⟩⟩
  rw [node_insertWith_self]
  exact hint

lemma keeps_bears_threadIndex {q : Position} (hgrown : s.nodes.size ≤ g.nodes.size)
    (hcurrent : g.current = some k) (shape : List Argument) :
    Keeps (Records s) (threadIndex shape) g fun t g' =>
      Bears σ s f k (some q) t q.thread g' ∧ IsSigned t g' := by
  refine keeps_source_of fun op hop _ => ?_
  have hname : op.name = "thread_id" := (mem_table_of_find hop).2.trans (by decide +kernel)
  have hlt : g.nodes.size < (g.insert op .int shape).nodes.size := by simp
  have hnode : (g.insert op .int shape).node g.nodes.size = _ := node_insert_self
  refine ⟨⟨Evolves.insert g op .int shape, rfl, id⟩, ⟨Nat.le_trans hgrown (Nat.le_of_lt hlt),
    hlt, hcurrent, by rw [hnode]; exact .inl rfl, ?_, not_movedIn_of_le hgrown, fun hf =>
    .thread rfl ?_ ?_⟩, hlt, by rw [hnode]⟩
  · rw [← insertWith_nil]
    exact named_insertWith g op .int shape []
  · rw [hf.cluster _ hlt, hnode]
    exact hcurrent
  · rw [hf.op _ hlt, hnode]
    simp [valueKind, hname]

lemma keeps_bears_apply (hname : isUniform name) (h : Bears σ s f k p n x g) (hn : n ∈ ns)
    (hns : BearAll (Bears σ s f k p) ns xs g) :
    Keeps (Records s) (apply name ns) g fun o => Bears σ s f k p o
      (σ.compute (Text.removeSpaces name) (g.node n).type [] xs) := by
  refine keeps_apply_of fun op o hop ho => ⟨⟨Evolves.insert g op o.output _, rfl, id⟩, ?_⟩
  obtain ⟨hkind, huniform⟩ : op.valueKind = .operands ∧
      ∀ o ∈ op.overloads, ∀ t ∈ o.inputs, t = o.output := by
    simpa using of_namedBy hname hop
  have hinputs : o.inputs = ns.map fun m => (g.node m).type := by
    simpa using find?_some ho
  have htype : (g.node n).type = o.output :=
    huniform o (mem_of_find?_eq_some ho) _ (hinputs ▸ mem_map_of_mem hn)
  have hbears := h.insert_apply hns hkind (htype ▸ h.integral)
  rw [(mem_table_of_find hop).2] at hbears
  rw [htype]
  exact hbears

lemma isUniform_operation (op : Arithmetic) : isUniform op.operation ∧
    Text.removeSpaces op.operation = op.operation := by
  cases op <;> decide +kernel

/-- Arithmetic bears its word, whichever shortcut it takes. -/
lemma keeps_bears_arithmetic (op : Arithmetic) (hn : Bears σ s f k p n x g)
    (hm : Bears σ s f k p m y g) (hw : op.evaluate (g.node n).type x y = some w) :
    Keeps (Records s) (arithmetic op n m) g fun o => Bears σ s f k p o w := by
  have hword : ∀ {c}, g.Shortens n m op c → GoesOn s g f → c.wordOf x y = w := by
    intro c hc hf
    have hc := hc.evaluate_eq hn.integral hm.integral (fun h => hn.eq_word h hf)
      fun h => hm.eq_word h hf
    exact Option.mem_unique hc hw
  refine keeps_arithmetic_of (fun hc => hn.congr (hword hc)) (fun hc => hm.congr (hword hc))
    (fun hc => ?_) (fun w' hc => ?_) ?_
  · have huniform : isUniform "neg" = true := by decide +kernel
    have happly := keeps_bears_apply huniform hm mem_cons_self (.cons hm .nil)
    rw [(by decide +kernel : Text.removeSpaces "neg" = "neg"), σ.neg y hm.integral] at happly
    exact happly.mono fun o g' hg ho => ho.congr fun hf => hword hc (hg.evolves.trans hf)
  · exact (keeps_bears_constant hn hn.integral w').mono fun o g' hg ho =>
      ho.1.congr fun hf => hword hc (hg.evolves.trans hf)
  · obtain ⟨huniform, hname⟩ := isUniform_operation op
    have happly := keeps_bears_apply huniform hn mem_cons_self (.cons hn (.cons hm .nil))
    rwa [hname, σ.arithmetic hn.integral hw] at happly

lemma keeps_bears_clamp (hsigned : IsSigned m g) (hn : Bears σ s f k p n x g)
    (hm : Bears σ s f k p m y g) (hl : Bears σ s f k p l z g) :
    Keeps (Records s) (apply "clamp" [n, m, l]) g
      fun o => Bears σ s f k p o (σ.compute "clamp" .int [] [x, y, z]) := by
  have huniform : isUniform "clamp" = true := by decide +kernel
  have happly := keeps_bears_apply huniform hm (by simp) (.cons hn (.cons hm (.cons hl .nil)))
  rwa [(by decide +kernel : Text.removeSpaces "clamp" = "clamp"), hsigned.type] at happly

lemma bearing (σ : Setting) (s f : Graph) (k : ClusterId) (p : Option Position) :
    Reckons (Records s) (Bears σ s f k p) IsSigned
      fun x y z => σ.compute "clamp" .int [] [x, y, z] where
  after _ _ _ := trans_of (Records s)
  stable h hg := h.stable hg
  signed h hg := h.stable hg
  integer h i := (keeps_bears_constant h (.inl rfl) (word i)).mono
    fun _ _ _ ho => ⟨ho.1, ho.2 rfl⟩
  add hn hm :=
    keeps_bears_arithmetic .add hn hm (Arithmetic.evaluate_eq hn.integral (by decide) _ _)
  sub hn hm :=
    keeps_bears_arithmetic .sub hn hm (Arithmetic.evaluate_eq hn.integral (by decide) _ _)
  mul hn hm :=
    keeps_bears_arithmetic .mul hn hm (Arithmetic.evaluate_eq hn.integral (by decide) _ _)
  div hsigned hn hm := keeps_bears_arithmetic .div hn hm (by rw [hsigned.type]; rfl)
  clamp := keeps_bears_clamp

end Build

end KernelFusion
