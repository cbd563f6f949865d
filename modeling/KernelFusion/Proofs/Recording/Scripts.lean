/-
Scripts record regular graphs.

A step is regular if it leaves the arguments of nodes alone and hands memory to an operation
exactly if the operation accesses memory. Whatever regular steps run, and whichever of them fail,
the graph comes about by changes that a policy allows (`Script.history`).
-/
import KernelFusion.Proofs.Recording.Calls
import KernelFusion.Script.Run

namespace KernelFusion

open Build Operation Step

/-! ### Regular steps -/

/-- Is the function applied to values only? -/
def TensorFunction.isRegular : TensorFunction → Bool
  | .folding _ => true
  | .named name => onValues name

/-- Does the action record regular nodes? -/
def Action.isRegular : Action → Bool
  | .call f _ => f.isRegular
  | .access name _ _ _ => onMemory name
  | .source name _ _ => onNothing name
  | .addArgument .. | .removeArguments .. => false
  | _ => true

mutual

/-- Does the step record regular nodes? -/
def Step.isRegular : Step → Bool
  | .act action _ => action.isRegular
  | .loop _ _ _ _ body => allRegular body

/-- Do all steps record regular nodes? -/
def Step.allRegular : List Step → Bool
  | [] => true
  | s :: rest => s.isRegular && allRegular rest

end

/-! ### Steps under a policy -/

/-- Does a policy allow the action? -/
def Action.obeys (p : Policy) : Action → Bool
  | .call (.named name) _ | .access name _ _ _ => namedBy p.names name
  | .source name _ _ => namedBy p.names name && namedBy p.alone name
  | .constantData .. => p.opened.contains .constant
  | .input .. => p.opened.contains .input
  | .setRole _ role _ => p.assigned.contains role
  | _ => true

mutual

/-- Does a policy allow the step? -/
def Step.obeys (p : Policy) : Step → Bool
  | .act action _ => action.obeys p
  | .loop _ _ _ _ body => allObey p body

/-- Does a policy allow all steps? -/
def Step.allObey (p : Policy) : List Step → Bool
  | [] => true
  | s :: rest => s.obeys p && allObey p rest

end

lemma Operation.namedBy_of_forall {q : Operation → Bool} (h : ∀ op, q op) (name : String) :
    namedBy q name := by
  unfold namedBy
  split
  · exact h _
  · rfl

lemma Action.obeys_free (a : Action) : a.obeys .free := by
  have hnames : ∀ name, namedBy Policy.free.names name :=
    namedBy_of_forall fun _ => rfl
  have halone : ∀ name, namedBy Policy.free.alone name :=
    namedBy_of_forall fun _ => rfl
  unfold obeys
  split
  · exact hnames _
  · exact hnames _
  · exact Bool.and_eq_true_iff.2 ⟨hnames _, halone _⟩
  · rfl
  · rfl
  · rename_i role _
    cases role <;> rfl
  · rfl

mutual

lemma Step.obeys_free : ∀ s : Step, s.obeys .free
  | .act action _ => by
    rw [obeys]
    exact action.obeys_free
  | .loop _ _ _ _ body => by
    rw [obeys]
    exact allObey_free body

lemma Step.allObey_free : ∀ l : List Step, allObey .free l
  | [] => by rw [allObey]
  | s :: rest => by
    rw [allObey, obeys_free s, allObey_free rest]
    rfl

end

/-! ### Scenes -/

namespace Scene

/-- The state of a scene while a program is recorded. -/
structure RecordedUnder (p : Policy) (s : Scene) : Prop where
  graph : s.graph.RecordedUnder p
  names : ∀ q ∈ s.names, s.graph.Offers p q.2

/-- The second scene comes from the first one by steps that the policy allows. -/
def Grows (p : Policy) (s s' : Scene) : Prop :=
  s.RecordedUnder p → s'.RecordedUnder p ∧ s.graph.Traces p s'.graph

variable {p : Policy} {s s' : Scene} {n : NodeId}

instance : IsPreorder Scene (Grows p) where
  refl _ h := ⟨h, .refl⟩
  trans _ _ _ h₁ h₂ h := by
    obtain ⟨hr₁, ht₁⟩ := h₁ h
    obtain ⟨hr₂, ht₂⟩ := h₂ hr₁
    exact ⟨hr₂, ht₁.trans ht₂⟩

/-- The scene is being recorded, its graph has the node, and its value may be used. -/
def Has (p : Policy) (s : Scene) (n : NodeId) : Prop := s.RecordedUnder p ∧ s.graph.Offers p n

lemma Has.grows (h : s.Has p n) (hs : s.Grows p s') : s'.Has p n :=
  ⟨(hs h.1).1, h.2.traces (hs h.1).2⟩

lemma Has.graph (h : s.Has p n) : s.graph.Has p n := ⟨h.1.graph, h.2⟩

lemma RecordedUnder.withGraph (h : s.RecordedUnder p) {g : Graph} (hg : s.graph.Traces p g) :
    ({ s with graph := g } : Scene).RecordedUnder p :=
  ⟨h.graph.traces hg, fun q hq => (h.names q hq).traces hg⟩

end Scene

/-- What was made is there. -/
def Made.In (p : Policy) (s : Scene) : Made → Prop
  | .one n => s.Has p n
  | .many ns => ∀ n ∈ ns, s.Has p n
  | .answer _ => True

namespace Script

open Scene

variable {p : Policy} {s : Scene} {n : NodeId} {b : Build NodeId} {ns : List NodeId}

lemma keeps_build {b : Build α} {P : α → Graph → Prop} (h : s.RecordedUnder p)
    (hb : Keeps (Graph.Traces p) b s.graph P) :
    Keeps (Grows p) (build b) s fun a s' => s'.RecordedUnder p ∧ P a s'.graph := by
  cases hrun : b s.graph with
  | ok a g =>
    obtain ⟨hg, hp⟩ := hb.meets.of_ok hrun
    have hs := h.withGraph hg
    have hact : build b s = .ok a { s with graph := g } := by rw [build, hrun]
    exact ⟨meets_of_ok hact ⟨fun _ => ⟨hs, hg⟩, hs, hp⟩⟩
  | error e g =>
    have hg := hb.meets.of_error hrun
    have hact : build b s = .error e { s with graph := g } := by rw [build, hrun]
    exact ⟨meets_of_error hact fun _ => ⟨h.withGraph hg, hg⟩⟩

lemma keeps_made (h : s.RecordedUnder p)
    (hb : Keeps (Graph.Traces p) b s.graph fun n g => g.Has p n) :
    Keeps (Grows p) (build b) s fun n s' => s'.Has p n :=
  (keeps_build h hb).mono fun _ _ _ hn => ⟨hn.1, hn.2.2⟩

lemma keeps_tensor (h : s.RecordedUnder p) (name : String) :
    Keeps (Grows p) (tensor name) s fun n s' => s'.Has p n := by
  refine keeps_get_bind ?_
  split
  · rename_i n hn
    exact ends_pure ⟨h, h.names _ (mem_of_lookup hn)⟩
  · exact keeps_throw

lemma keeps_tensors (h : s.RecordedUnder p) (names : List String) :
    Keeps (Grows p) (tensors names) s fun ns s' => ∀ n ∈ ns, s'.Has p n :=
  keeps_mapM (fun hn hs => hn.grows hs) fun name _ _ hs => keeps_tensor (hs h).1 name

lemma graph_has (h : ∀ n ∈ ns, s.Has p n) : ∀ n ∈ ns, s.graph.Has p n :=
  fun n hn => (h n hn).graph

lemma keeps_extent (h : s.RecordedUnder p) (shape : Extent) :
    Keeps (Grows p) (extent shape) s fun ns s' => ∀ n ∈ ns, s'.Has p n := by
  cases shape with
  | sizes sizes =>
    refine (keeps_build h (keeps_integers h.graph sizes)).mono ?_
    exact fun ns s' _ hns n hn => ⟨hns.1, (hns.2 n hn).2⟩
  | tensors names => exact keeps_tensors h names

lemma keeps_domain (h : s.RecordedUnder p) (d : Domain) :
    Keeps (Grows p) (domain d) s fun args s' =>
      s'.RecordedUnder p ∧ ∃ ls, args = block .shape ls ∧ ∀ l ∈ ls, s'.graph.Offers p l := by
  cases d with
  | like name =>
    refine Keeps.bind (keeps_tensor h name) fun n s' _ hn => ?_
    exact keeps_build hn.1 (keeps_shapeArguments hn.1.graph n)
  | extent shape =>
    refine Keeps.bind (keeps_extent h shape) fun ns s' hs hns => ?_
    exact keeps_build (hs h).1 (keeps_shapeOf (hs h).1.graph (graph_has hns))

lemma keeps_domainRank (h : s.RecordedUnder p) (d : Domain) :
    Keeps (Grows p) (domainRank d) s fun _ _ => True := by
  match d with
  | .like name =>
    exact Keeps.bind (keeps_tensor h name) fun _ _ _ _ => keeps_get_bind (ends_pure trivial)
  | .extent (.sizes _) => exact ends_pure trivial
  | .extent (.tensors _) => exact ends_pure trivial

/-! ### Actions -/

lemma keeps_run {f : TensorFunction} {g : Graph} (h : g.RecordedUnder p) (hf : f.isRegular)
    {operands : List String} (hp : (Action.call f operands).obeys p) (hns : ∀ n ∈ ns, g.Has p n) :
    Keeps (Graph.Traces p) (f.run ns) g fun n g' => g'.Has p n := by
  cases f with
  | named name => exact keeps_apply h hf hp hns
  | folding op =>
    unfold TensorFunction.run
    split
    · rename_i a b _
      exact recorder_has.keeps_arithmetic _ (hns a (by simp)) (hns b (by simp))
    · have hcomputes := computes_operation
      exact keeps_apply h (onValues_of_computes (hcomputes _))
        (names_of_computes (hcomputes _)) hns
    · contradiction

lemma onMemory_scatter (kind : ScatterKind) : onMemory kind.operation := by
  cases kind <;> decide +kernel

lemma plain_scatter (kind : ScatterKind) :
    namedBy (fun op => !op.isControl) kind.operation := by
  cases kind <;> decide +kernel

lemma keeps_one (h : s.RecordedUnder p)
    (hb : Keeps (Graph.Traces p) b s.graph fun n g => g.Has p n) :
    Keeps (Grows p) (do return Made.one (← build b)) s fun made s' => made.In p s' :=
  Keeps.bind (keeps_made h hb) fun _ _ _ hn => ends_pure hn

lemma keeps_change {f : Graph → Graph} (h : s.RecordedUnder p) (hf : s.graph.Traces p (f s.graph)) :
    Keeps (Grows p) (build (modify f)) s fun _ _ => True :=
  (keeps_build (P := fun _ _ => True) h (keeps_modify hf trivial)).mono fun _ _ _ _ => trivial

lemma keeps_asked (h : s.RecordedUnder p) (name : String) {f : NodeId → Scene → Answer} :
    Keeps (Grows p) (do let n ← tensor name; return Made.answer (f n (← get))) s
      fun made s' => made.In p s' :=
  Keeps.bind (keeps_tensor h name) fun _ _ _ _ => keeps_get_bind (ends_pure trivial)

/-- Every regular action keeps the recording, one case for each action. -/
lemma keeps_perform (h : s.RecordedUnder p) {a : Action} (ha : a.isRegular) (hp : a.obeys p) :
    Keeps (Grows p) (perform a) s fun made s' => made.In p s' := by
  match a with
  | .constant type w shape =>
    refine Keeps.bind (keeps_extent h shape) fun ns s₁ h₁ hns => ?_
    exact keeps_one (h₁ h).1 (keeps_constantOf (h₁ h).1.graph (graph_has hns) type w)
  | .constantData sizes data =>
    exact keeps_one h (keeps_constantData h.graph hp sizes data)
  | .memory type shape =>
    refine Keeps.bind (keeps_tensors h shape) fun ns s₁ h₁ hns => ?_
    exact keeps_one (h₁ h).1 ((keeps_memory (h₁ h).1.graph (graph_has hns) type).mono
      fun _ _ _ hn => hn.1)
  | .input type (.sizes sizes) =>
    refine keeps_one h (Keeps.bind (keeps_inputSizes h.graph sizes) fun ns g hg hns => ?_)
    exact keeps_input (h.graph.traces hg) hp hns type
  | .input type (.tensors names) =>
    refine Keeps.bind (keeps_tensors h names) fun ns s₁ h₁ hns => ?_
    exact keeps_one (h₁ h).1 (keeps_input (h₁ h).1.graph hp (graph_has hns) type)
  | .index d dim =>
    refine Keeps.bind (keeps_domain h d) ?_
    rintro _ s₁ - ⟨h₁, ls, rfl, hls⟩
    exact keeps_one h₁ (keeps_coordinate h₁.graph hls dim)
  | .indices d =>
    refine Keeps.bind (keeps_domainRank h d) fun rank s₁ h₁ _ => ?_
    have hall : Keeps (Grows p) ((List.range rank).mapM fun (i : Nat) => do
        let shape ← domain d
        build (coordinate shape i)) s₁ fun ns s' => ∀ n ∈ ns, s'.Has p n := by
      refine keeps_mapM (fun hn hs => hn.grows hs) fun i _ s₂ h₂ => ?_
      refine Keeps.bind (keeps_domain (h₂ (h₁ h).1).1 d) ?_
      rintro _ s₃ - ⟨h₃, ls, rfl, hls⟩
      exact keeps_made h₃ (keeps_coordinate h₃.graph hls i)
    exact Keeps.bind hall fun _ _ _ hns => ends_pure hns
  | .threadIndex d =>
    refine Keeps.bind (keeps_domain h d) ?_
    rintro _ s₁ - ⟨h₁, ls, rfl, hls⟩
    exact keeps_one h₁ (keeps_threadIndex h₁.graph hls)
  | .load memory indices =>
    refine Keeps.bind (keeps_tensor h memory) fun m s₁ h₁ hm => ?_
    refine Keeps.bind (keeps_tensors hm.1 indices) fun ns s₂ h₂ hns => ?_
    exact keeps_one (h₂ hm.1).1
      (keeps_load (h₂ hm.1).1.graph (hm.grows h₂).graph (graph_has hns))
  | .store memory value indices =>
    refine Keeps.bind (keeps_tensor h memory) fun m s₁ h₁ hm => ?_
    refine Keeps.bind (keeps_tensor hm.1 value) fun n s₂ h₂ hn => ?_
    refine Keeps.bind (keeps_tensors hn.1 indices) fun ns s₃ h₃ hns => ?_
    have hm' := hm.grows (trans_of (Grows p) h₂ h₃)
    exact keeps_one hm'.1
      (keeps_store hm'.1.graph hm'.graph (hn.grows h₃).graph (graph_has hns))
  | .scatter kind memory value indices =>
    refine Keeps.bind (keeps_tensor h memory) fun m s₁ h₁ hm => ?_
    refine Keeps.bind (keeps_tensor hm.1 value) fun n s₂ h₂ hn => ?_
    refine Keeps.bind (keeps_tensors hn.1 indices) fun ns s₃ h₃ hns => ?_
    have hm' := hm.grows (trans_of (Grows p) h₂ h₃)
    have hvalue : ∀ v ∈ [n], s₃.graph.Has p v := by simpa using (hn.grows h₃).graph
    have haccess := keeps_access hm'.1.graph (onMemory_scatter kind)
      (names_of_plain (plain_scatter kind)) hm'.graph (graph_has hns) hvalue
    exact Keeps.bind (keeps_made hm'.1 haccess) fun _ _ _ _ => ends_pure trivial
  | .call f operands =>
    refine Keeps.bind (keeps_tensors h operands) fun ns s₁ h₁ hns => ?_
    exact keeps_one (h₁ h).1 (keeps_run (h₁ h).1.graph ha hp (graph_has hns))
  | .access operation memory indices operands =>
    refine Keeps.bind (keeps_tensor h memory) fun m s₁ h₁ hm => ?_
    refine Keeps.bind (keeps_tensors hm.1 indices) fun ns s₂ h₂ hns => ?_
    refine Keeps.bind (keeps_tensors (h₂ hm.1).1 operands) fun xs s₃ h₃ hxs => ?_
    have hm' := hm.grows (trans_of (Grows p) h₂ h₃)
    have hns' : ∀ n ∈ ns, s₃.Has p n := fun n hn => (hns n hn).grows h₃
    exact keeps_one hm'.1
      (keeps_access hm'.1.graph ha hp hm'.graph (graph_has hns') (graph_has hxs))
  | .source operation shape type =>
    refine Keeps.bind (keeps_tensors h shape) fun ns s₁ h₁ hns => ?_
    have hg₁ := (h₁ h).1.graph
    refine keeps_one (h₁ h).1 (Keeps.bind (keeps_shapeOf hg₁ (graph_has hns)) ?_)
    rintro _ g hg ⟨ls, rfl, hls⟩
    obtain ⟨hnames, halone⟩ := Bool.and_eq_true_iff.1 hp
    exact keeps_source (hg₁.traces hg) ha hnames halone hls
  | .sum x dim =>
    refine Keeps.bind (keeps_tensor h x) fun n s₁ h₁ hn => ?_
    have hvalue : ∀ v ∈ [n], s₁.graph.Has p v := by simpa using hn.graph
    have hname : computes "sum" = true := by decide +kernel
    have hsum := keeps_apply hn.1.graph (onValues_of_computes hname)
      (names_of_computes hname) hvalue
    refine Keeps.bind (keeps_made hn.1 hsum) fun m s₂ h₂ hm => ?_
    exact Keeps.bind (keeps_change hm.1 (Graph.Changes.data m [word dim]).traces) fun _ s₃ h₃ _ =>
      ends_pure (hm.grows h₃)
  | .copy x =>
    refine Keeps.bind (keeps_tensor h x) fun n s₁ h₁ hn => ?_
    exact keeps_one hn.1 (keeps_get_bind (keeps_copyNode hn.graph))
  | .shape x =>
    refine Keeps.bind (keeps_tensor h x) fun n s₁ h₁ hn => ?_
    refine Keeps.bind (keeps_build hn.1 (keeps_shape hn.1.graph n)) fun ns s₂ _ hns => ?_
    exact ends_pure fun m hm => ⟨hns.1, (hns.2 m hm).2⟩
  | .constantShape x => exact keeps_asked h x
  | .rank x => exact keeps_asked h x
  | .constantText x => exact keeps_asked h x
  | .data x => exact keeps_asked h x
  | .arguments x kind => exact keeps_asked h x
  | .isConstant x value =>
    refine Keeps.bind (keeps_tensor h x) fun n s₁ h₁ hn => ?_
    exact Keeps.bind (keeps_build hn.1 (keeps_isConstant value)) fun _ _ _ _ =>
      ends_pure trivial
  | .setRole x role slot =>
    refine Keeps.bind (keeps_tensor h x) fun n s₁ h₁ hn => ?_
    have hmarks : p.marks (s₁.graph.node n) role := by
      have hassigned : p.assigned.contains role := hp
      rw [Policy.marks, hassigned]
      rfl
    exact Keeps.bind (keeps_change hn.1 (Graph.Changes.role slot hn.2 hmarks).traces) fun _ _ _ _ =>
      ends_pure trivial
  | .addArgument .. => cases ha
  | .removeArguments .. => cases ha

/-! ### Steps -/

lemma keeps_bindName (hn : s.Has p n) (name : String) :
    Keeps (Grows p) (bindName name n) s fun _ _ => True := by
  refine keeps_modify (fun _ => ⟨⟨hn.1.graph, fun q hq => ?_⟩, .refl⟩) trivial
  rcases List.mem_cons.1 hq with rfl | hq
  · exact hn.2
  · exact hn.1.names q hq

lemma keeps_settle {made : Made} (hmade : made.In p s) (name : Option String) :
    Keeps (Grows p) (settle name made) s fun _ _ => True := by
  match made, name with
  | .one n, none => exact keeps_get_bind (ends_pure trivial)
  | .one n, some x =>
    exact Keeps.bind (keeps_bindName hmade x) fun _ _ _ _ => keeps_get_bind (ends_pure trivial)
  | .many ns, none => exact keeps_get_bind (ends_pure trivial)
  | .many ns, some x =>
    refine Keeps.bind (keeps_forM fun q hq s' hs => ?_) fun _ _ _ _ =>
      keeps_get_bind (ends_pure trivial)
    exact keeps_bindName ((hmade q.1 (List.fst_mem_of_mem_zipIdx hq)).grows hs) _
  | .answer _, _ => exact ends_pure trivial

lemma namedBy_records_loop {name : String}
    (h : namedBy (fun op => op.name != "if_begin" && op.name != "if_end") name) :
    namedBy p.records name := by
  unfold namedBy at *
  split at h
  · exact Bool.or_eq_true_iff.2 (.inr h)
  · rfl

lemma namedBy_uses_begin : namedBy p.uses "loop_begin" = true := by
  unfold namedBy
  split
  · rename_i op hop
    have hname : op.name = "loop_begin" := (mem_table_of_find hop).2
    simp [Policy.uses, hname]
  · rfl

lemma keeps_openLoop (h : s.RecordedUnder p) (a b c : String) (name : Option String) :
    Keeps (Grows p) (openLoop a b c name) s fun q s' => s'.Has p q.1 := by
  refine Keeps.bind (keeps_tensor h a) fun i s₁ h₁ hi => ?_
  refine Keeps.bind (keeps_tensor hi.1 b) fun j s₂ h₂ hj => ?_
  refine Keeps.bind (keeps_tensor hj.1 c) fun k s₃ h₃ hk => ?_
  have hbounds : ∀ v ∈ [i, j, k], s₃.graph.Has p v := by
    have hi' := hi.grows (trans_of (Grows p) h₂ h₃)
    simpa using ⟨hi'.graph, (hj.grows h₃).graph, hk.graph⟩
  have hname : onValues "loop_begin" = true := by decide +kernel
  have hbegin := (keeps_applied hk.1.graph hname (namedBy_records_loop (by decide +kernel))
    hbounds).mono fun _ _ _ hn => hn namedBy_uses_begin
  refine Keeps.bind (keeps_made hk.1 hbegin) fun n s₄ h₄ hn => ?_
  cases name with
  | none => exact keeps_get_bind (ends_pure hn)
  | some x =>
    refine Keeps.bind (keeps_bindName hn x) fun _ s₅ h₅ _ => ?_
    exact keeps_get_bind (ends_pure (hn.grows h₅))

lemma keeps_closeLoop (hn : s.Has p n) : Keeps (Grows p) (closeLoop n) s fun _ _ => True := by
  have hbegin : ∀ v ∈ [n], s.graph.Has p v := by simpa using hn.graph
  have hname : onValues "loop_end" = true := by decide +kernel
  have hend := keeps_applied hn.1.graph hname (namedBy_records_loop (by decide +kernel)) hbegin
  exact Keeps.bind (keeps_build hn.1 hend) fun _ _ _ _ => ends_pure trivial

lemma keeps_answered {act : Script Answer} (h : Keeps (Grows p) act s fun _ _ => True) :
    Keeps (Grows p) (answered act) s fun _ _ => True := by
  cases hact : act s with
  | ok a s' =>
    have hans : answered act s = .ok a s' := by rw [answered, hact]
    exact ⟨meets_of_ok hans (h.meets.of_ok hact)⟩
  | error e s' =>
    have hans : answered act s = .ok (.failed e) s' := by rw [answered, hact]
    exact ⟨meets_of_ok hans ⟨h.meets.of_error hact, trivial⟩⟩

mutual

lemma keeps_step : ∀ (st : Step) {s : Scene}, s.RecordedUnder p → st.isRegular →
    st.obeys p → Keeps (Grows p) (step st) s fun _ _ => True
  | .act action name, s, h, ha, hp => by
    rw [isRegular] at ha
    rw [obeys] at hp
    rw [step]
    refine Keeps.bind (keeps_perform h ha hp) fun made s' hs hmade => ?_
    exact keeps_settle hmade name
  | .loop a b c name body, s, h, hbody, hp => by
    rw [isRegular] at hbody
    rw [obeys] at hp
    rw [step]
    refine Keeps.bind (keeps_openLoop h a b c name) ?_
    rintro ⟨var, first⟩ s₁ h₁ hvar
    refine Keeps.bind (keeps_steps body hvar.1 hbody hp) fun as s₂ h₂ _ => ?_
    exact Keeps.bind (keeps_closeLoop (hvar.grows h₂)) fun _ _ _ _ => ends_pure trivial

lemma keeps_steps : ∀ (l : List Step) {s : Scene}, s.RecordedUnder p → allRegular l →
    allObey p l → Keeps (Grows p) (steps l) s fun _ _ => True
  | [], s, h, _, _ => by
    rw [steps]
    exact ends_pure trivial
  | st :: rest, s, h, hl, hp => by
    rw [allRegular, Bool.and_eq_true] at hl
    rw [allObey, Bool.and_eq_true] at hp
    rw [steps]
    refine Keeps.bind (keeps_answered (keeps_step st h hl.1 hp.1)) fun a s₁ h₁ _ => ?_
    exact Keeps.bind (keeps_steps rest (h₁ h).1 hl.2 hp.2) fun _ _ _ _ => ends_pure trivial

end

/-- The scene behind some steps on a new graph. -/
def scene (l : List Step) : Scene :=
  match steps l { graph := Graph.opened } with
  | .ok _ s => s
  | .error _ s => s

lemma history {l : List Step} (hl : allRegular l) (hp : allObey p l) :
    (scene l).RecordedUnder p ∧ Graph.opened.Traces p (scene l).graph := by
  have hstart : ({ graph := Graph.opened } : Scene).RecordedUnder p :=
    ⟨Graph.recordedUnder_opened, by simp⟩
  have hkeeps := keeps_steps l hstart hl hp
  rw [scene]
  cases hrun : steps l { graph := Graph.opened } with
  | ok _ s => exact (hkeeps.meets.of_ok hrun).1 hstart
  | error _ s => exact hkeeps.meets.of_error hrun hstart

end Script

/-- The state of a scene while a program is recorded, under whatever policy. -/
structure Scene.Recorded (s : Scene) : Prop where
  graph : s.graph.Recorded
  names : ∀ q ∈ s.names, q.2 < s.graph.nodes.size

lemma Script.recorded {l : List Step} (hl : allRegular l) : (scene l).Recorded := by
  obtain ⟨h, -⟩ := history hl (allObey_free l)
  exact ⟨h.graph.toRecorded, fun q hq => (h.names q hq).1⟩

end KernelFusion
