/-
Loops in the text of a kernel.

Expressions have no braces, so the braces of a statement are those of its head or its end. The ends
of loops are not needed and are gone when a kernel is written, so as many braces stay open as there
are heads.
-/
import KernelFusion.Proofs.Emit.Declarations
import KernelFusion.Proofs.Kernel.Blocks

namespace KernelFusion

open List Text Operation

/-- The text starts like the head of a loop. -/
def IsHead (text : String) : Prop := "for (".toList <+: text.toList

instance (text : String) : Decidable (IsHead text) :=
  inferInstanceAs (Decidable ("for (".toList <+: text.toList))

/-- The text starts like the head of a loop over a variable. -/
def HeadsOver (var text : String) : Prop := ("for (" ++ declaration .int var).toList <+: text.toList

/-- A name that a variable of the text can have: a short one, or the one of a value. -/
def IsVariable (x : String) : Prop := (∃ j, x = shortName j) ∨ ∃ a b, x = variableName a b

/-! ### Braces of statements -/

section Texts

variable {names args : List String} {op : Operation} {type : Scalar} {var text e : String}
  {c : Char}

lemma signs_renamed (names : List String) (h : signs text = []) :
    signs (renamed names text) = [] := by
  refine signs_eq_nil_iff.2 fun c hc => ?_
  obtain ⟨p, hp, hc⟩ := mem_mapPieces hc
  unfold renamedPiece at hc
  split at hc
  · exact isSign_of_isWordChar ((isName_shortName _).2 c hc)
  · exact signs_eq_nil_iff.1 h c (mem_of_mem_piece hp hc)

/-- The braces of the statement of an operation. -/
def Operation.blockBraces (op : Operation) : List Char :=
  if op.name = "loop_begin" ∨ op.name = "if_begin" then ['\x7b']
  else if op.name = "loop_end" ∨ op.name = "if_end" then ['\x7d']
  else []

/-- The braces in a left text are those of the operation's blocks. -/
lemma Operation.signs_leftText (hvar : signs var = []) (hargs : ∀ t ∈ args, signs t = []) :
    signs (op.leftText type var args) = op.blockBraces := by
  have hoperand := signs_operand hargs
  rw [leftText, blockBraces]
  by_cases hbegin : op.name = "loop_begin"
  · rw [if_pos hbegin, if_pos (.inl hbegin), loopHead_eq]
    simp only [signs_append, hvar, hoperand]
    rfl
  by_cases hif : op.name = "if_begin"
  · rw [if_neg hbegin, if_neg (by simp [hif]), if_pos hif, if_pos (.inr hif), branchHead]
    simp only [signs_append, hoperand]
    rfl
  rw [if_neg hbegin, if_neg (c := op.name = "loop_begin" ∨ op.name = "if_begin")
    (by simp [hbegin, hif])]
  by_cases hend : op.name = "loop_end" ∨ op.name = "if_end"
  · rw [if_pos hend, if_pos hend]
    rfl
  rw [if_neg hend, if_neg hend, if_neg hif]
  split
  · rfl
  · have htype : signs type.name = [] := by cases type <;> rfl
    rw [declaration, signs_append, signs_append, signs_append, hvar, htype]
    rfl

/-! ### Heads of loops -/

lemma HeadsOver.isHead (h : HeadsOver var text) : IsHead text := by
  refine IsPrefix.trans ?_ h
  rw [String.toList_append]
  exact prefix_append _ _

lemma Quiet.not_isHead (h : Quiet text) : ¬ IsHead text := by
  rintro ⟨rest, hrest⟩
  apply h
  rw [← hrest]
  rfl

lemma Operation.not_isHead_leftText (hname : op.name ≠ "loop_begin")
    (hquiet : type = .void → op.isControl = false → Quiet text) :
    ¬ IsHead (op.leftText type var args ++ text) := by
  rw [leftText, if_neg hname]
  split
  · exact (quiet_blockEnd text).not_isHead
  next hend =>
  split
  · rintro ⟨rest, hrest⟩
    rw [branchHead, String.append_assoc, String.append_assoc, String.toList_append] at hrest
    simp at hrest
  next hif =>
  split
  · next hvoid =>
    rw [String.empty_append]
    exact (hquiet hvoid (by simp_all [isControl])).not_isHead
  · rintro ⟨rest, hrest⟩
    rw [String.toList_append, toList_declaration] at hrest
    cases type <;> simp [Scalar.name] at hrest

end Texts

/-! ### Statements -/

namespace Graph

variable {g f : Graph} {k : Kernel} {ks : List Kernel} {n : NodeId} {l : List NodeId}
  {lines : List Line} {line : Line} {type : Scalar} {text name : String} {i : Nat}

namespace Lined

variable (h : g.Lined k lines)

include h

lemma signs_expression (hi : i < lines.length) : signs (mergedLine lines i).expression = [] := by
  refine expression_mergeAll (E := fun _ e => signs e = []) ?_ ?_ (getElem?_mergeAll hi)
  · intro i line hline
    obtain ⟨n, type, hn, hisLine⟩ := h.exists_node hline
    exact hisLine.signs_expression h.lists (h.table n (mem_of_getElem? hn))
  · intro i j line other e e' _ _ he he'
    have hoperand : signs ({ other with expression := e' } : Line).asOperand = [] := by
      rw [Line.asOperand]
      split
      · rw [signs_append, signs_append, he']
        rfl
      · exact he'
    exact signs_eq_nil_of_subset (fun c hc => mem_replaceWord hc) he hoperand

/-- The braces of a statement are those of its operation. -/
lemma signs_statement (hn : (g.lineNodes k)[i]? = some n) :
    signs (statement lines i) = (g.node n).op.blockBraces := by
  obtain ⟨type, -, hstatement⟩ := h.statement_eq hn
  obtain ⟨-, line, hline, -⟩ := h.exists_line hn
  have hmem := mem_of_getElem? hn
  have hvar : signs (renamed (mergedNames lines) (g.names.of n)) = [] := by
    refine signs_renamed _ (signs_eq_nil_iff.2 fun c hc => ?_)
    exact isSign_of_isWordChar (h.lists.isWordChar_of_mem_name hc)
  have hargs : ∀ t ∈ (g.operands g.names k n).texts.map (renamed (mergedNames lines)),
    signs t = [] := by
    intro t ht
    obtain ⟨t', ht', rfl⟩ := mem_map.1 ht
    exact signs_renamed _ (h.lists.signs_operands t' ht')
  have hright : signs (g.node n).op.rightText = [] := by
    rw [rightText]
    split
    · rfl
    · rfl
  rw [hstatement, signs_append, signs_append, signs_leftText hvar hargs,
    signs_renamed _ (h.signs_expression (List.getElem?_eq_some_iff.1 hline).1), hright, append_nil,
    append_nil]

lemma isHead_iff (hn : (g.lineNodes k)[i]? = some n) :
    IsHead (statement lines i) ↔ (g.node n).op.name = "loop_begin" := by
  obtain ⟨type, htype, hstatement⟩ := h.statement_eq hn
  constructor
  · intro hhead
    by_contra hname
    have hform := (h.keepsForm hn htype).mapPieces h.ofValues.mergedNames.onNames
    rw [hstatement, String.append_assoc] at hhead
    refine not_isHead_leftText hname (fun hvoid hcontrol => ?_) hhead
    rw [rightText, if_neg (by simp [hcontrol])]
    exact (hform.opens hvoid hcontrol).quiet
  · intro hname
    rw [hstatement, String.append_assoc, leftText, if_pos hname]
    exact HeadsOver.isHead (prefix_loopHead _ _ _)

end Lined

end Graph

/-! ### Kernels -/

/-- A loop nest opens one block. -/
lemma LoopNest.signs_text (nest : LoopNest) : signs nest.text = ['\x7b'] := by
  have hvar : ∀ var : LoopVar, signs var.name = [] := by
    intro var
    cases var with
    | thread => rfl
    | coordinate dim => rw [LoopVar.name, signs_append, signs_toString]; rfl
    | block dim => rw [LoopVar.name, signs_append, signs_toString]; rfl
    | lane dim => rw [LoopVar.name, signs_append, signs_toString]; rfl
  have hbound : ∀ bound : LoopBound, signs bound.text = [] := by
    intro bound
    cases bound with
    | size dim => rw [LoopBound.text, signs_append, signs_append, signs_toString]; rfl
    | blocks dim =>
      simp only [LoopBound.text, signs_append, signs_toString]
      rfl
    | side => exact signs_toString _
  have hloops : (nest.loops.map loopText).flatMap signs = [] := by
    rw [flatMap_eq_nil_iff]
    intro t ht
    obtain ⟨loop, -, rfl⟩ := mem_map.1 ht
    have hsigns : signs "  for (int " = [] ∧ signs " = 0; " = [] ∧ signs " < " = [] ∧
      signs "; " = [] ∧
        signs "++)\n" = [] := by decide +kernel
    delta loopText
    simp only [signs_append, hvar, hbound, hsigns, append_nil]
  have hcomputed : (nest.computed.map computedText).flatMap signs = [] := by
    rw [flatMap_eq_nil_iff]
    intro t ht
    obtain ⟨dim, -, rfl⟩ := mem_map.1 ht
    simp only [computedText, signs_append, hvar, signs_toString]
    rfl
  rw [text, signs_append, signs_append, signs_join, signs_join, hloops, hcomputed]
  rfl

lemma signs_kernelFunction {name : String} (hname : signs name = []) (nest : LoopNest)
    (code : String) :
    signs (kernelFunction name nest.text code)
      = '\x7b' :: '\x7b' :: (signs code ++ ['\x7d', '\x7d']) := by
  have hblanks : signs "    " = [] := rfl
  have hsigns : signs "\nextern \"C\" __declspec(dllexport) void " = [] ∧
      signs "(uint* var, uint* off, uint* mem, uint* shape)\n\x7b\n" = ['\x7b'] ∧
      signs "  #pragma omp parallel for shared(mem) \n" = [] ∧
      signs "  \x7d\n\x7d\n" = ['\x7d', '\x7d'] := by
    decide +kernel
  delta kernelFunction
  simp [hname, nest.signs_text, signs_indentLines hblanks, hsigns]

lemma flatMap_eq_replicate {α β : Type} {xs : List α} {q : α → Bool} {b : β} {f : α → List β}
    (h : ∀ x ∈ xs, f x = if q x then [b] else []) : xs.flatMap f = replicate
    (xs.countP q) b := by
  induction xs with
  | nil => rfl
  | cons x xs ih =>
    rw [flatMap_cons, h x mem_cons_self, ih fun y hy => h y (mem_cons_of_mem _ hy), countP_cons]
    cases q x with
    | true => simp [replicate_succ]
    | false => simp

lemma signs_statementLine (lines : List Line) (i : Nat) :
    signs (statementLine lines i) = signs (statement lines i) := by
  have hblanks : ∀ n, signs (String.join (replicate n "  ")) = [] := by
    intro n
    rw [signs_join, flatMap_eq_nil_iff]
    intro t ht
    rw [eq_of_mem_replicate ht]
    rfl
  rw [statementLine, signs_append, signs_append, hblanks, nil_append]
  exact append_nil _

namespace Graph

variable {f : Graph} {k : Kernel} {ks : List Kernel} {lines : List Line} {text name : String}
  {i : Nat}

/-- The control flow of a kernel is kept in its text: all braces are closed, every loop has one
head, and what a head mentions is declared in front of it or in it. -/
structure KeepsControl (f : Graph) (k : Kernel) (lines : List Line) (text : String) : Prop where
  balanced : Text.Balanced text
  heads : ∀ n ∈ f.lineNodes k, (f.node n).op.name = "loop_begin" →
    ∃! i, i ∈ keptPlaces lines ∧ HeadsOver (renamed (mergedNames lines) (f.names.of n))
    (statement lines i)
  declared : ∀ i ∈ keptPlaces lines, IsHead (statement lines i) →
    ∀ x, KernelFusion.IsVariable x → x.toList ∈ pieces (statement lines i).toList →
      ∃ j ∈ keptPlaces lines, (j = i ∨ Precedes (keptPlaces lines) j i) ∧
        ∃ type, Declares type x (statement lines j)

/-- The number of heads of loops in the text. -/
def headCount (lines : List Line) : Nat := (keptPlaces lines).countP fun i =>
    IsHead (statement lines i)

lemma Lined.exists_lineNode (h : f.Lined k lines) (hi : i ∈ keptPlaces lines) :
    ∃ n, (f.lineNodes k)[i]? = some n := by
  obtain ⟨n, -, hn, -⟩ := h.exists_node (getElem?_eq_getElem (mem_keptPlaces.1 hi).1)
  exact ⟨n, hn⟩

/-- A kernel's text leaves one brace open for each loop head in it. -/
lemma Lined.openBraces_eq (h : f.Lined k lines)
    (hloops : ∀ n ∈ f.lineNodes k, (f.node n).op.isControl → (f.node n).op.name = "loop_begin")
    (hname : signs name = []) (nest : LoopNest) :
    openBraces 0 (kernelFunction name nest.text
      (String.join ((keptPlaces lines).map (statementLine lines)))).toList = some
      (headCount lines) := by
  have hone : ∀ i ∈ keptPlaces lines, signs (statementLine lines i)
      = if IsHead (statement lines i) then ['\x7b'] else [] := by
    intro i hi
    obtain ⟨n, hn⟩ := h.exists_lineNode hi
    rw [signs_statementLine, h.signs_statement hn]
    by_cases hhead : IsHead (statement lines i)
    · rw [if_pos hhead, blockBraces, if_pos (.inl ((h.isHead_iff hn).1 hhead))]
    · rw [if_neg hhead]
      have hname := mt (h.isHead_iff hn).2 hhead
      have hcontrol : (f.node n).op.isControl = false := by
        rw [← Bool.not_eq_true]
        exact fun hcontrol => hname (hloops n (mem_of_getElem? hn) hcontrol)
      simp_all [blockBraces, isControl]
  have hbody : signs (String.join ((keptPlaces lines).map (statementLine lines)))
      = replicate (headCount lines) '\x7b' := by
    rw [signs_join, flatMap_map]
    exact flatMap_eq_replicate fun i hi => by simpa using hone i hi
  rw [← openBraces_filter, ← signs, signs_kernelFunction hname, hbody, openBraces, if_pos rfl,
    openBraces, if_pos rfl, openBraces_replicate]
  simp [openBraces]

lemma KeepsControl.not_loop (h : f.KeepsControl k lines text)
    (hopen : openBraces 0 text.toList = some (headCount lines)) :
    ∀ n ∈ f.lineNodes k, (f.node n).op.name ≠ "loop_begin" := by
  intro n hn hname
  obtain ⟨i, ⟨hi, hhead⟩, -⟩ := h.heads n hn hname
  have hzero : headCount lines = 0 := Option.mem_unique hopen h.balanced
  have hnot := countP_eq_zero.1 hzero i hi
  exact hnot (decide_eq_true hhead.isHead)

lemma Lined.keepsControl_iff (h : f.Lined k lines)
    (hopen : openBraces 0 text.toList = some (headCount lines)) :
    f.KeepsControl k lines text ↔ ∀ n ∈ f.lineNodes k, (f.node n).op.name ≠ "loop_begin" := by
  refine ⟨fun hkeeps => hkeeps.not_loop hopen, fun hnone => ?_⟩
  have hnot : ∀ i ∈ keptPlaces lines, ¬ IsHead (statement lines i) := by
    intro i hi hhead
    obtain ⟨n, hn⟩ := h.exists_lineNode hi
    exact hnone n (mem_of_getElem? hn) ((h.isHead_iff hn).1 hhead)
  have hzero : headCount lines = 0 := countP_eq_zero.2 fun i hi hhead =>
    hnot i hi (of_decide_eq_true hhead)
  exact ⟨by rw [Text.Balanced, hopen, hzero], fun n hn hname => absurd hname (hnone n hn),
    fun i hi hhead => absurd hhead (hnot i hi)⟩

lemma openBraces_of_transform {outputs : List NodeId} {l : List Step} (hl : Step.allRegular l)
    (hp : Step.allObey .structured l)
    (houtputs : ∀ v ∈ outputs, v ∈ (Script.scene l).names.map Prod.snd)
    (hrun : Build.transform outputs (Script.scene l).graph = .ok ks f) (hk : k ∈ ks)
    (hkind : k.kind = .compute) (hsource : f.kernelSource ("kernel_" ++ toString i) k = .ok text) :
    ∃ lines nest, f.kernelLines k = .ok lines ∧ f.Lined k lines ∧
      text = kernelFunction ("kernel_" ++ toString i) nest
        (String.join ((keptPlaces lines).map (statementLine lines))) ∧
      openBraces 0 text.toList = some (headCount lines) := by
  have hlined : ∀ lines, f.kernelLines k = .ok lines → f.Lined k lines := fun lines =>
    (final_of_transform hl hrun).lined hk hkind
  obtain ⟨lines, nest, hlines, -, rfl⟩ := kernelSource_eq_ok hlined hsource
  have h := hlined lines hlines
  have hname : signs ("kernel_" ++ toString i) = [] := by
    rw [signs_append, signs_toString]
    rfl
  have hloops : ∀ n ∈ f.lineNodes k, (f.node n).op.isControl → (f.node n).op.name = "loop_begin" :=
    fun n hn => loops_of_transform hl hp houtputs hrun n (h.sublist.subset hn)
  exact ⟨lines, nest.text, hlines, h, rfl, h.openBraces_eq hloops hname nest⟩

/-- In the text of a kernel as many braces stay open as there are heads of loops, and its control
flow is kept if and only if the kernel has no loop. -/
theorem controlFlow_kept_iff {outputs : List NodeId} {l : List Step} (hl : Step.allRegular l = true)
    (hp : Step.allObey .structured l = true)
    (houtputs : ∀ v ∈ outputs, v ∈ (Script.scene l).names.map Prod.snd)
    (hrun : Build.transform outputs (Script.scene l).graph = .ok ks f) (hk : k ∈ ks)
    (hkind : k.kind = .compute) (hsource : f.kernelSource ("kernel_" ++ toString i) k = .ok text) :
    ∃ lines nest, f.kernelLines k = .ok lines ∧
      text = kernelFunction ("kernel_" ++ toString i) nest
        (String.join ((keptPlaces lines).map (statementLine lines))) ∧
      Text.openBraces 0 text.toList = some (headCount lines) ∧
      (f.KeepsControl k lines text ↔ ∀ n ∈ f.lineNodes k, (f.node n).op.name ≠ "loop_begin") := by
  obtain ⟨lines, nest, hlines, h, htext, hopen⟩ :=
    openBraces_of_transform hl hp houtputs hrun hk hkind hsource
  exact ⟨lines, nest, hlines, htext, hopen, h.keepsControl_iff hopen⟩

end Graph

/-- The body of a loop does not use the variable of the loop. -/
def sineInLoop : List Step :=
  [ .act (.input .float (.sizes [4])) (some "A"),
    .act (.index (.like "A") 0) (some "i"),
    .act (.load "A" ["i"]) (some "x"),
    .act (.constant .int 0 (.sizes [])) (some "z"),
    .act (.constant .int 3 (.sizes [])) (some "n"),
    .act (.constant .int 1 (.sizes [])) (some "o"),
    .loop "z" "n" "o" (some "k")
      [ .act (.call (.named "sin") ["x"]) (some "y"),
        .act (.store "A" "y" ["i"]) none ] ]

theorem Graph.controlFlow_kept_sineInLoop : ∃ ks f k lines text,
    Build.transform [1] (Script.scene sineInLoop).graph = .ok ks f ∧ k ∈ ks ∧
      f.kernelLines k = .ok lines ∧ f.kernelSource ("kernel_" ++ toString 0) k = .ok text ∧
      (∃ n ∈ f.lineNodes k, (f.node n).op.name = "store") ∧ f.KeepsControl k lines text := by
  obtain ⟨ks, f, hrun, k, hk, hkind, lines, hlines, text, htext, hstore, hnone⟩ : ∃ ks f,
      Build.transform [1] (Script.scene sineInLoop).graph = .ok ks f ∧
      ∃ k ∈ ks, k.kind = .compute ∧ ∃ lines, f.kernelLines k = .ok lines ∧
      ∃ text, f.kernelSource ("kernel_" ++ toString 0) k = .ok text ∧
      (∃ n ∈ f.lineNodes k, (f.node n).op.name = "store") ∧
      ∀ n ∈ f.lineNodes k, (f.node n).op.name ≠ "loop_begin" := by decide +kernel
  obtain ⟨lines', nest, hlines', -, -, hiff⟩ :=
    Graph.controlFlow_kept_iff (i := 0) (by decide +kernel) (by decide +kernel)
      (by decide +kernel) hrun hk hkind
      htext
  obtain rfl := Except.ok.inj (hlines.symm.trans hlines')
  exact ⟨ks, f, k, lines, text, hrun, hk, hlines, htext, hstore, hiff.2 hnone⟩

/-- The body of a loop uses the variable of the loop twice. -/
def squareInLoop : List Step :=
  [ .act (.input .float (.sizes [4])) (some "A"),
    .act (.index (.like "A") 0) (some "i"),
    .act (.constant .int 0 (.sizes [])) (some "z"),
    .act (.constant .int 3 (.sizes [])) (some "n"),
    .act (.constant .int 1 (.sizes [])) (some "o"),
    .loop "z" "n" "o" (some "k")
      [ .act (.call (.folding .mul) ["k", "k"]) (some "u"),
        .act (.call (.named "float") ["u"]) (some "t"),
        .act (.store "A" "t" ["i"]) none ] ]

/-- The head of the loop is written, but not its end. -/
theorem Graph.not_forall_controlFlow_kept :
    ¬ ∀ (l : List Step) (outputs : List NodeId) (ks : List Kernel) (f : Graph) (k : Kernel)
      (lines : List Line) (i : Nat) (text : String), Step.allRegular l = true →
      Step.allObey .structured l = true → (∀ v ∈ outputs, v ∈ (Script.scene l).names.map Prod.snd) →
      Build.transform outputs (Script.scene l).graph = .ok ks f → k ∈ ks → k.kind = .compute →
      f.kernelLines k = .ok lines → f.kernelSource ("kernel_" ++ toString i) k = .ok text →
      f.KeepsControl k lines text := by
  intro hall
  obtain ⟨ks, f, hrun, k, hk, hkind, lines, hlines, text, htext, n, hn, hloop⟩ : ∃ ks f,
      Build.transform [1] (Script.scene squareInLoop).graph = .ok ks f ∧
      ∃ k ∈ ks, k.kind = .compute ∧ ∃ lines, f.kernelLines k = .ok lines ∧
      ∃ text, f.kernelSource ("kernel_" ++ toString 0) k = .ok text ∧
      ∃ n ∈ f.lineNodes k, (f.node n).op.name = "loop_begin" := by decide +kernel
  have hregular : Step.allRegular squareInLoop = true := by decide +kernel
  have hobeys : Step.allObey .structured squareInLoop = true := by decide +kernel
  have houtputs : ∀ v ∈ [1], v ∈ (Script.scene squareInLoop).names.map Prod.snd := by decide +kernel
  obtain ⟨lines', nest, hlines', -, -, hopen⟩ :=
    Graph.openBraces_of_transform (i := 0) hregular hobeys houtputs hrun hk hkind htext
  obtain rfl := Except.ok.inj (hlines.symm.trans hlines')
  have hkeeps := hall _ _ _ _ _ _ 0 _ hregular hobeys houtputs hrun hk hkind hlines htext
  exact hkeeps.not_loop hopen n hn hloop

end KernelFusion
