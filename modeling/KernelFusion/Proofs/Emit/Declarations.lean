/-
The types of generated variables.

A node is written with the type that the first overload for its operands gives. This is the type of
the node, unless its operation is ambiguous: then it gives several types on the same operands, and
a float first.
-/
import KernelFusion.Emit.Shader
import KernelFusion.Proofs.Emit.Signs
import KernelFusion.Proofs.Pass.Flatten

namespace KernelFusion

open List Text Operation

/-- The text starts with the declaration of a variable, which may stand in the head of a loop. -/
def Declares (type : Scalar) (var text : String) : Prop :=
  (declaration type var).toList <+: text.toList ∨
    ("for (" ++ declaration type var).toList <+: text.toList

/-- The text declares a variable of a type and reads a word of memory as a value of this type. -/
def ReadsAs (type : Scalar) (var text : String) : Prop :=
  ∃ base address, '(' ∉ base.toList ∧
    text = declaration type var ++ readAs type (base ++ "[" ++ address ++ "]") ++ ";"

/-- The text does not start with a letter word and a blank. -/
def Quiet (text : String) : Prop := (text.toList.dropWhile Char.isAlpha).head? ≠ some ' '

/-! ### What texts declare -/

variable {t type : Scalar} {var var' text rest e : String} {args : List String} {c : Char}

lemma Scalar.isAlpha_of_mem_name (h : c ∈ t.name.toList) : c.isAlpha := by
  have hall : ∀ t ∈ Scalar.all, ∀ c ∈ t.name.toList, c.isAlpha := by decide
  exact hall t (by cases t <;> decide) c h

lemma Scalar.eq_of_name_append {t' : Scalar} {xs ys : List Char}
    (h : t.name.toList ++ ' ' :: xs = t'.name.toList ++ ' ' :: ys) : t = t' := by
  cases t <;> cases t' <;> simp [Scalar.name] at h ⊢

lemma toList_declaration (type : Scalar) (var : String) :
    (declaration type var).toList = type.name.toList ++ ' ' :: (var ++ " = ").toList := by
  simp [declaration]

lemma Declares.toList_eq (h : Declares type var text) :
    (∃ xs, text.toList = type.name.toList ++ ' ' :: xs) ∨
      ∃ xs, text.toList = "for (".toList ++ (type.name.toList ++ ' ' :: xs) := by
  rcases h with ⟨xs, hxs⟩ | ⟨xs, hxs⟩
  · rw [toList_declaration] at hxs
    exact .inl ⟨(var ++ " = ").toList ++ xs, by rw [← hxs]; simp⟩
  · rw [String.toList_append, toList_declaration] at hxs
    exact .inr ⟨(var ++ " = ").toList ++ xs, by rw [← hxs]; simp⟩

lemma Declares.eq_of_declaration (h : Declares t var (declaration type var' ++ rest)) :
    t = type := by
  have htext : (declaration type var' ++ rest).toList
      = type.name.toList ++ ' ' :: ((var' ++ " = ").toList ++ rest.toList) := by
    rw [String.toList_append, toList_declaration, append_assoc, cons_append]
  rcases h.toList_eq with ⟨xs, hxs⟩ | ⟨xs, hxs⟩
  · exact Scalar.eq_of_name_append (hxs.symm.trans htext)
  · rw [htext] at hxs
    cases type <;> simp [Scalar.name] at hxs

lemma Declares.eq_of_loopHead (h : Declares t var text)
    (htext : text = loopHead var' args ++ rest) :
    t = .int := by
  obtain ⟨tail, htail⟩ : ∃ tail, text = "for (int " ++ tail :=
    ⟨_, by rw [htext, loopHead_eq]; simp only [String.append_assoc]; rfl⟩
  have hlist : text.toList = "for (".toList ++ (Scalar.int.name.toList ++ ' ' :: tail.toList) := by
    have hword : "for (int ".toList = "for (".toList ++ (Scalar.int.name.toList ++ [' ']) :=
      by decide
    rw [htail, String.toList_append, hword]
    simp only [append_assoc, cons_append, nil_append]
  rcases h.toList_eq with ⟨xs, hxs⟩ | ⟨xs, hxs⟩
  · rw [hlist] at hxs
    cases t <;> simp [Scalar.name] at hxs
  · exact Scalar.eq_of_name_append (append_cancel_left (hxs.symm.trans hlist))

lemma Declares.ne_branchHead (h : Declares t var text) : text ≠ branchHead args ++ rest := by
  intro htext
  obtain ⟨tail, htail⟩ : ∃ tail, text = "if (" ++ tail :=
    ⟨_, by rw [htext, branchHead, String.append_assoc, String.append_assoc]⟩
  have hlist : text.toList = 'i' :: 'f' :: ' ' :: '(' :: tail.toList := by
    rw [htail, String.toList_append]
    rfl
  rcases h.toList_eq with ⟨xs, hxs⟩ | ⟨xs, hxs⟩
  · rw [hlist] at hxs
    cases t <;> simp [Scalar.name] at hxs
  · rw [hlist] at hxs
    simp at hxs

lemma Quiet.not_declares (h : Quiet text) : ¬ Declares t var text := by
  intro hd
  apply h
  rcases hd.toList_eq with ⟨xs, hxs⟩ | ⟨xs, hxs⟩
  · rw [hxs, dropWhile_append_of_pos fun c hc => Scalar.isAlpha_of_mem_name hc]
    rfl
  · rw [hxs]
    rfl

lemma quiet_of_toList {w r : List Char} (hw : ∀ x ∈ w, x.isAlpha) (hc : c.isAlpha = false)
    (hblank : c ≠ ' ') (h : text.toList = w ++ c :: r) : Quiet text := by
  rw [Quiet, h, dropWhile_append_of_pos hw, dropWhile_cons_of_neg (by simp [hc])]
  simpa using hblank

lemma quiet_blockEnd (rest : String) : Quiet (blockEnd ++ rest) := by
  have hlist : (blockEnd ++ rest).toList = [] ++ '\x7d' :: rest.toList := by
    rw [String.toList_append]
    rfl
  exact quiet_of_toList (by simp) (by decide) (by decide) hlist

lemma quiet_append (h : ' ' ∉ text.toList) : Quiet (text ++ "[" ++ rest) := by
  have hlist : ∀ cs : List Char, ' ' ∉ cs →
      ((cs ++ '[' :: rest.toList).dropWhile Char.isAlpha).head? ≠ some ' ' := by
    intro cs hcs
    induction cs with
    | nil => simp
    | cons c cs ih =>
      rw [mem_cons, not_or] at hcs
      rw [cons_append, dropWhile_cons]
      split
      · exact ih hcs.2
      · simpa using Ne.symm hcs.1
  have htext : (text ++ "[" ++ rest).toList = text.toList ++ '[' :: rest.toList := by simp
  rw [Quiet, htext]
  exact hlist _ h

/-- The expression starts with a word of letters, and no blank follows the word. -/
def Opens (e : String) : Prop :=
  ∃ w c r, (e ++ ";").toList = w ++ c :: r ∧ (∀ x ∈ w, x.isAlpha) ∧
    isWordChar c = false ∧ c ≠ ' '

lemma isWordChar_of_isAlpha (h : c.isAlpha) : isWordChar c := by
  simp [isWordChar, Char.isAlphanum, h]

lemma Opens.quiet (h : Opens e) : Quiet (e ++ ";") := by
  obtain ⟨w, c, r, he, hw, hc, hblank⟩ := h
  have hc' : c.isAlpha = false := by
    cases ha : c.isAlpha with
    | false => rfl
    | true => rw [isWordChar_of_isAlpha ha] at hc; cases hc
  exact quiet_of_toList hw hc' hblank he

lemma Opens.mapPieces {f : List Char → List Char} (hf : Text.OnNames f) (h : Opens e) :
    Opens (Text.mapPieces f e) := by
  obtain ⟨w, c, r, he, hw, hc, hblank⟩ := h
  have hword : '_' ∉ w := fun hmem => absurd (hw _ hmem) (by decide)
  have hfront : (Text.pieces w).flatMap f = w := by
    have hself : Text.mapPieces f (String.ofList w) = String.ofList w :=
      hf.mapPieces_eq_self (by simpa using hword)
    rw [Text.mapPieces, String.toList_ofList] at hself
    exact String.ofList_inj.1 hself
  have hsemicolon : Text.mapPieces f ";" = ";" := hf.mapPieces_eq_self (by decide)
  have hend : Text.mapPieces f (e ++ ";") = Text.mapPieces f e ++ ";" := by
    rw [Text.mapPieces_append (.inr (by decide)), hsemicolon]
  refine ⟨w, c, (Text.pieces r).flatMap f, ?_, hw, hc, hblank⟩
  rw [← hend, Text.mapPieces, String.toList_ofList, he, Text.pieces_append_separator w hc,
    flatMap_append, flatMap_cons, hfront, hf.separator hc, singleton_append]

/-! ### Statements -/

/-- What the text of a node says about types: if there is a type, it declares a variable of this
type, and no other, and if it loads, it reads a value of this type. -/
structure Tells (op : Operation) (type : Scalar) (var text : String) : Prop where
  declares : type ≠ .void → Declares type var text
  only : ∀ t, Declares t var text → t = type
  reads : op.name = "load" → ReadsAs type var text

lemma declares_declaration (type : Scalar) (var rest : String) :
    Declares type var (declaration type var ++ rest) :=
  .inl (by rw [String.toList_append]; exact prefix_append _ _)

lemma prefix_loopHead (var : String) (args : List String) (rest : String) :
    ("for (" ++ declaration .int var).toList <+: (loopHead var args ++ rest).toList := by
  have hhead : ∃ tail, loopHead var args ++ rest = "for (" ++ declaration .int var ++ tail :=
    ⟨_, by rw [loopHead_eq, declaration]; simp only [String.append_assoc]; rfl⟩
  obtain ⟨tail, htail⟩ := hhead
  rw [htail]
  exact ⟨tail.toList, (String.toList_append ..).symm⟩

lemma declares_loopHead (var : String) (args : List String) (rest : String) :
    Declares .int var (loopHead var args ++ rest) := .inr (prefix_loopHead var args rest)

namespace Tells

variable {op : Operation}

lemma of_quiet (hload : op.name ≠ "load") (hvoid : type = .void) (h : Quiet text) :
    Tells op type var text :=
  ⟨fun hne => absurd hvoid hne, fun _ hd => absurd hd h.not_declares, fun hl => absurd hl hload⟩

lemma of_declaration (hload : op.name ≠ "load") :
    Tells op type var (declaration type var ++ rest) :=
  ⟨fun _ => declares_declaration type var rest, fun _ hd => hd.eq_of_declaration,
    fun hl => absurd hl hload⟩

lemma of_load (base address : String) (hbase : '(' ∉ base.toList) :
    Tells op type var
      (declaration type var ++ readAs type (base ++ "[" ++ address ++ "]") ++ ";") := by
  refine ⟨fun _ => ?_, fun _ hd => ?_, fun _ => ⟨base, address, hbase, rfl⟩⟩
  · rw [String.append_assoc]
    exact declares_declaration type var _
  · rw [String.append_assoc] at hd
    exact hd.eq_of_declaration

lemma of_loopHead (hload : op.name ≠ "load") (htype : type = .int)
    (h : text = loopHead var args ++ rest) : Tells op type var text := by
  subst htype
  exact ⟨fun _ => h ▸ declares_loopHead var args rest, fun _ hd => hd.eq_of_loopHead h,
    fun hl => absurd hl hload⟩

lemma of_branchHead (hload : op.name ≠ "load") (hvoid : type = .void)
    (h : text = branchHead args ++ rest) : Tells op type var text :=
  ⟨fun hne => absurd hvoid hne, fun _ hd => absurd h hd.ne_branchHead, fun hl => absurd hl hload⟩

end Tells

namespace Operation

variable {op : Operation} {o : Overload} {types : List Scalar}

lemma resultType_loop_begin (h : op ∈ table) (hname : op.name = "loop_begin")
    (htype : op.resultType types = .ok type) : type = .int :=
  of_resultType (P := fun op type => op.name = "loop_begin" → type = .int)
    (by decide +kernel) h htype hname

lemma resultType_control (h : op ∈ table) (hcontrol : op.isControl) (hname : op.name ≠ "loop_begin")
    (htype : op.resultType types = .ok type) : type = .void :=
  of_resultType (P := fun op type => op.isControl → op.name ≠ "loop_begin" → type = .void)
    (by decide +kernel) h htype hcontrol hname

/-- An operation without a result is written with a word of letters. -/
structure WrittenByWord (op : Operation) : Prop where
  kind : op.kind = .scatter ∨ op.kind = .keyword ∨ op.kind = .function
  letters : ∀ c ∈ op.code.toList, c.isAlpha

lemma writtenByWord (h : op ∈ table) (htype : op.resultType types = .ok .void)
    (hcontrol : op.isControl = false) (hstore : op.name ≠ "store") : op.WrittenByWord := by
  obtain ⟨hkind, hletters⟩ :=
    of_resultType (P := fun op type => type = .void → op.isControl = false →
    op.name ≠ "store" → (op.kind = .scatter ∨ op.kind = .keyword ∨ op.kind = .function) ∧
      ∀ c ∈ op.code.toList, c.isAlpha) (by decide +kernel) h htype rfl hcontrol hstore
  exact ⟨hkind, hletters⟩

lemma WrittenByWord.opens_expression (h : op.WrittenByWord) (hkind : op.kind ≠ .scatter)
    (args : List String) : Opens (op.expression args) := by
  rcases h.kind.resolve_left hkind with hkind | hkind
  · have htext : op.expression args = op.code := by simp [expression, hkind]
    refine ⟨op.code.toList, ';', [], ?_, h.letters, by decide, by decide⟩
    rw [htext, String.toList_append]
    rfl
  · have htext : op.expression args = op.code ++ "(" ++ ", ".intercalate args ++ ")" := by
      simp [expression, hkind]
    refine ⟨op.code.toList, '(', (", ".intercalate args ++ ");").toList, ?_, h.letters,
      by decide, by decide⟩
    rw [htext]
    simp

lemma WrittenByWord.quiet_expression (h : op.WrittenByWord) (args : List String) :
    Quiet (op.expression args ++ ";") := by
  by_cases hkind : op.kind = .scatter
  · have htext : op.expression args = "" := by simp [expression, hkind]
    rw [htext]
    unfold Quiet
    decide
  · exact (h.opens_expression hkind args).quiet

/-- Every statement in the table tells the type and the name of what it declares. -/
lemma tells_statement (h : op ∈ table) (hargs : ∀ c ∈ (operand args 0).toList, isOperandChar c)
    (hok : op.statement var args types = .ok text) :
    ∃ type, op.resultType types = .ok type ∧ Tells op type var text := by
  rw [statement] at hok
  obtain ⟨type, htype, hok⟩ := Except.bind_eq_ok.1 hok
  refine ⟨type, htype, ?_⟩
  have hblank : ' ' ∉ (operand args 0).toList := fun hmem => absurd (hargs _ hmem) (by decide)
  have hparen : '(' ∉ (operand args 0).toList := fun hmem => absurd (hargs _ hmem) (by decide)
  have hvoid : op.name = "loop_end" ∨ op.name = "if_begin" ∨ op.name = "if_end" → type = .void := by
    rintro (hname | hname | hname)
    all_goals
      exact resultType_control h (by rw [isControl, hname]; decide) (by rw [hname]; decide) htype
  split at hok
  · next hname =>
    obtain rfl := Except.ok.inj hok
    exact .of_loopHead (by rw [hname]; decide) (resultType_loop_begin h hname htype)
      String.append_empty.symm
  split at hok
  · next hname =>
    obtain rfl := Except.ok.inj hok
    exact .of_quiet (by rw [hname]; decide) (hvoid (.inl hname)) (quiet_blockEnd "")
  split at hok
  · next hname =>
    obtain rfl := Except.ok.inj hok
    exact .of_branchHead (by rw [hname]; decide) (hvoid (.inr (.inl hname)))
      String.append_empty.symm
  split at hok
  · next hname =>
    obtain rfl := Except.ok.inj hok
    exact .of_quiet (by rw [hname]; decide) (hvoid (.inr (.inr hname))) (quiet_blockEnd "")
  split at hok
  · obtain rfl := Except.ok.inj hok
    exact .of_load _ _ hparen
  next hload =>
  split at hok
  · next hstore =>
    obtain rfl := Except.ok.inj hok
    refine .of_quiet hload (void_of_writes h (accesses_of_store h hstore) hload htype) ?_
    simp only [String.append_assoc]
    rw [← String.append_assoc]
    exact quiet_append hblank
  · next hbegin hend hif hfi hstore =>
    obtain rfl := Except.ok.inj hok
    by_cases hvoid : type = .void
    · subst hvoid
      have hcontrol := not_isControl_iff.2 ⟨hbegin, hend, hif, hfi⟩
      rw [if_pos rfl, String.empty_append]
      exact .of_quiet hload rfl ((writtenByWord h htype hcontrol hstore).quiet_expression args)
    · rw [if_neg hvoid, String.append_assoc]
      exact .of_declaration hload

end Operation

/-! ### Lines of kernels -/

/-- What merging and renaming keep of the expression of a node. -/
structure KeepsForm (op : Operation) (type : Scalar) (e : String) : Prop where
  load : op.name = "load" → ∃ address, e = readAs type ("mem[" ++ address ++ "]")
  opens : type = .void → op.isControl = false → Opens e

section KeepsForm

variable {f : List Char → List Char} {op : Operation} {e : String}

lemma mapPieces_readAs (hf : Text.OnNames f) (type : Scalar) (address : String) :
    mapPieces f (readAs type ("mem[" ++ address ++ "]"))
      = readAs type ("mem[" ++ mapPieces f address ++ "]") := by
  have hself : ∀ {t : String}, '_' ∉ t.toList → mapPieces f t = t :=
    fun ht => hf.mapPieces_eq_self ht
  have hplain : mapPieces f ("mem[" ++ address ++ "]") = "mem[" ++ mapPieces f address ++ "]" := by
    rw [mapPieces_append (.inr (by decide)), mapPieces_append (.inl (by decide)),
      hself (t := "mem[") (by decide), hself (t := "]") (by decide)]
  have hwrap : ∀ w : String, '_' ∉ (w ++ "(").toList →
      mapPieces f (w ++ "(" ++ ("mem[" ++ address ++ "]") ++ ")")
        = w ++ "(" ++ ("mem[" ++ mapPieces f address ++ "]") ++ ")" := by
    intro w hw
    rw [mapPieces_append (.inr (by decide)), mapPieces_append, hself hw, hplain,
      hself (t := ")") (by decide)]
    exact .inl (by rw [getLast?_append (by decide)]; decide)
  cases type with
  | float => exact hwrap "asfloat" (by decide)
  | int => exact hwrap "asint" (by decide)
  | uint => exact hplain
  | bool => exact hplain
  | void => exact hplain

lemma KeepsForm.mapPieces (hf : Text.OnNames f) (h : KeepsForm op type e) :
    KeepsForm op type (mapPieces f e) := by
  refine ⟨fun hload => ?_, fun hvoid hcontrol => (h.opens hvoid hcontrol).mapPieces hf⟩
  obtain ⟨address, rfl⟩ := h.load hload
  exact ⟨_, mapPieces_readAs hf type address⟩

/-- A statement whose expression kept its form still tells its declaration. -/
lemma KeepsForm.tells {types : List Scalar} (h : KeepsForm op type e) (hop : op ∈ table)
    (htype : op.resultType types = .ok type) :
    Tells op type var (op.leftText type var args ++ e ++ op.rightText) := by
  cases hcontrol : op.isControl with
  | true =>
    have hvoid : op.name ≠ "loop_begin" → type = .void := fun hname =>
      resultType_control hop hcontrol hname htype
    rw [String.append_assoc, leftText]
    rcases isControl_iff.1 hcontrol with hname | hname | hname | hname
    · rw [if_pos hname]
      exact .of_loopHead (by rw [hname]; decide) (resultType_loop_begin hop hname htype) rfl
    · rw [if_neg (by rw [hname]; decide), if_pos (.inl hname)]
      exact .of_quiet (by rw [hname]; decide) (hvoid (by rw [hname]; decide)) (quiet_blockEnd _)
    · rw [if_neg (by rw [hname]; decide), if_neg (by rw [hname]; decide), if_pos hname]
      exact .of_branchHead (by rw [hname]; decide) (hvoid (by rw [hname]; decide)) rfl
    · rw [if_neg (by rw [hname]; decide), if_pos (.inr hname)]
      exact .of_quiet (by rw [hname]; decide) (hvoid (by rw [hname]; decide)) (quiet_blockEnd _)
  | false =>
    rw [leftText_of_plain hcontrol, rightText_of_plain hcontrol]
    by_cases hvoid : type = .void
    · have hload : op.name ≠ "load" := ne_load_of_void hop (hvoid ▸ htype)
      rw [if_pos hvoid, String.empty_append]
      exact .of_quiet hload hvoid (h.opens hvoid hcontrol).quiet
    · rw [if_neg hvoid]
      by_cases hload : op.name = "load"
      · obtain ⟨address, rfl⟩ := h.load hload
        exact .of_load "mem" address (by decide)
      · rw [String.append_assoc]
        exact .of_declaration hload

end KeepsForm

namespace Graph

variable {g : Graph} {k : Kernel} {n : NodeId} {line : Line} {lines : List Line} {i : Nat}

/-- Every line starts with an expression in the form of its operation. -/
lemma IsLine.keepsForm (h : g.IsLine k n type line) (hop : (g.node n).op ∈ table) :
    KeepsForm (g.node n).op type line.expression := by
  refine ⟨fun hload => ?_, fun hvoid hcontrol => ?_⟩
  · exact ⟨_, (h.of_load hload (accesses_of_load hop hload)).2.1⟩
  · subst hvoid
    have hload : (g.node n).op.name ≠ "load" :=
      ne_load_of_void hop h.resultType
    by_cases hstore : (g.node n).op.name = "store"
    · obtain ⟨-, -, rest, hrest⟩ := h.of_write hload hcontrol (accesses_of_store hop hstore)
      rw [hrest, if_pos hstore]
      exact ⟨"mem".toList, '[', (rest ++ ";").toList, by simp, by decide, by decide, by decide⟩
    · have hword := writtenByWord hop h.resultType hcontrol hstore
      cases haccess : (g.node n).op.kind.accesses with
      | true =>
        obtain ⟨-, -, rest, hrest⟩ := h.of_write hload hcontrol haccess
        rw [hrest, if_neg hstore]
        exact ⟨(g.node n).op.code.toList, '(', ("(" ++ rest ++ ";").toList, by simp, hword.letters,
          by decide, by decide⟩
      | false =>
        have hkind : (g.node n).op.kind ≠ .scatter := fun hk => by
          rw [hk] at haccess
          cases haccess
        have hplain : (g.plainExpression n (g.operands g.names k n).texts).1
            = (g.node n).op.expression (g.operands g.names k n).texts := by
          rcases hword.kind.resolve_left hkind with hk | hk <;> simp [plainExpression, hk]
        rw [(h.of_plain hcontrol haccess).2.1, hplain]
        exact hword.opens_expression hkind _

/-- Merging keeps the form of an expression. -/
lemma Lined.keepsForm (h : g.Lined k lines) (hn : (g.lineNodes k)[i]? = some n)
    (htype : (g.node n).op.resultType (g.inputTypes n) = .ok type) :
    KeepsForm (g.node n).op type (mergedLine lines i).expression := by
  obtain ⟨-, line, hi, -⟩ := h.exists_line hn
  have hlt := (List.getElem?_eq_some_iff.1 hi).1
  refine (expression_mergeAll (E := fun i e => '$' ∉ e.toList ∧ ∀ n type,
    (g.lineNodes k)[i]? = some n →
    (g.node n).op.resultType (g.inputTypes n) = .ok type → KeepsForm (g.node n).op type e) ?_ ?_
    (getElem?_mergeAll hlt)).2 n type hn htype
  · intro i line hi
    refine ⟨(h.plain line (mem_of_getElem? hi)).2, fun n type hn htype => ?_⟩
    obtain ⟨type', line', hi', hline⟩ := h.exists_line hn
    cases hi.symm.trans hi'
    obtain rfl := Except.ok.inj (hline.resultType.symm.trans htype)
    exact hline.keepsForm (h.table n (mem_of_getElem? hn))
  · rintro i j line other e e' hi hj ⟨hplain, he⟩ ⟨hplain', -⟩
    have hoperand := Line.dollar_not_mem_asOperand (l := { other with expression := e' }) hplain'
    obtain ⟨a, b, hname⟩ := h.ofValues other.name (mem_map_of_mem (mem_of_getElem? hj))
    have hunderscore : '_' ∈ other.name.toList := hname ▸ underscore_mem_variableName a b
    refine ⟨fun hmem => (mem_replaceWord hmem).elim hplain hoperand, fun n type hn htype => ?_⟩
    rw [replaceWord_eq_mapPieces (ne_nil_of_mem hunderscore) hoperand]
    exact (he n type hn htype).mapPieces (onNames_replacePiece _ hunderscore)

lemma Lined.tells (h : g.Lined k lines) (hn : (g.lineNodes k)[i]? = some n) :
    ∃ type, (g.node n).op.resultType (g.inputTypes n) = .ok type ∧
      Tells (g.node n).op type (renamed (mergedNames lines) (g.names.of n))
      (statement lines i) := by
  obtain ⟨type, htype, hstatement⟩ := h.statement_eq hn
  have hform := (h.keepsForm hn htype).mapPieces h.ofValues.mergedNames.onNames
  rw [hstatement]
  exact ⟨type, htype, hform.tells (h.table n (mem_of_getElem? hn)) htype⟩

/-! ### Programs -/

/-- The texts that are written for a node, with the name of its variable: its statement in a kernel,
if merging leaves one, and its line in a shader. -/
inductive Writes (f : Graph) (ks : List Kernel) (n : NodeId) : String → String → Prop
  | kernel {k : Kernel} {lines : List Line} {i : Nat} (hk : k ∈ ks) (hkind : k.kind = .compute)
      (hlines : f.kernelLines k = .ok lines) (hkept : i ∈ keptPlaces lines)
      (hn : (f.lineNodes k)[i]? = some n) :
      Writes f ks n (renamed (mergedNames lines) (f.names.of n)) (statement lines i)
  | shader {c : ClusterId} {text : String} (hc : c ∈ f.summary.clusters) (hshader : f.isShader c)
      (hn : n ∈ f.run c) (hconst : (f.node n).isConst = false)
      (htext : f.shaderStatement f.names n = .ok text) : Writes f ks n (f.names.of n) text

variable {f : Graph} {ks : List Kernel} {l : List NodeId}

lemma Lists.tells_shaderStatement (hl : f.Lists l) (hop : (f.node n).op ∈ table)
    (h : f.shaderStatement f.names n = .ok text) :
    ∃ type, (f.node n).op.resultType (f.inputTypes n) = .ok type ∧
      Tells (f.node n).op type (f.names.of n) text := by
  rw [shaderStatement] at h
  split at h
  · cases h
  · have htypes : (((f.node n).arguments .input).map f.source).map (fun m => (f.node m).type)
        = f.inputTypes n := by
      rw [map_map]
      rfl
    rw [htypes] at h
    refine tells_statement hop (fun c hc => ?_) h
    rw [operand, getD_eq_getElem?_getD, getElem?_map] at hc
    cases hfirst : (((f.node n).arguments .memory).map f.source ++
      ((f.node n).arguments .input).map f.source
        ++ ((f.node n).arguments .index).map f.source)[0]? with
    | none =>
      rw [hfirst] at hc
      cases hc
    | some m =>
      rw [hfirst] at hc
      exact hl.isOperandChar_of_mem_valueName hc

lemma Final.tells (h : f.Final ks) (hwrites : f.Writes ks n var text) :
    f.WellTyped n ∧ ∃ type, (f.node n).op.resultType (f.inputTypes n) = .ok type ∧
      Tells (f.node n).op type var text := by
  cases hwrites with
  | kernel hk hkind hlines hkept hn =>
    have hlined := h.lined hk hkind hlines
    exact ⟨h.wellTyped n (hlined.sublist.subset (mem_of_getElem? hn)), hlined.tells hn⟩
  | @shader c _ hc hshader hn hconst htext =>
    obtain ⟨m, hm, -, hcm⟩ := mem_clusterOrder.1 hc
    obtain ⟨head, hhead, hmem, hch, -⟩ := h.grouped.head hm hcm
    have hlisted : n ∈ f.order := by
      rcases ((h.grouped.mem_run_iff h.lists hhead hmem hch).1 hn).1 with rfl | hprec
      · exact hmem
      · exact hprec.right_mem
    have htyped := h.wellTyped n hlisted
    exact ⟨htyped, h.lists.tells_shaderStatement htyped.table htext⟩

/-- The text of a node has its type if and only if its operation is not ambiguous or it is a
float. -/
theorem written_type_iff {outputs : List NodeId} {l : List Step} (hl : Step.allRegular l = true)
    (hrun : Build.transform outputs (Script.scene l).graph = .ok ks f)
    (hwrites : f.Writes ks n var text) :
    Tells (f.node n).op (f.node n).type var text ↔
      (f.node n).op.isAmbiguous = false ∨ (f.node n).type = .float := by
  obtain ⟨htyped, type, htype, htells⟩ := (final_of_transform hl hrun).tells hwrites
  have heq := htyped.agrees.resultType_eq_ok htyped.table htype
  cases hamb : (f.node n).op.isAmbiguous with
  | false =>
    rw [hamb, if_neg (by decide)] at heq
    exact ⟨fun _ => .inl rfl, fun _ => heq ▸ htells⟩
  | true =>
    rw [hamb, if_pos rfl] at heq
    subst heq
    -- the text declares a float, and nothing else
    refine ⟨fun h => .inr (h.only .float (htells.declares (by decide))).symm, fun h => ?_⟩
    rw [h.resolve_left (by decide)]
    exact htells

end Graph

/-- The square of an element of an input. -/
def squareOfLoad (type : Scalar) : List Step :=
  [ .act (.input type (.sizes [4])) (some "A"),
    .act (.index (.like "A") 0) (some "i"),
    .act (.load "A" ["i"]) (some "x"),
    .act (.call (.folding .mul) ["x", "x"]) (some "y") ]

lemma writes_squareOfLoad (htype : type = .float ∨ type = .int) : ∃ ks f n,
    Build.transform [4] (Script.scene (squareOfLoad type)).graph = .ok ks f ∧
      f.Writes ks n "v0" "float v0 = asfloat(mem[off[0] + clamp(dim0, 0, 3)]);" ∧
      (f.node n).op.name = "load" ∧ (f.node n).type = type := by
  obtain ⟨ks, f, hrun, k, hk, hkind, lines, hlines, i, hi, n, hn, hvar, htext, hrest⟩ : ∃ ks f,
      Build.transform [4] (Script.scene (squareOfLoad type)).graph = .ok ks f ∧
      ∃ k ∈ ks, k.kind = .compute ∧ ∃ lines, f.kernelLines k = .ok lines ∧
      ∃ i ∈ keptPlaces lines, ∃ n ∈ (f.lineNodes k)[i]?,
        renamed (mergedNames lines) (f.names.of n) = "v0" ∧
        statement lines i = "float v0 = asfloat(mem[off[0] + clamp(dim0, 0, 3)]);" ∧
        (f.node n).op.name = "load" ∧ (f.node n).type = type := by
    rcases htype with rfl | rfl
    · decide +kernel
    · decide +kernel
  exact ⟨ks, f, n, hrun, hvar ▸ htext ▸ .kernel hk hkind hlines hi hn, hrest⟩

theorem Graph.written_type_squareOfLoad : ∃ ks f n,
    Build.transform [4] (Script.scene (squareOfLoad .float)).graph = .ok ks f ∧
      f.Writes ks n "v0" "float v0 = asfloat(mem[off[0] + clamp(dim0, 0, 3)]);" ∧
      Tells (f.node n).op .float "v0" "float v0 = asfloat(mem[off[0] + clamp(dim0, 0, 3)]);" := by
  obtain ⟨ks, f, n, hrun, hwrites, -, htype⟩ := writes_squareOfLoad (.inl rfl)
  have htells := (Graph.written_type_iff (by decide +kernel) hrun hwrites).2 (.inr htype)
  rw [htype] at htells
  exact ⟨ks, f, n, hrun, hwrites, htells⟩

/-- A loaded integer is declared as a float. -/
theorem Graph.not_forall_written_type :
    ¬ ∀ (l : List Step) (outputs : List NodeId) (ks : List Kernel) (f : Graph) (n : NodeId)
      (var text : String), Step.allRegular l = true →
      Build.transform outputs (Script.scene l).graph = .ok ks f → f.Writes ks n var text →
      Tells (f.node n).op (f.node n).type var text := by
  intro hall
  obtain ⟨ks, f, n, hrun, hwrites, -, htype⟩ := writes_squareOfLoad (.inr rfl)
  have htells := hall _ _ _ _ _ _ _ (by decide +kernel) hrun hwrites
  have hfloat := htells.only .float (.inl (by decide))
  rw [htype] at hfloat
  cases hfloat

end KernelFusion
