/-
The text of merged lines.

As no new name of a variable is an old one, renaming one after the other renames all words at once
(`renamed`): the text of a kernel is its lines, each of them renamed on its own.
-/
import KernelFusion.Proofs.Emit.Lines
import KernelFusion.Proofs.Emit.Merging
import KernelFusion.Proofs.Kernel.Stages

namespace KernelFusion

open List

open Text (pieces isWordChar mapPieces)

/-! ### Renaming -/

/-- The name that the variable of a line gets by its place. -/
def shortName (j : Nat) : String := "v" ++ toString j

/-- A piece of a text in which the listed names have been replaced by short ones. -/
def renamedPiece (names : List String) (p : List Char) : List Char :=
  match names.findIdx? fun x => x.toList = p with
  | some j => (shortName j).toList
  | none => p

/-- A text in which the listed names have been replaced by short ones. -/
def renamed (names : List String) (text : String) : String := mapPieces (renamedPiece names) text

/-- All names are names of values. -/
def OfValues (names : List String) : Prop := ∀ x ∈ names, ∃ a b, x = variableName a b

/-- All names are words, and none of them is a short name. -/
def AreLong (names : List String) : Prop := ∀ x ∈ names, Text.IsName x.toList ∧ ∀ j, x ≠ shortName j

lemma isName_shortName (j : Nat) : Text.IsName (shortName j).toList := by
  refine ⟨by simp [shortName], fun c hc => ?_⟩
  rw [shortName, String.toList_append, mem_append] at hc
  rcases hc with hc | hc
  · rw [mem_singleton.1 hc]
    decide
  · exact isWordChar_of_isDigit (isDigit_of_mem_toString hc)

lemma underscore_not_mem_shortName (j : Nat) : '_' ∉ (shortName j).toList := by
  rw [shortName, String.toList_append, mem_append, not_or]
  exact ⟨by decide, not_mem_toString (by decide)⟩

lemma underscore_mem_variableName (a b : Nat) : '_' ∈ (variableName a b).toList := by
  rw [toList_variableName]
  simp

section Renamed

variable {names : List String} {a b text : String} {p : List Char}

lemma renamedPiece_eq_self (h : ∀ x ∈ names, x.toList ≠ p) : renamedPiece names p = p := by
  have hnone : (names.findIdx? fun x => x.toList = p) = none := by
    rw [findIdx?_eq_none_iff]
    exact fun x hx => decide_eq_false (h x hx)
  rw [renamedPiece, hnone]

lemma OfValues.onNames (h : OfValues names) : Text.OnNames (renamedPiece names) := by
  intro p hp
  refine renamedPiece_eq_self fun x hx heq => hp ?_
  obtain ⟨a, b, rfl⟩ := h x hx
  exact heq ▸ underscore_mem_variableName a b

lemma OfValues.areLong (h : OfValues names) : AreLong names := by
  intro x hx
  obtain ⟨a, b, rfl⟩ := h x hx
  exact ⟨isName_variableName a b, fun j heq =>
    underscore_not_mem_shortName j (heq ▸ underscore_mem_variableName a b)⟩

lemma AreLong.separator (h : AreLong names) {c : Char} (hc : isWordChar c = false) :
    renamedPiece names [c] = [c] := by
  refine renamedPiece_eq_self fun x hx heq => ?_
  have hword := (h x hx).1.2 c (heq ▸ mem_singleton_self c)
  exact Bool.false_ne_true (hc.symm.trans hword)

lemma AreLong.pieces_renamedPiece (h : AreLong names) {cs : List Char} (hp : p ∈ pieces cs) :
    pieces (renamedPiece names p) = [renamedPiece names p] := by
  rcases Text.isName_or_separator hp with hname | ⟨c, hc, rfl⟩
  · refine Text.IsName.pieces_eq ?_
    unfold renamedPiece
    split
    · exact isName_shortName _
    · exact hname
  · rw [h.separator hc, Text.pieces_cons_separator hc]
    rfl

lemma AreLong.pieces_renamed (h : AreLong names) (text : String) :
    pieces (renamed names text).toList = (pieces text.toList).map (renamedPiece names) := by
  rw [renamed, Text.pieces_mapPieces fun c => h.separator,
    flatMap_congr fun p hp => h.pieces_renamedPiece hp]
  exact (map_eq_flatMap ..).symm

lemma renamed_append (h : Text.Breaks a b) : renamed names (a ++ b) = renamed names a ++
    renamed names b :=
  Text.mapPieces_append h

lemma OfValues.renamed_eq_self (h : OfValues names) (htext : '_' ∉ text.toList) :
    renamed names text = text := h.onNames.mapPieces_eq_self htext

lemma AreLong.replaceWord_renamed {x : String} (h : AreLong (names ++ [x])) (text : String) :
    Text.replaceWord x (shortName names.length) (renamed names text) = renamed
    (names ++ [x]) text := by
  have hnames : AreLong names := fun y hy => h y (mem_append_left _ hy)
  obtain ⟨hname, hlong⟩ := h x (by simp)
  rw [Text.replaceWord_eq_mapPieces hname.ne_nil (isName_shortName _).dollar_not_mem, mapPieces,
    hnames.pieces_renamed, flatMap_map, renamed, mapPieces]
  congr 2
  funext p
  rw [Text.replacePiece, renamedPiece, renamedPiece, findIdx?_append]
  cases hfind : names.findIdx? fun x => x.toList = p with
  | some j =>
    have hne : (shortName j).toList ≠ x.toList := fun heq => hlong j (String.toList_inj.1 heq).symm
    simp [hne]
  | none =>
    by_cases hp : p = x.toList
    · simp [hp]
    · simp [hp, Ne.symm hp]

lemma foldl_replaceWord_eq_renamed {lines : List Line} (h : AreLong (lines.map (·.name)))
    (text : String) :
    lines.zipIdx.foldl (fun text (l, i) => Text.replaceWord l.name ("v" ++ toString i) text) text
      = renamed (lines.map (·.name)) text := by
  induction lines using reverseRecOn with
  | nil =>
    have hid : renamedPiece [] = id := rfl
    simp [renamed, mapPieces, hid, Text.flatten_pieces]
  | append_singleton lines l ih =>
    have hinit : AreLong (lines.map (·.name)) := fun x hx => h x (by simp_all)
    rw [map_append] at h
    have hone := h.replaceWord_renamed text
    rw [length_map] at hone
    rw [zipIdx_append, foldl_append, ih hinit, map_append]
    simpa [shortName] using hone

end Renamed

/-! ### The lines that are left -/

/-- The places of the lines that merging leaves. -/
def keptPlaces (lines : List Line) : List Nat :=
  (range lines.length).filter fun i => !(mergeAll lines).dropped.contains i

/-- The line at a place after merging. -/
def mergedLine (lines : List Line) (i : Nat) : Line := (mergeAll lines).lines.getD i default

/-- The names of the variables of the lines that are left. -/
def mergedNames (lines : List Line) : List String := (mergeLines lines).map (·.name)

/-- The statement at a place of the text. -/
def statement (lines : List Line) (i : Nat) : String :=
  renamed (mergedNames lines) (mergedLine lines i).code

/-- The statement at a place with its indentation. -/
def statementLine (lines : List Line) (i : Nat) : String :=
  String.join (replicate (mergedLine lines i).indent.toNat "  ") ++ statement lines i ++ "\n"

section Kept

variable {lines : List Line} {i : Nat} {names : List String}

lemma mem_keptPlaces : i ∈ keptPlaces lines ↔ i < lines.length ∧
    i ∉ (mergeAll lines).dropped := by
  simp [keptPlaces]

lemma filter_zipIdx_map_fst {α : Type} [Inhabited α] (xs : List α) (q : Nat → Bool) :
    (xs.zipIdx.filter fun (_, i) => q i).map (·.1)
      = ((range xs.length).filter q).map fun i => xs.getD i default := by
  induction xs using reverseRecOn with
  | nil => rfl
  | append_singleton xs x ih =>
    have hold : ∀ i ∈ (range xs.length).filter q,
      xs.getD i default = (xs ++ [x]).getD i default := by
      intro i hi
      have hlt := mem_range.1 (mem_filter.1 hi).1
      simp [getElem?_append_left hlt]
    rw [zipIdx_append, filter_append, map_append, ih, length_append, length_singleton,
      range_succ, filter_append, map_append, map_congr_left hold]
    congr 1
    cases hq : q xs.length <;> simp [hq]

lemma mergeLines_eq (lines : List Line) : mergeLines lines = (keptPlaces lines).map
    (mergedLine lines) := by
  rw [mergeLines, filter_zipIdx_map_fst (mergeAll lines).lines fun i =>
    !(mergeAll lines).dropped.contains i, length_mergeAll]
  rfl

lemma getElem?_mergeAll (hi : i < lines.length) : (mergeAll lines).lines[i]? = some
    (mergedLine lines i) := by
  rw [← length_mergeAll] at hi
  simp [mergedLine, getElem?_eq_getElem hi]

lemma frame_mergedLine {l : Line} (hl : lines[i]? = some l) :
    (mergedLine lines i).frame = l.frame := by
  obtain ⟨hi, -⟩ := List.getElem?_eq_some_iff.1 hl
  obtain ⟨l', hl', hframe⟩ := exists_line_of_mergeAll (getElem?_mergeAll hi)
  rwa [Option.mem_unique hl' hl] at hframe

lemma OfValues.mergedNames (h : OfValues (lines.map (·.name))) :
    OfValues (mergedNames lines) := by
  intro x hx
  rw [KernelFusion.mergedNames, mergeLines_eq, map_map] at hx
  obtain ⟨i, hi, rfl⟩ := mem_map.1 hx
  obtain ⟨l, hl⟩ : ∃ l, lines[i]? = some l := ⟨_, getElem?_eq_getElem (mem_keptPlaces.1 hi).1⟩
  have hname : (mergedLine lines i).name = l.name := congrArg (·.name) (frame_mergedLine hl)
  rw [Function.comp_apply, hname]
  exact h _ (mem_map_of_mem (mem_of_getElem? hl))

lemma renamed_indent (h : OfValues names) (n : Nat) (text : String) :
    renamed names (String.join (replicate n "  ") ++ text)
      = String.join (replicate n "  ") ++ renamed names text := by
  have hblank : ∀ c ∈ (String.join (replicate n "  ")).toList, c = ' ' := by
    intro c hc
    have hc' : n ≠ 0 ∧ c = ' ' := by simpa [String.toList_join] using hc
    exact hc'.2
  rw [renamed_append (.inl fun c hc => by rw [hblank c (mem_of_getLast? hc)]; decide),
    h.renamed_eq_self fun hmem => absurd (hblank _ hmem) (by decide)]

lemma renamed_join {texts : List String}
    (h : ∀ t ∈ texts, ∀ c ∈ t.toList.getLast?, isWordChar c = false) :
    renamed names (String.join texts) = String.join (texts.map (renamed names)) := by
  induction texts with
  | nil => rfl
  | cons t texts ih =>
    rw [String.join_cons, map_cons, String.join_cons, renamed_append (.inl (h t mem_cons_self)),
      ih fun t' ht' => h t' (mem_cons_of_mem _ ht')]

lemma renamed_text (h : OfValues names) (l : Line) :
    renamed names l.text
      = String.join (replicate l.indent.toNat "  ") ++ renamed names l.code ++ "\n" := by
  have hend : renamed names "\n" = "\n" := h.renamed_eq_self (by decide)
  rw [Line.text, renamed_indent h, renamed_append (.inr (by decide)), hend, String.append_assoc]

lemma getLast?_text (l : Line) : l.text.toList.getLast? = some '\n' := by simp [Line.text]

/-- The text of a kernel is the statements of its kept lines. -/
lemma renderLines_mergeLines (h : OfValues (lines.map (·.name))) :
    renderLines (mergeLines lines) = String.join
    ((keptPlaces lines).map (statementLine lines)) := by
  have hnames := h.mergedNames
  have hends : ∀ t ∈ (mergeLines lines).map Line.text, ∀ c ∈ t.toList.getLast?,
    isWordChar c = false := by
    intro t ht c hc
    obtain ⟨l, -, rfl⟩ := mem_map.1 ht
    rw [getLast?_text, Option.mem_some_iff] at hc
    rw [← hc]
    decide
  calc renderLines (mergeLines lines)
      = renamed (mergedNames lines) (String.join ((mergeLines lines).map Line.text)) :=
        foldl_replaceWord_eq_renamed hnames.areLong _
    _ = String.join ((mergeLines lines).map fun l => renamed (mergedNames lines) l.text) := by
        rw [renamed_join hends, map_map]
        rfl
    _ = String.join ((keptPlaces lines).map fun i =>
          renamed (mergedNames lines) (mergedLine lines i).text) := by
        conv_lhs => rw [mergeLines_eq]
        rw [map_map]
        rfl
    _ = String.join ((keptPlaces lines).map (statementLine lines)) := by
        refine congrArg String.join (map_congr_left fun i _ => ?_)
        rw [renamed_text hnames, statementLine, statement]

end Kept

/-! ### Statements -/

section Statements

open Operation (loopHead branchHead blockEnd declaration operand)

variable {names : List String} {op : Operation} {type : Scalar} {var : String} {args : List String}

lemma getLast?_append {a b : String} (hb : b.toList ≠ []) :
    (a ++ b).toList.getLast? = b.toList.getLast? := by
  rw [String.toList_append, getLast?_append_of_ne_nil _ hb]

lemma loopHead_eq (var : String) (args : List String) :
    loopHead var args = "for (int " ++ var ++ " = " ++ operand args 0 ++ "; " ++ var ++ " < "
      ++ operand args 1 ++ "; " ++ var ++ " += " ++ operand args 2 ++ ") \x7b" := by
  delta loopHead
  exact Eq.refl _

lemma getLast?_leftText (op : Operation) (type : Scalar) (var : String) (args : List String) :
    ∀ c ∈ (op.leftText type var args).toList.getLast?, isWordChar c = false := by
  unfold Operation.leftText
  split
  · rw [loopHead_eq, getLast?_append (by decide)]
    decide
  split
  · decide
  split
  · rw [branchHead, getLast?_append (by decide)]
    decide
  split
  · decide
  · rw [declaration, getLast?_append (by decide)]
    decide

lemma renamed_operand (names : List String) (args : List String) (i : Nat) :
    renamed names (operand args i) = operand (args.map (renamed names)) i := by
  have hnil : renamed names "" = "" := rfl
  rw [operand, operand, getD_eq_getElem?_getD, getD_eq_getElem?_getD, getElem?_map]
  cases args[i]? with
  | none => exact hnil
  | some a => rfl

lemma OfValues.renamed_joint (h : OfValues names) (a b : String) {t : String} (hne : t.toList ≠ [])
    (hends : (∀ c ∈ t.toList.head?, isWordChar c = false) ∧ ∀ c ∈ t.toList.getLast?,
    isWordChar c = false)
    (hplain : '_' ∉ t.toList) : renamed names (a ++ t ++ b) = renamed names a ++ t ++
    renamed names b := by
  rw [renamed_append (.inl (by rw [getLast?_append hne]; exact hends.2)),
    renamed_append (.inr hends.1), h.renamed_eq_self hplain]

lemma renamed_loopHead (h : OfValues names) (var : String) (args : List String) :
    renamed names (loopHead var args) = loopHead (renamed names var)
    (args.map (renamed names)) := by
  have hfirst : renamed names "for (int " = "for (int " := h.renamed_eq_self (by decide)
  have hlast : renamed names ") \x7b" = ") \x7b" := h.renamed_eq_self (by decide)
  rw [loopHead_eq, loopHead_eq, renamed_append (.inr (by decide)), hlast]
  -- the texts between the operands
  iterate 5 rw [h.renamed_joint _ _ (by decide) (by decide) (by decide)]
  rw [renamed_append (.inl (by decide)), hfirst]
  simp only [renamed_operand]

lemma renamed_leftText (h : OfValues names) :
    renamed names (op.leftText type var args)
      = op.leftText type (renamed names var) (args.map (renamed names)) := by
  unfold Operation.leftText
  split
  · exact renamed_loopHead h var args
  split
  · exact h.renamed_eq_self (by decide)
  split
  · have hfirst : renamed names "if (" = "if (" := h.renamed_eq_self (by decide)
    have hlast : renamed names ") \x7b" = ") \x7b" := h.renamed_eq_self (by decide)
    rw [branchHead, branchHead, renamed_append (.inr (by decide)), hlast,
      renamed_append (.inl (by decide)), hfirst, renamed_operand]
  split
  · exact h.renamed_eq_self (by decide)
  · have htype : renamed names type.name = type.name := h.renamed_eq_self (by cases type <;> decide)
    have hlast : renamed names " = " = " = " := h.renamed_eq_self (by decide)
    rw [declaration, declaration, renamed_append (.inr (by decide)), hlast,
      h.renamed_joint _ _ (by decide) (by decide) (by decide), htype]

end Statements

namespace Graph

variable {g : Graph} {k : Kernel} {ks : List Kernel} {n : NodeId} {lines : List Line} {i : Nat}

/-- The lines of a kernel: they stand for values of the program, in order. -/
structure Lined (g : Graph) (k : Kernel) (lines : List Line) : Prop where
  lists : g.Lists g.order
  sublist : (g.lineNodes k).Sublist g.order
  isMemory : ∀ n ∈ g.lineNodes k, (g.node n).isMemory = false
  table : ∀ n ∈ g.lineNodes k, (g.node n).op ∈ Operation.table
  lines : Forall₂ (fun n line => ∃ type, g.IsLine k n type line) (g.lineNodes k) lines

namespace Lined

variable (h : g.Lined k lines)

include h

lemma exists_line (hn : (g.lineNodes k)[i]? = some n) :
    ∃ type line, lines[i]? = some line ∧ g.IsLine k n type line := by
  obtain ⟨hi, rfl⟩ := List.getElem?_eq_some_iff.1 hn
  have hi' : i < lines.length := h.lines.length_eq ▸ hi
  obtain ⟨type, hline⟩ := h.lines.get hi hi'
  exact ⟨type, lines[i], getElem?_eq_getElem hi', hline⟩

lemma exists_node {line : Line} (hline : lines[i]? = some line) :
    ∃ n type, (g.lineNodes k)[i]? = some n ∧ g.IsLine k n type line := by
  obtain ⟨hi, rfl⟩ := List.getElem?_eq_some_iff.1 hline
  have hi' : i < (g.lineNodes k).length := h.lines.length_eq ▸ hi
  obtain ⟨type, hline⟩ := h.lines.get hi' hi
  exact ⟨_, type, getElem?_eq_getElem hi', hline⟩

lemma ofValues : OfValues (lines.map (·.name)) := by
  intro x hx
  obtain ⟨line, hmem, rfl⟩ := mem_map.1 hx
  obtain ⟨i, hi⟩ := mem_iff_getElem?.1 hmem
  obtain ⟨n, type, hn, hline⟩ := h.exists_node hi
  have hmem := mem_of_getElem? hn
  rw [hline.name]
  exact h.lists.name_eq (h.sublist.subset hmem) (h.isMemory n hmem)

lemma statement_eq (hn : (g.lineNodes k)[i]? = some n) : ∃ type,
    (g.node n).op.resultType (g.inputTypes n) = .ok type ∧
    statement lines i = (g.node n).op.leftText type (renamed (mergedNames lines) (g.names.of n))
        ((g.operands g.names k n).texts.map (renamed (mergedNames lines)))
      ++ renamed (mergedNames lines) (mergedLine lines i).expression ++
      (g.node n).op.rightText := by
  obtain ⟨type, line, hi, hline⟩ := h.exists_line hn
  have hnames := h.ofValues.mergedNames
  obtain ⟨hleft, hright⟩ := hline.parts_eq (h.table n (mem_of_getElem? hn))
  have hframe := frame_mergedLine hi
  have hleft' : (mergedLine lines i).left = line.left := congrArg (·.left) hframe
  have hright' : (mergedLine lines i).right = line.right := congrArg (·.right) hframe
  have hhead : ∀ c ∈ (g.node n).op.rightText.toList.head?, isWordChar c = false := by
    rw [Operation.rightText]
    split <;> decide
  have hplain : renamed (mergedNames lines) (g.node n).op.rightText = (g.node n).op.rightText := by
    rw [Operation.rightText]
    split
    · exact hnames.renamed_eq_self (by decide)
    · exact hnames.renamed_eq_self (by decide)
  refine ⟨type, hline.resultType, ?_⟩
  rw [statement, Line.code, hleft', hright', hleft, hright, renamed_append (.inr hhead), hplain,
    renamed_append (.inl (getLast?_leftText _ _ _ _)), renamed_leftText hnames]

end Lined

lemma kernelSource_eq_ok {name text : String} (hlined : ∀ lines, g.kernelLines k = .ok lines →
    g.Lined k lines)
    (h : g.kernelSource name k = .ok text) : ∃ lines nest, g.kernelLines k = .ok lines ∧
      LoopNest.ofMode k.mode k.dim = .ok nest ∧ text = kernelFunction name nest.text
        (String.join ((keptPlaces lines).map (statementLine lines))) := by
  rw [kernelSource] at h
  obtain ⟨lines, hlines, h⟩ := Except.bind_eq_ok.1 h
  obtain ⟨nest, hnest, h⟩ := Except.bind_eq_ok.1 h
  have htext : kernelFunction name nest.text (renderLines (mergeLines lines)) = text :=
    Except.ok.inj h
  rw [renderLines_mergeLines (hlined lines hlines).ofValues] at htext
  exact ⟨lines, nest, hlines, hnest, htext.symm⟩

lemma Final.lined {f : Graph} (h : f.Final ks) (hk : k ∈ ks) (hkind : k.kind = .compute)
    (hlines : f.kernelLines k = .ok lines) : f.Lined k lines := by
  obtain ⟨hsub, hnodes⟩ := lineNodes_spec h.lists h.grouped h.kernels hk hkind
  exact ⟨h.lists, hsub, fun n hn => (hnodes n hn).1, fun n hn =>
    (h.wellTyped n (hsub.subset hn)).table, kernelLines_eq_ok hlines⟩

end Graph

end KernelFusion
