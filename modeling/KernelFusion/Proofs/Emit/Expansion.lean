/-
Expanded lines.

A line stands for a text without names of lines: each name of a line in front of it is replaced by
the expansion of that line, in parentheses if it needs them.
-/
import KernelFusion.Proofs.Emit.Merging

namespace KernelFusion

open List Text

namespace Text

variable {x name new text : String} {table table' : List (String × String)} {c : Char}

/-! ### Occurrences -/

lemma IsName.ne_separator {w : List Char} (h : IsName w) (hc : isWordChar c = false) : w ≠ [c] := by
  rintro rfl
  rw [h.2 c mem_cons_self] at hc
  cases hc

lemma countWord_of_isName (h : IsName x.toList) (text : String) :
    countWord x text = (pieces text.toList).count x.toList := by
  have hne : x ≠ "" := fun hempty => h.ne_nil (by rw [hempty]; rfl)
  rw [countWord, if_neg hne]

lemma countWord_ne_zero_iff (h : IsName x.toList) :
    countWord x text ≠ 0 ↔ x.toList ∈ pieces text.toList := by
  rw [countWord_of_isName h, ← Nat.pos_iff_ne_zero, count_pos_iff]

lemma pieces_replaceWord (h : IsName name.toList) (hnew : '$' ∉ new.toList) (text : String) :
    pieces (replaceWord name new text).toList =
      (pieces text.toList).flatMap fun p => if p = name.toList then pieces new.toList else [p] := by
  have hseparator : ∀ c, isWordChar c = false → replacePiece name.toList new.toList [c] = [c] := by
    intro c hc
    rw [replacePiece, if_neg (h.ne_separator hc).symm]
  rw [replaceWord_eq_mapPieces h.ne_nil hnew, pieces_mapPieces hseparator]
  refine flatMap_congr fun p hp => ?_
  rw [replacePiece]
  split
  · rfl
  · exact pieces_of_mem hp

/-- How often a word occurs after another is replaced. -/
lemma countWord_replaceWord (hx : IsName x.toList) (h : IsName name.toList)
    (hnew : '$' ∉ new.toList) (text : String) :
    countWord x (replaceWord name new text) =
      (if x = name then 0 else countWord x text) + countWord name text * countWord x new := by
  rw [countWord_of_isName hx, countWord_of_isName hx, countWord_of_isName hx, countWord_of_isName h,
    pieces_replaceWord h hnew]
  induction pieces text.toList with
  | nil => simp
  | cons p ps ih =>
    rw [flatMap_cons, count_append, ih]
    by_cases hp : p = name.toList
    · rw [if_pos hp, hp, count_cons_self, Nat.add_mul, Nat.one_mul]
      by_cases hxn : x = name
      · rw [if_pos hxn, if_pos hxn]
        omega
      · have hne : name.toList ≠ x.toList := fun heq => hxn (String.toList_inj.1 heq.symm)
        rw [if_neg hxn, if_neg hxn, count_cons_of_ne hne]
        omega
    · rw [if_neg hp, count_cons_of_ne hp]
      by_cases hxn : x = name
      · have hne : p ≠ x.toList := fun heq => hp (by rw [heq, hxn])
        rw [if_pos hxn, if_pos hxn, count_cons_of_ne hne, count_nil, Nat.zero_add]
      · have hsplit : (p :: ps).count x.toList = [p].count x.toList + ps.count x.toList := by
          rw [← count_append, singleton_append]
        rw [if_neg hxn, if_neg hxn, hsplit, Nat.add_assoc]

/-! ### Simultaneous replacement -/

/-- A piece, or what stands for it in the table. -/
def substitutePiece (table : List (String × String)) (p : List Char) : List Char :=
  ((table.lookup (String.ofList p)).map String.toList).getD p

/-- The text with every name of the table replaced at once. -/
def substitute (table : List (String × String)) : String → String :=
    mapPieces (substitutePiece table)

lemma substitute_congr
    (h : ∀ x : String, x.toList ∈ pieces text.toList → table.lookup x = table'.lookup x) :
    substitute table text = substitute table' text := by
  unfold substitute mapPieces
  refine congrArg String.ofList (flatMap_congr fun p hp => ?_)
  rw [substitutePiece, substitutePiece, h (String.ofList p) (by rwa [String.toList_ofList])]

lemma substitutePiece_separator (htable : ∀ q ∈ table, IsName q.1.toList)
    (hc : isWordChar c = false) : substitutePiece table [c] = [c] := by
  have hnone : table.lookup (String.ofList [c]) = none := by
    rw [lookup_eq_none_iff]
    intro q hq
    have hne : String.ofList [c] ≠ q.1 := fun heq =>
      (htable q hq).ne_separator hc (by rw [← heq, String.toList_ofList])
    simpa using hne
  rw [substitutePiece, hnone]
  rfl

lemma substitute_replaceWord (h : IsName name.toList) (hplain : '$' ∉ new.toList)
    (hnew : table.lookup name = some (substitute table new)) (text : String) :
    substitute table (replaceWord name new text) = substitute table text := by
  have hname : substitutePiece table name.toList =
      (pieces new.toList).flatMap (substitutePiece table) := by
    rw [substitutePiece, String.ofList_toList, hnew, Option.map_some, Option.getD_some, substitute,
      mapPieces, String.toList_ofList]
  unfold substitute mapPieces
  rw [pieces_replaceWord h hplain, flatMap_assoc]
  refine congrArg String.ofList (flatMap_congr fun p _ => ?_)
  split
  · next hp => rw [hp, hname]
  · rw [flatMap_singleton]

end Text

/-! ### Operands -/

variable {x : String} {table table' : List (String × String)} {ls : List Line}

lemma Line.countWord_asOperand (hx : IsName x.toList) (l : Line) :
    countWord x l.asOperand = countWord x l.expression := by
  rw [asOperand]
  split
  · have hopen : Breaks "(" l.expression := .inl (by decide)
    have hclose : Breaks ("(" ++ l.expression) ")" := .inr (by decide)
    have hone : ∀ c, isWordChar c = false → [[c]].count x.toList = 0 := fun c hc =>
      count_eq_zero.2 fun hmem => hx.ne_separator hc (mem_singleton.1 hmem)
    rw [countWord_of_isName hx, countWord_of_isName hx, pieces_append hclose,
      pieces_append hopen, count_append, count_append]
    have hleft := hone '(' (by decide)
    have hright := hone ')' (by decide)
    show [['(']].count x.toList + _ + [[')']].count x.toList = _
    rw [hleft, hright, Nat.zero_add, Nat.add_zero]
  · rfl

lemma Line.substitute_asOperand (htable : ∀ q ∈ table, IsName q.1.toList) (l : Line) :
    substitute table l.asOperand =
      { l with expression := substitute table l.expression }.asOperand := by
  rw [asOperand, asOperand]
  split
  · have hopen : Breaks "(" l.expression := .inl (by decide)
    have hclose : Breaks ("(" ++ l.expression) ")" := .inr (by decide)
    have hone : ∀ c, isWordChar c = false →
        mapPieces (substitutePiece table) (String.ofList [c]) = String.ofList [c] := fun c hc => by
      rw [mapPieces, String.toList_ofList, pieces_cons_separator hc]
      simp [pieces, substitutePiece_separator htable hc]
    have hleft := hone '(' (by decide)
    have hright := hone ')' (by decide)
    unfold substitute
    rw [mapPieces_append hclose, mapPieces_append hopen]
    exact congrArg₂ (· ++ ·) (congrArg (· ++ _) hleft) hright
  · rfl

/-! ### Lines -/

/-- The line with its expression expanded; arguments and cost are blank. -/
def Line.expanded (table : List (String × String)) (l : Line) : Line :=
  { l.frame with expression := substitute table l.expression }

/-- Lines with their expressions expanded, behind lines whose expansions are in the table. -/
def expandFrom (table : List (String × String)) : List Line → List Line
  | [] => []
  | l :: rest => l.expanded table :: expandFrom
      ((l.name, (l.expanded table).asOperand) :: table) rest

/-- Lines with their expressions fully expanded. -/
def expandLines (lines : List Line) : List Line := expandFrom [] lines

/-- The table behind some lines. -/
def operandsFrom (table : List (String × String)) : List Line → List (String × String)
  | [] => table
  | l :: rest => operandsFrom ((l.name, (l.expanded table).asOperand) :: table) rest

lemma expandFrom_append (ls rest : List Line) : expandFrom table (ls ++ rest) =
    expandFrom table ls ++ expandFrom (operandsFrom table ls) rest := by
  induction ls generalizing table with
  | nil => rfl
  | cons l ls ih => rw [cons_append, expandFrom, ih, expandFrom, operandsFrom, cons_append]

lemma operandsFrom_append (ls rest : List Line) :
    operandsFrom table (ls ++ rest) = operandsFrom (operandsFrom table ls) rest := by
  induction ls generalizing table with
  | nil => rfl
  | cons l ls ih => rw [cons_append, operandsFrom, ih, operandsFrom]

lemma lookup_operandsFrom (h : x ∉ ls.map (·.name)) :
    (operandsFrom table ls).lookup x = table.lookup x := by
  induction ls generalizing table with
  | nil => rfl
  | cons l ls ih =>
    rw [map_cons, mem_cons, not_or] at h
    have hne : (x == l.name) = false := by simpa using h.1
    rw [operandsFrom, ih h.2, lookup_cons, hne]

lemma isName_operandsFrom (htable : ∀ q ∈ table, IsName q.1.toList)
    (h : ∀ l ∈ ls, IsName l.name.toList) : ∀ q ∈ operandsFrom table ls, IsName q.1.toList := by
  induction ls generalizing table with
  | nil => exact htable
  | cons l ls ih =>
    rw [forall_mem_cons] at h
    exact ih (forall_mem_cons.2 ⟨h.1, htable⟩) h.2

/-- Writing a line into a later one does not change what the lines expand to. -/
lemma expandLines_write {before between after : List Line} {l line line' : Line}
    (hnames : ∀ m ∈ before ++ l :: between, IsName m.name.toList)
    (hplain : '$' ∉ l.expression.toList)
    (hl : ∀ m ∈ l :: between, countWord m.name l.expression = 0)
    (hdistinct : ∀ m ∈ between, m.name ≠ l.name) (hframe : line'.frame = line.frame)
    (hline : line'.expression = replaceWord l.name l.asOperand line.expression) :
    expandLines (before ++ l :: between ++ line' :: after) =
      expandLines (before ++ l :: between ++ line :: after) := by
  have hkeys : ∀ q ∈ operandsFrom [] (before ++ l :: between), IsName q.1.toList :=
    isName_operandsFrom (by simp) hnames
  -- the later entries of the table do not matter for the line that is written
  have hsame : substitute (operandsFrom [] (before ++ l :: between)) l.expression =
      substitute (operandsFrom [] before) l.expression := by
    refine substitute_congr fun x hx => ?_
    rw [operandsFrom_append]
    refine lookup_operandsFrom fun hmem => ?_
    obtain ⟨m, hm, rfl⟩ := mem_map.1 hmem
    exact (countWord_ne_zero_iff (hnames m (mem_append_right _ hm))).2 hx (hl m hm)
  have hentry : (operandsFrom [] (before ++ l :: between)).lookup l.name =
      some (substitute (operandsFrom [] (before ++ l :: between)) l.asOperand) := by
    rw [Line.substitute_asOperand hkeys, hsame, operandsFrom_append, operandsFrom,
      lookup_operandsFrom fun hmem => ?_, lookup_cons_self]
    · rfl
    · obtain ⟨m, hm, hname⟩ := mem_map.1 hmem
      exact hdistinct m hm hname
  have hexpanded : line'.expanded (operandsFrom [] (before ++ l :: between)) =
      line.expanded (operandsFrom [] (before ++ l :: between)) := by
    rw [Line.expanded, Line.expanded, hframe, hline,
      substitute_replaceWord (hnames l (by simp)) (Line.dollar_not_mem_asOperand hplain) hentry]
  have hname : line'.name = line.name := congrArg (·.name) hframe
  rw [expandLines, expandLines, expandFrom_append (before ++ l :: between),
    expandFrom_append (before ++ l :: between)]
  refine congrArg _ ?_
  rw [expandFrom, expandFrom, hexpanded, hname]

/-- Lines nothing kept refers to may be dropped before expanding. -/
lemma expandFrom_filter (keep : String → Bool)
    (hkeep : ∀ l ∈ ls, keep l.name →
      ∀ x : String, x.toList ∈ pieces l.expression.toList → keep x)
    (htable : ∀ x, keep x → table'.lookup x = table.lookup x) :
    expandFrom table' (ls.filter fun l => keep l.name) = (expandFrom table ls).filter fun l =>
    keep l.name := by
  induction ls generalizing table table' with
  | nil => rfl
  | cons l ls ih =>
    rw [forall_mem_cons] at hkeep
    have hname : keep (l.expanded table).name = keep l.name := rfl
    rw [expandFrom, filter_cons, filter_cons, hname]
    split
    · next hl =>
      have hexpanded : l.expanded table' = l.expanded table := by
        rw [Line.expanded, Line.expanded, substitute_congr fun x hx => htable x (hkeep.1 hl x hx)]
      rw [expandFrom, hexpanded]
      refine congrArg _ (ih hkeep.2 fun x hx => ?_)
      rw [lookup_cons, lookup_cons, htable x hx]
    · next hl =>
      refine ih hkeep.2 fun x hx => ?_
      have hne : (x == l.name) = false := by
        simpa using fun heq : x = l.name => hl (heq ▸ hx)
      rw [htable x hx, lookup_cons, hne]

lemma map_name_expandFrom (ls : List Line) :
    (expandFrom table ls).map (·.name) = ls.map (·.name) := by
  induction ls generalizing table with
  | nil => rfl
  | cons l ls ih =>
    rw [expandFrom, map_cons, map_cons, ih]
    rfl

end KernelFusion
