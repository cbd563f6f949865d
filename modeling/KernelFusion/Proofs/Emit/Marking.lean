/-
Merging marked lines.

To see where the access of a load goes, it is marked: the load writes `MEM` for `mem`. Marks change
neither the size of a text nor the names in it, so the marked lines and the lines as they are merge
in the same way (`Coupled`).
-/
import KernelFusion.Proofs.Emit.Arguments

namespace KernelFusion

open List Text LineIndex Merging

/-! ### Texts with marks -/

/-- Two words that are equal, or an access without and with its mark. -/
def Marks (p q : List Char) : Prop := p = q ∨ p = "mem".toList ∧ q = "MEM".toList

/-- Two texts, the second of which may have marks. -/
def Alike (a b : String) : Prop := Forall₂ Marks (pieces a.toList) (pieces b.toList)

/-- The text with its accesses marked. -/
def markAccess (text : String) : String := replaceWord "mem" "MEM" text

section Alike

variable {name a a' b b' : String}

lemma Alike.refl (a : String) : Alike a a := forall₂_same.2 fun _ _ => .inl rfl

/-- Marking the accesses keeps every other piece of a text. -/
lemma alike_markAccess (text : String) : Alike text (markAccess text) := by
  have hpiece : ∀ p, replacePiece "mem".toList "MEM".toList p
      = if p = "mem".toList then "MEM".toList else p := fun p => rfl
  have hseparator : ∀ c, isWordChar c = false →
      replacePiece "mem".toList "MEM".toList [c] = [c] := fun c _ => by
    rw [hpiece, if_neg (by simp)]
  have hself : ∀ p ∈ pieces text.toList, pieces (replacePiece "mem".toList "MEM".toList p)
      = [replacePiece "mem".toList "MEM".toList p] := by
    intro p hp
    rw [hpiece]
    split
    · decide
    · exact pieces_of_mem hp
  rw [Alike, markAccess, replaceWord_eq_mapPieces (by decide) (by decide),
    pieces_mapPieces hseparator,
    flatMap_congr hself, ← map_eq_flatMap, forall₂_map_right_iff, forall₂_same]
  intro p _
  rw [hpiece, Marks]
  split
  · next hp => exact .inr ⟨hp, rfl⟩
  · exact .inl rfl

lemma Alike.parenthesised (h : Alike a a') : Alike ("(" ++ a ++ ")") ("(" ++ a' ++ ")") := by
  have hcut : ∀ x : String, pieces ("(" ++ x ++ ")").toList
      = pieces "(".toList ++ (pieces x.toList ++ pieces ")".toList) := fun x => by
    rw [pieces_append (.inr (by decide)), pieces_append (.inl (by decide)), append_assoc]
  rw [Alike, hcut, hcut]
  exact rel_append (Alike.refl "(") (rel_append h (Alike.refl ")"))

/-- Marks are no dollar signs. -/
theorem Alike.dollar_not_mem (h : Alike a a') (ha : '$' ∉ a.toList) : '$' ∉ a'.toList := by
  rw [← flatten_pieces a.toList] at ha
  rw [← flatten_pieces a'.toList]
  unfold Alike at h
  generalize pieces a.toList = ps, pieces a'.toList = qs at h ha
  induction h with
  | nil => exact ha
  | cons hpq _ ih =>
    rw [flatten_cons, mem_append, not_or] at ha ⊢
    refine ⟨?_, ih ha.2⟩
    rcases hpq with rfl | ⟨-, rfl⟩
    · exact ha.1
    · decide

lemma Alike.replaceWord (hname : '_' ∈ name.toList) (hplain : '$' ∉ b.toList) (ha : Alike a a')
    (hb : Alike b b') :
    Alike (replaceWord name b a) (replaceWord name b' a') := by
  have hpiece : ∀ {p q}, Marks p q → Forall₂ Marks (pieces (replacePiece name.toList b.toList p))
      (pieces (replacePiece name.toList b'.toList q)) := by
    rintro p q (rfl | ⟨rfl, rfl⟩)
    · rw [replacePiece, replacePiece]
      split
      · exact hb
      · exact forall₂_same.2 fun _ _ => .inl rfl
    · rw [onNames_replacePiece _ hname _ (by decide), onNames_replacePiece _ hname _ (by decide)]
      exact .cons (.inr ⟨rfl, rfl⟩) .nil
  rw [Alike, replaceWord_eq_mapPieces (ne_nil_of_mem hname) hplain,
    replaceWord_eq_mapPieces (ne_nil_of_mem hname) (hb.dollar_not_mem hplain),
    pieces_mapPieces fun c => (onNames_replacePiece _ hname).separator,
    pieces_mapPieces fun c => (onNames_replacePiece _ hname).separator]
  exact rel_flatMap ha fun p q hpq => hpiece hpq

lemma Alike.countWord_eq (hname : '_' ∈ name.toList) (h : Alike a a') :
    countWord name a = countWord name a' := by
  have hne : name ≠ "" := by
    rintro rfl
    cases hname
  rw [countWord, countWord, if_neg hne, if_neg hne]
  unfold Alike at h
  generalize pieces a.toList = ps, pieces a'.toList = qs at h
  induction h with
  | nil => rfl
  | cons hpq _ ih =>
    rw [count_cons, count_cons, ih]
    rcases hpq with rfl | ⟨rfl, rfl⟩
    · rfl
    · have hmem : "mem".toList ≠ name.toList := fun heq => absurd (heq ▸ hname) (by decide)
      have hmark : "MEM".toList ≠ name.toList := fun heq => absurd (heq ▸ hname) (by decide)
      rw [if_neg (by simpa using hmem), if_neg (by simpa using hmark)]

lemma utf8ByteSize_eq_sum (text : String) : text.utf8ByteSize
    = ((pieces text.toList).map fun p => (String.ofList p).utf8ByteSize).sum := by
  have hflatten : ∀ ps : List (List Char), (String.ofList ps.flatten).utf8ByteSize
      = (ps.map fun p => (String.ofList p).utf8ByteSize).sum := by
    intro ps
    induction ps with
    | nil => rfl
    | cons p ps ih =>
      rw [flatten_cons, String.ofList_append, String.utf8ByteSize_append, ih, map_cons, sum_cons]
  rw [← hflatten, flatten_pieces, String.ofList_toList]

lemma Alike.utf8ByteSize_eq (h : Alike a a') : a.utf8ByteSize = a'.utf8ByteSize := by
  rw [utf8ByteSize_eq_sum, utf8ByteSize_eq_sum]
  unfold Alike at h
  generalize pieces a.toList = ps, pieces a'.toList = qs at h
  induction h with
  | nil => rfl
  | cons hpq _ ih =>
    rw [map_cons, map_cons, sum_cons, sum_cons, ih]
    rcases hpq with rfl | ⟨rfl, rfl⟩
    · rfl
    · rfl

end Alike

/-! ### Lines with marks -/

/-- Two lines, the second of which may have marks in its expression. -/
structure Line.Like (l l' : Line) : Prop where
  frame : l.frame = l'.frame
  arguments : l.arguments = l'.arguments
  cost : l.cost = l'.cost
  expression : Alike l.expression l'.expression

namespace Line.Like

variable {l l' target target' : Line}

lemma refl (l : Line) : l.Like l := ⟨rfl, rfl, rfl, Alike.refl _⟩

lemma name (h : l.Like l') : l.name = l'.name := congrArg (·.name) h.frame

lemma parenthesised (h : l.Like l') : l.parenthesised = l'.parenthesised :=
  congrArg (·.parenthesised) h.frame

lemma asOperand (h : l.Like l') : Alike l.asOperand l'.asOperand := by
  rw [Line.asOperand, Line.asOperand, ← h.parenthesised]
  split
  · exact h.expression.parenthesised
  · exact h.expression

lemma isMerged_eq (index : LineIndex) (size : Nat) (htarget : target.Like target') (h : l.Like l')
    (hname : '_' ∈ l.name.toList) : isMerged index size target l =
    isMerged index size target' l' := by
  rw [isMerged, isMerged, htarget.expression.countWord_eq hname, h.expression.utf8ByteSize_eq,
    h.name, h.cost]

end Line.Like

lemma getElem?_of_forall₂ {α β : Type} {R : α → β → Prop} {xs : List α} {ys : List β}
    (h : Forall₂ R xs ys) (i : Nat) : (xs[i]? = none ∧ ys[i]? = none) ∨
      ∃ x y, xs[i]? = some x ∧ ys[i]? = some y ∧ R x y := by
  induction h generalizing i with
  | nil => exact .inl ⟨rfl, rfl⟩
  | cons hxy _ ih =>
    cases i with
    | zero => exact .inr ⟨_, _, rfl, rfl, hxy⟩
    | succ i => exact ih i

lemma forall₂_modify {α β : Type} {R : α → β → Prop} {xs : List α} {ys : List β} {f : α → α}
    {g : β → β} (h : Forall₂ R xs ys) (i : Nat) (hfg : ∀ x y, R x y → R (f x) (g y)) :
    Forall₂ R (xs.modify i f) (ys.modify i g) := by
  induction h generalizing i with
  | nil => cases i <;> exact .nil
  | cons hxy hrest ih =>
    cases i with
    | zero => exact .cons (hfg _ _ hxy) hrest
    | succ i => exact .cons hxy (ih i)

lemma like_foldl_takeOver (index : LineIndex) (i : Nat) (args : List String) {xs ys : List Line}
    (h : Forall₂ Line.Like xs ys) :
    Forall₂ Line.Like (args.foldl (takeOver index i) xs) (args.foldl (takeOver index i) ys) := by
  induction args generalizing xs ys with
  | nil => exact h
  | cons arg args ih =>
    refine ih ?_
    have hcost : (((index.place? arg).bind (xs[·]?)).map (·.cost)).getD .zero
        = (((index.place? arg).bind (ys[·]?)).map (·.cost)).getD .zero := by
      cases index.place? arg with
      | none => rfl
      | some b =>
        rcases getElem?_of_forall₂ h b with ⟨hx, hy⟩ | ⟨x, y, hx, hy, hxy⟩
        · simp [hx, hy]
        · simp [hx, hy, hxy.cost]
    rw [takeOver, takeOver, hcost]
    exact forall₂_modify h i fun x y hxy =>
      ⟨hxy.frame, by rw [hxy.arguments], by rw [hxy.cost], hxy.expression⟩

/-! ### Both runs -/

/-- The lines with the access of the line at a place marked. -/
def marked (lines : List Line) (j : Nat) : List Line :=
  lines.modify j fun l => { l with expression := markAccess l.expression }

lemma LineIndex.ofLines_congr {xs ys : List Line}
    (h : xs.map (fun l => (l.name, l.arguments)) = ys.map fun l => (l.name, l.arguments)) :
    ofLines xs = ofLines ys := by
  have hlast : ∀ (ls : List Line) (name : String), lastPlace? ls name
      = ((ls.map fun l => (l.name, l.arguments)).zipIdx.reverse.find? fun q =>
      q.1.1 = name).map (·.2) := by
    intro ls name
    rw [lastPlace?, zipIdx_map, ← map_reverse, find?_map, Option.map_map]
    rfl
  have hplace : lastPlace? xs = lastPlace? ys := funext fun name => by rw [hlast, hlast, h]
  have harguments : xs.map (·.arguments) = ys.map (·.arguments) := by
    simpa [Function.comp_def] using congrArg (map Prod.snd) h
  have hinputs : ∀ b : Option Nat,
      (b.bind (xs[·]?)).map (·.arguments) = (b.bind (ys[·]?)).map (·.arguments) := by
    rintro (_ | b)
    · rfl
    · simpa using congrArg (fun q => q[b]?) harguments
  have husers : xs.flatMap (·.arguments) = ys.flatMap (·.arguments) := by
    rw [flatMap_def, flatMap_def, harguments]
  simp only [ofLines, hplace, hinputs, husers]

section Coupled

variable {lines : List Line} {i j size : Nat} {s s' : Merging} {arg : String}

/-- What the line at `i` takes stands in front of it, or is bare and not the line at `j`. -/
def Awaited (lines : List Line) (j i : Nat) (arg : String) : Prop :=
  ¬ IsBare lines i ∧ ∀ b, (ofLines lines).place? arg = some b → b < i ∨ b ≠ j ∧ IsBare lines b

/-- All lines take what stands in front of them, or what is bare and not the line at `j`. -/
def Sequential (lines : List Line) (j : Nat) : Prop :=
  ∀ i line, lines[i]? = some line → ∀ arg ∈ line.arguments, Awaited lines j i arg

/-- The states of both runs before the line at `i` is visited. -/
structure Coupled (lines : List Line) (j i : Nat) (s s' : Merging) : Prop where
  pending : s.pending = s'.pending
  dropped : s.dropped = s'.dropped
  like : Forall₂ Line.Like s.lines s'.lines
  frames : s.lines.map Line.frame = lines.map Line.frame
  fresh : ∀ b, i ≤ b → ∀ l, s.lines[b]? = some l → ∃ l₀, lines[b]? = some l₀ ∧
  l.arguments = l₀.arguments
  differ : ∀ b l l', s.lines[b]? = some l → s'.lines[b]? = some l' → l.expression ≠ l'.expression →
    b = j ∨ j < b ∧ j ∈ s.dropped ∧ ¬ IsBare lines b
  plain : ∀ l ∈ s.lines, '$' ∉ l.expression.toList

lemma coupled_marked (j : Nat) (hplain : ∀ l ∈ lines, '$' ∉ l.expression.toList) :
    Coupled lines j 0 { lines } { lines := marked lines j } := by
  refine ⟨rfl, rfl, ?_, rfl, fun b _ l hl => ⟨l, hl, rfl⟩, fun b l l' hl hl' hne => ?_, hplain⟩
  · refine forall₂_iff_get.2 ⟨by simp [marked], fun b hb hb' => ?_⟩
    have hget : (marked lines j).get ⟨b, hb'⟩ = if j = b
        then { lines.get ⟨b, hb⟩ with expression := markAccess (lines.get ⟨b, hb⟩).expression }
        else lines.get ⟨b, hb⟩ := by
      simp only [marked, get_eq_getElem]
      rw [getElem_modify]
    rw [hget]
    split
    · exact ⟨rfl, rfl, rfl, alike_markAccess _⟩
    · exact Line.Like.refl _
  · refine Or.inl (Decidable.byContradiction fun hbj => hne ?_)
    have hsame : (marked lines j)[b]? = lines[b]? := getElem?_modify_ne _ _ (Ne.symm hbj)
    rw [Option.mem_unique hl (hsame.symm.trans hl')]

namespace Coupled

/-- A step on both sides does nothing, or writes the same line into the same place. -/
lemma step_cases (hnames : OfValues (lines.map (·.name))) (h : Coupled lines j i s s')
    (t size : Nat) (arg : String) :
    (s.step (ofLines lines) t size arg = s ∧ s'.step (ofLines lines) t size arg = s') ∨
    ∃ b line line' other other' cost cost',
      Writes (ofLines lines) t size arg line other b cost s
        (s.step (ofLines lines) t size arg) ∧
      Writes (ofLines lines) t size arg line' other' b cost' s'
        (s'.step (ofLines lines) t size arg) ∧
      line.Like line' ∧ other.Like other' ∧
      Forall₂ Line.Like (s.step (ofLines lines) t size arg).lines
        (s'.step (ofLines lines) t size arg).lines := by
  rcases getElem?_of_forall₂ h.like t with ⟨ht, ht'⟩ | ⟨line, line', ht, ht', hline⟩
  · exact .inl (by simp only [step, ht, ht', and_self])
  cases hplace : (ofLines lines).place? arg with
  | none => exact .inl (by simp only [step, ht, ht', hplace, and_self])
  | some b =>
    rcases getElem?_of_forall₂ h.like b with ⟨hb, hb'⟩ | ⟨other, other', hb, hb', hother⟩
    · exact .inl (by simp only [step, ht, ht', hplace, hb, hb', and_self])
    obtain ⟨other₀, hother₀, hframe⟩ := exists_of_map_frame h.frames hb
    have hname : '_' ∈ other.name.toList := by
      obtain ⟨x, y, hxy⟩ := hnames other₀.name (mem_map_of_mem (mem_of_getElem? hother₀))
      have hsame : other.name = other₀.name := congrArg (·.name) hframe
      rw [hsame, hxy]
      exact underscore_mem_variableName x y
    have harg : arg = other.name := by
      obtain ⟨named, hnamed, hname⟩ := name_of_place? hplace
      cases hother₀.symm.trans hnamed
      exact hname.symm.trans (congrArg (·.name) hframe).symm
    have hmerged := hline.isMerged_eq (ofLines lines) size hother hname
    cases hm : isMerged (ofLines lines) size line other with
    | false =>
      rw [hm] at hmerged
      exact .inl ⟨by simp [step, ht, hplace, hb, hm],
        by simp [step, ht', hplace, hb', ← hmerged]⟩
    | true =>
      rw [hm] at hmerged
      have hoperand := Line.dollar_not_mem_asOperand (h.plain other (mem_of_getElem? hb))
      obtain ⟨cost, hw⟩ := exists_writes ht hplace hb hm
      obtain ⟨cost', hw'⟩ := exists_writes ht' hplace hb' hmerged.symm
      refine .inr ⟨b, line, line', other, other', cost, cost', hw, hw', hline, hother, ?_⟩
      simp only [step, ht, ht', hplace, hb, hb', hm, ← hmerged, if_true]
      refine like_foldl_takeOver _ _ _ (forall₂_modify h.like t fun l l' hl => ?_)
      exact ⟨hl.frame, hl.arguments, hl.cost,
        hline.expression.replaceWord (harg ▸ hname) hoperand hother.asOperand⟩

lemma awaited_takenOver (hseq : Sequential lines j) (harg : Awaited lines j i arg) {b : Nat}
    (hplace : (ofLines lines).place? arg = some b) {x : String}
    (hx : x ∈ (ofLines lines).takenOver arg) : Awaited lines j i x := by
  have hx := (mem_filter.1 hx).1
  obtain ⟨line, hline, -⟩ := name_of_place? hplace
  obtain ⟨hbare, hfront⟩ := hseq b line hline x (inputs_eq hplace hline ▸ hx)
  have hlt : b < i := (harg.2 b hplace).resolve_right fun hb => hbare hb.2
  exact ⟨harg.1, fun c hc => (hfront c hc).imp_left fun hlt' => Nat.lt_trans hlt' hlt⟩

/-- Coupled states stay coupled over a step. -/
lemma step (hnames : OfValues (lines.map (·.name))) (hseq : Sequential lines j) (size : Nat)
    (h : Coupled lines j (i + 1) s s') (harg : Awaited lines j i arg) :
    Coupled lines j (i + 1) (s.step (ofLines lines) i size arg)
        (s'.step (ofLines lines) i size arg) ∧
      ∀ x ∈ (s.step (ofLines lines) i size arg).pending, x ∈ s.pending ∨ Awaited lines j i x := by
  rcases h.step_cases hnames i size arg with
    ⟨hs, hs'⟩ | ⟨b, line, line', other, other', cost, cost', hw, hw', hline, hother, hlike⟩
  · rw [hs, hs']
    exact ⟨h, fun x hx => Or.inl hx⟩
  have hi := (List.getElem?_eq_some_iff.1 hw.target).1
  have hi' := (List.getElem?_eq_some_iff.1 hw'.target).1
  have hgrow : ∀ {c}, c = j ∨ j < c ∧ j ∈ s.dropped ∧ ¬ IsBare lines c →
      c = j ∨ j < c ∧ j ∈ b :: s.dropped ∧ ¬ IsBare lines c :=
    Or.imp_right fun hc => ⟨hc.1, mem_cons_of_mem _ hc.2.1, hc.2.2⟩
  refine ⟨⟨by rw [hw.pending, hw'.pending, h.pending], by rw [hw.dropped, hw'.dropped, h.dropped],
    hlike, ?_,
    fun c hc l hl => ?_, fun c l l' hl hl' hne => ?_, fun l hl => ?_⟩, fun x hx => ?_⟩
  · rw [hw.lines, map_frame_set hw.target (Line.frame_written ..), h.frames]
  · rw [hw.lines, getElem?_set_ne (by omega)] at hl
    exact h.fresh c hc l hl
  · rw [hw.lines] at hl
    rw [hw'.lines] at hl'
    rw [hw.dropped]
    by_cases hci : i = c
    · subst hci
      cases (getElem?_set_self hi).symm.trans hl
      cases (getElem?_set_self hi').symm.trans hl'
      by_cases hsame : line.expression = line'.expression
      · -- then the line that is written differs
        have hdiffer : other.expression ≠ other'.expression := by
          intro heq
          refine hne ?_
          have hoperand : other.asOperand = other'.asOperand := by
            rw [Line.asOperand, Line.asOperand, heq, hother.parenthesised]
          show replaceWord arg other.asOperand line.expression
            = replaceWord arg other'.asOperand line'.expression
          rw [hsame, hoperand]
        rcases h.differ b other other' hw.source hw'.source hdiffer with rfl | ⟨hjb, hj, hbare⟩
        · have hlt := (harg.2 b hw.place).resolve_right fun hb => hb.1 rfl
          exact .inr ⟨hlt, mem_cons_self, harg.1⟩
        · have hlt := (harg.2 b hw.place).resolve_right fun hb => hbare hb.2
          exact .inr ⟨Nat.lt_trans hjb hlt, mem_cons_of_mem _ hj, harg.1⟩
      · exact hgrow (h.differ i line line' hw.target hw'.target hsame)
    · rw [getElem?_set_ne hci] at hl hl'
      exact hgrow (h.differ c l l' hl hl' hne)
  · rw [hw.lines] at hl
    rcases mem_or_eq_of_mem_set hl with hl | rfl
    · exact h.plain l hl
    · exact Line.dollar_not_mem_written (h.plain line (mem_of_getElem? hw.target))
        (h.plain other (mem_of_getElem? hw.source))
  · rw [hw.pending, mem_append] at hx
    exact hx.imp_right fun hx => awaited_takenOver hseq harg hw.place hx

lemma foldl (hnames : OfValues (lines.map (·.name))) (hseq : Sequential lines j) (size : Nat)
    {todo : List String} (h : Coupled lines j (i + 1) s s') (htodo : ∀ x ∈ todo,
    Awaited lines j i x)
    (hpending : ∀ x ∈ s.pending, Awaited lines j i x) :
    Coupled lines j (i + 1) (todo.foldl (Merging.step (ofLines lines) i size) s)
        (todo.foldl (Merging.step (ofLines lines) i size) s') ∧
      ∀ x ∈ (todo.foldl (Merging.step (ofLines lines) i size) s).pending, Awaited lines j i x := by
  induction todo generalizing s s' with
  | nil => exact ⟨h, hpending⟩
  | cons arg todo ih =>
    obtain ⟨hstep, hnext⟩ := h.step hnames hseq size (htodo arg mem_cons_self)
    exact ih hstep (fun x hx => htodo x (mem_cons_of_mem _ hx))
      fun x hx => (hnext x hx).elim (hpending x) id

lemma withPending (h : Coupled lines j i s s') (args : List String) :
    Coupled lines j i { s with pending := args } { s' with pending := args } :=
  ⟨rfl, h.dropped, h.like, h.frames, h.fresh, h.differ, h.plain⟩

lemma rounds (hnames : OfValues (lines.map (·.name))) (hseq : Sequential lines j) (n : Nat)
    (h : Coupled lines j (i + 1) s s') (hpending : ∀ x ∈ s.pending, Awaited lines j i x) :
    Coupled lines j (i + 1) (Merging.rounds (ofLines lines) i size n s)
      (Merging.rounds (ofLines lines) i size n s') := by
  induction n generalizing s s' with
  | zero => exact h
  | succ n ih =>
    rw [Merging.rounds, Merging.rounds, ← h.pending]
    split
    · exact h
    · obtain ⟨hround, hnext⟩ := (h.withPending []).foldl hnames hseq size hpending
        (by simp)
      refine ih ?_ hnext
      rw [Merging.round, Merging.round, ← h.pending]
      exact hround

lemma visit (hnames : OfValues (lines.map (·.name))) (hseq : Sequential lines j)
    (h : Coupled lines j i s s') : Coupled lines j (i + 1) (s.visit (ofLines lines) i)
      (s'.visit (ofLines lines) i) := by
  have hnext : Coupled lines j (i + 1) s s' :=
    ⟨h.pending, h.dropped, h.like, h.frames, fun b hb => h.fresh b (Nat.le_of_succ_le hb), h.differ,
      h.plain⟩
  rcases getElem?_of_forall₂ h.like i with ⟨hi, hi'⟩ | ⟨line, line', hi, hi', hline⟩
  · rw [Merging.visit, Merging.visit, hi, hi']
    exact hnext
  · have hrounds : maxRounds s'.lines = maxRounds s.lines := by
      rw [maxRounds, maxRounds, h.like.length_eq]
    simp only [Merging.visit, hi, hi']
    rw [← hline.arguments, ← hline.expression.utf8ByteSize_eq, hrounds]
    refine (hnext.withPending _).rounds hnames hseq _ fun x hx => ?_
    obtain ⟨line₀, hline₀, harguments⟩ := h.fresh i (Nat.le_refl i) line hi
    have hx' : x ∈ line.arguments := hx
    exact hseq i line₀ hline₀ x (harguments ▸ hx')

end Coupled

/-- Marking one access changes nothing the merging decides. -/
lemma coupled_mergeAll (hnames : OfValues (lines.map (·.name))) (hseq : Sequential lines j)
    (hplain : ∀ l ∈ lines, '$' ∉ l.expression.toList) :
    Coupled lines j lines.length (mergeAll lines) (mergeAll (marked lines j)) := by
  have hindex : ofLines (marked lines j) = ofLines lines := by
    refine ofLines_congr (ext_getElem? fun b => ?_)
    rw [marked, getElem?_map, getElem?_map, getElem?_modify]
    split <;> cases lines[b]? <;> rfl
  have hlength : (marked lines j).length = lines.length := length_modify _ _ _
  have hupTo : ∀ n, Coupled lines j n
      ((range n).foldl (visit (ofLines lines)) { lines })
      ((range n).foldl (visit (ofLines lines)) { lines := marked lines j }) := by
    intro n
    induction n with
    | zero => exact coupled_marked j hplain
    | succ n ih =>
      rw [range_succ, foldl_append, foldl_append]
      exact ih.visit hnames hseq
  rw [mergeAll, mergeAll, hindex, hlength]
  exact hupTo lines.length

end Coupled

end KernelFusion
