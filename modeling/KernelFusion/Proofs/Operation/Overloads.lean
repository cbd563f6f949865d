/-
How overloads are written and what is read.

The written form of an overload is a letter for each input, and then there may be an underscore,
with the letter of the output behind it or with nothing behind it (`Overload.Written`). The reader
does not count: behind the first underscore the last character decides, however many there are, so
two overloads that have run together are read as one.
-/
import KernelFusion.Operation.Table
import Mathlib.Data.List.Forall2

namespace KernelFusion

open List

namespace Overload

/-! ### Written forms -/

/-- The written forms of overloads. -/
inductive Written : List Char → Overload → Prop
  | bare : Written [] ⟨[], .void⟩
  | blank : Written ['_'] ⟨[], .void⟩
  | output {c : Char} {t : Scalar} : letter? c = some t → Written ['_', c] ⟨[], t⟩
  | input {c : Char} {t : Scalar} {cs : List Char} {o : Overload} :
    letter? c = some t → Written cs o → Written (c :: cs) ⟨t :: o.inputs, o.output⟩

/-- Is this a character that overloads are written with? -/
def isMark (c : Char) : Bool := c = '_' || (letter? c).isSome

/-- The type a character stands for; an underscore stands for no value. -/
def typeOf (c : Char) : Scalar := (letter? c).getD .void

/-- What comes behind the first underscore. -/
def behind (cs : List Char) : List Char := (cs.dropWhile (· ≠ '_')).tail

/-- What is read: the inputs in front of the first underscore, and behind it the last character. -/
def scan (cs : List Char) : Overload :=
  ⟨(cs.takeWhile (· ≠ '_')).map typeOf, ((behind cs).getLast?.map typeOf).getD .void⟩

/-- Behind the first underscore comes at most one character, and it is not an underscore. -/
def Finished (cs : List Char) : Prop := (behind cs).length ≤ 1 ∧ '_' ∉ behind cs

instance (cs : List Char) : Decidable (Finished cs) := inferInstanceAs (Decidable (_ ∧ _))

section Characters

variable {c : Char} {t : Scalar} {cs : List Char}

lemma ne_underscore (h : letter? c = some t) : c ≠ '_' := by
  rintro rfl
  cases h

lemma isMark_of_letter (h : letter? c = some t) : isMark c := by
  simp [isMark, h]

lemma isMark_cases (h : isMark c) : c = '_' ∨ ∃ t, letter? c = some t := by
  simpa [isMark, Option.isSome_iff_exists] using h

lemma typeOf_of_letter (h : letter? c = some t) : typeOf c = t := by
  rw [typeOf, h, Option.getD_some]

lemma behind_underscore (cs : List Char) : behind ('_' :: cs) = cs := rfl

lemma behind_cons (hc : c ≠ '_') : behind (c :: cs) = behind cs := by
  rw [behind, dropWhile_cons_of_pos (by simpa using hc), behind]

lemma scan_underscore (cs : List Char) :
    scan ('_' :: cs) = ⟨[], (cs.getLast?.map typeOf).getD .void⟩ := rfl

lemma scan_cons (hc : c ≠ '_') :
    scan (c :: cs) = ⟨typeOf c :: (scan cs).inputs, (scan cs).output⟩ := by
  rw [scan, behind_cons hc, takeWhile_cons_of_pos (by simpa using hc)]
  rfl

end Characters

/-! ### Reading -/

lemma parseOutput_cons (t : Scalar) (c : Char) (cs : List Char) :
    parseOutput t (c :: cs) =
      if isMark c = true then parseOutput (typeOf c) cs else .error .overloadLetter := by
  by_cases hc : c = '_'
  · subst hc
    rfl
  · rw [parseOutput, if_neg hc]
    cases h : letter? c with
    | none => simp [isMark, hc, h]
    | some u => rw [if_pos (isMark_of_letter h), typeOf_of_letter h]

lemma parseOutput_eq (t : Scalar) (cs : List Char) : parseOutput t cs =
    if cs.all isMark = true then .ok ((cs.getLast?.map typeOf).getD t)
      else .error .overloadLetter := by
  induction cs generalizing t with
  | nil => rfl
  | cons c cs ih =>
    have hlast : ((c :: cs).getLast?.map typeOf).getD t = (cs.getLast?.map typeOf).getD
      (typeOf c) := by
      rw [getLast?_cons]
      cases cs.getLast? <;> rfl
    rw [parseOutput_cons, ih, hlast, all_cons]
    cases isMark c <;> rfl

lemma parseChars_eq (cs : List Char) :
    parseChars cs = if cs.all isMark = true then .ok (scan cs) else .error .overloadLetter := by
  induction cs with
  | nil => rfl
  | cons c cs ih =>
    by_cases hc : c = '_'
    · subst hc
      rw [parseChars, if_pos rfl, parseOutput_eq, scan_underscore, all_cons]
      cases cs.all isMark <;> rfl
    · rw [parseChars, if_neg hc, scan_cons hc, all_cons]
      cases h : letter? c with
      | none => simp [isMark, hc, h]
      | some t =>
        simp only [ih, isMark_of_letter h, typeOf_of_letter h, Bool.true_and]
        cases cs.all isMark <;> rfl

/-! ### What is read of written forms -/

variable {cs : List Char} {o : Overload}

/-- The scanner finds the overload a text writes. -/
lemma Written.eq_scan (h : Written cs o) : cs.all isMark ∧ Finished cs ∧ o = scan cs := by
  induction h with
  | bare => decide
  | blank => decide
  | @output c t hc =>
    refine ⟨?_, ⟨Nat.le_refl 1, ?_⟩, ?_⟩
    · simp only [all_cons, all_nil, isMark_of_letter hc]
      rfl
    · rw [behind_underscore, mem_singleton]
      exact (ne_underscore hc).symm
    · rw [scan_underscore, getLast?_singleton, Option.map_some, Option.getD_some,
        typeOf_of_letter hc]
  | @input c t cs o hc _ ih =>
    obtain ⟨hmarks, hfinished, rfl⟩ := ih
    have hne := ne_underscore hc
    refine ⟨?_, ?_, ?_⟩
    · rw [all_cons, isMark_of_letter hc, hmarks]
      rfl
    · rwa [Finished, behind_cons hne]
    · rw [scan_cons hne, typeOf_of_letter hc]

/-- What the scanner finds in finished marks, they write. -/
lemma written_scan (hmarks : cs.all isMark) (hfinished : Finished cs) : Written cs (scan cs) := by
  induction cs with
  | nil => exact .bare
  | cons c cs ih =>
    rw [all_cons, Bool.and_eq_true] at hmarks
    rcases isMark_cases hmarks.1 with rfl | ⟨t, hc⟩
    · -- behind the underscore the text ends, or one letter follows
      obtain ⟨hlength, hnot⟩ := hfinished
      rw [behind_underscore] at hlength hnot
      cases cs with
      | nil => exact .blank
      | cons c cs =>
        obtain rfl : cs = [] := eq_nil_of_length_eq_zero
          (Nat.le_zero.1 (Nat.le_of_succ_le_succ hlength))
        rcases isMark_cases (all_eq_true.1 hmarks.2 c mem_cons_self) with rfl | ⟨t, hc⟩
        · exact absurd mem_cons_self hnot
        · rw [scan_underscore, getLast?_singleton, Option.map_some, Option.getD_some,
            typeOf_of_letter hc]
          exact .output hc
    · have hne := ne_underscore hc
      rw [Finished, behind_cons hne] at hfinished
      rw [scan_cons hne, typeOf_of_letter hc]
      exact .input hc (ih hmarks.2 hfinished)

end Overload

namespace Operation

open Overload (Written isMark scan Finished)

variable {op : Operation} {name code : String} {cost : UInt32} {kind : OpKind} {texts : List String}
  {types : List Scalar}

/-! ### Making operations -/

/-- Do all texts consist of characters that overloads are written with? -/
def legible (texts : List String) : Bool := texts.all fun text => text.toList.all isMark

lemma mapM_parse (texts : List String) : texts.mapM Overload.parse =
    if legible texts = true then .ok (texts.map fun text => scan text.toList)
    else .error .overloadLetter := by
  induction texts with
  | nil => rfl
  | cons text texts ih =>
    have hcons : legible (text :: texts) = (text.toList.all isMark && legible texts) := all_cons
    rw [mapM_cons, ih, Overload.parse, Overload.parseChars_eq, hcons]
    cases text.toList.all isMark <;> cases legible texts <;> rfl

lemma make_eq (name code : String) (cost : UInt32) (kind : OpKind) (texts : List String) :
    make name texts cost code kind =
      if legible texts = true then
        .ok ⟨name, if code = "" then name else code, cost, kind, texts.map fun text =>
        scan text.toList⟩
      else .error .overloadLetter := by
  rw [make, mapM_parse]
  cases legible texts <;> rfl

lemma overloads_of_make (h : make name texts cost code kind = .ok op) :
    legible texts ∧ op.overloads = texts.map fun text => scan text.toList := by
  rw [make_eq] at h
  split at h
  · next hlegible =>
    cases h
    exact ⟨hlegible, rfl⟩
  · cases h

lemma exists_make_iff : (∃ op, make name texts cost code kind = .ok op) ↔ legible texts := by
  constructor
  · rintro ⟨op, h⟩
    exact (overloads_of_make h).1
  · exact fun hlegible => ⟨_, (make_eq ..).trans (if_pos hlegible)⟩

/-! ### Choosing an overload -/

lemma accepts_iff : op.accepts types ↔ ∃ o ∈ op.overloads, o.inputs = types := by
  simp [accepts, overload?]

lemma accepts_iff_resultType : op.accepts types ↔ ∃ t, op.resultType types = .ok t := by
  rw [accepts, resultType]
  cases op.overload? types <;> simp

lemma accepts_of_make (h : make name texts cost code kind = .ok op) :
    op.accepts types ↔ ∃ text ∈ texts, (scan text.toList).inputs = types := by
  rw [accepts_iff, (overloads_of_make h).2]
  simp only [mem_map, exists_exists_and_eq_and]

/-! ### Reading as written -/

/-- An operation is made of exactly the lists of written forms. It has the overloads that are
written, and it takes the types that one of them lists, which are those for which it has a
result. -/
structure ReadsAsWritten (name code : String) (cost : UInt32) (kind : OpKind)
    (texts : List String) : Prop where
  made : (∃ op, make name texts cost code kind = .ok op) ↔ ∀ text ∈ texts, ∃ o,
  Written text.toList o
  overloads : ∀ op, make name texts cost code kind = .ok op →
    Forall₂ (fun text o => Written text.toList o) texts op.overloads
  result : ∀ op, make name texts cost code kind = .ok op → ∀ types,
    op.accepts types ↔ ∃ t, op.resultType types = .ok t
  accepts : ∀ op, make name texts cost code kind = .ok op → ∀ types,
    op.accepts types ↔ ∃ text ∈ texts, ∃ o, Written text.toList o ∧ o.inputs = types

lemma readsAsWritten_of_finished (hfinished : legible texts → ∀ text ∈ texts,
    Finished text.toList) :
    ReadsAsWritten name code cost kind texts := by
  have hwritten : legible texts → ∀ text ∈ texts, Written text.toList (scan text.toList) :=
    fun hlegible text htext =>
      Overload.written_scan (all_eq_true.1 hlegible text htext) (hfinished hlegible text htext)
  refine ⟨exists_make_iff.trans ⟨fun hlegible text htext => ?_, fun hall => ?_⟩, fun op h => ?_,
    fun op _ types => accepts_iff_resultType, fun op h types => ?_⟩
  · exact ⟨_, hwritten hlegible text htext⟩
  · refine all_eq_true.2 fun text htext => ?_
    obtain ⟨o, ho⟩ := hall text htext
    exact ho.eq_scan.1
  · obtain ⟨hlegible, hoverloads⟩ := overloads_of_make h
    rw [hoverloads, forall₂_map_right_iff, forall₂_same]
    exact hwritten hlegible
  · rw [accepts_of_make h]
    constructor
    · rintro ⟨text, htext, htypes⟩
      exact ⟨text, htext, _, hwritten (overloads_of_make h).1 text htext, htypes⟩
    · rintro ⟨text, htext, o, ho, htypes⟩
      obtain ⟨-, -, rfl⟩ := ho.eq_scan
      exact ⟨text, htext, htypes⟩

/-- An operation is made of every list of texts that consist of letters and underscores, and of no
other. Its overloads have the letters in front of the first underscore as inputs and the last
character behind it as output, and it takes the types in front of the first underscore of some text.
A list is read as written if and only if one of its texts is refused, or behind the first underscore
of each comes at most one letter. -/
theorem readsAsWritten_iff (name code : String) (cost : UInt32) (kind : OpKind)
    (texts : List String) :
    ((∃ op, make name texts cost code kind = .ok op) ↔ ∀ text ∈ texts, ∀ c ∈ text.toList,
    isMark c = true) ∧
      (∀ op, make name texts cost code kind = .ok op →
        op.overloads = texts.map (fun text => scan text.toList) ∧
        ∀ types, (op.accepts types = true ↔ ∃ t, op.resultType types = .ok t) ∧
          (op.accepts types = true ↔ ∃ text ∈ texts, (scan text.toList).inputs = types)) ∧
      (ReadsAsWritten name code cost kind texts ↔
        (∃ text ∈ texts, ∃ c ∈ text.toList, isMark c = false) ∨ ∀ text ∈ texts,
        Finished text.toList) := by
  have hlegible : legible texts = true ↔ ∀ text ∈ texts, ∀ c ∈ text.toList, isMark c = true := by
    simp [legible]
  refine ⟨exists_make_iff.trans hlegible, fun op h => ⟨(overloads_of_make h).2, fun types =>
    ⟨accepts_iff_resultType, accepts_of_make h⟩⟩, ?_, ?_⟩
  · intro h
    by_cases hall : legible texts = true
    · refine .inr fun text htext => ?_
      obtain ⟨o, ho⟩ := h.made.1 (exists_make_iff.2 hall) text htext
      exact ho.eq_scan.2.1
    · rw [hlegible] at hall
      push Not at hall
      obtain ⟨text, htext, c, hc, hmark⟩ := hall
      exact .inl ⟨text, htext, c, hc, Bool.eq_false_iff.2 hmark⟩
  · rintro (⟨text, htext, c, hc, hmark⟩ | hfinished)
    · refine readsAsWritten_of_finished fun hall => ?_
      rw [hlegible.1 hall text htext c hc] at hmark
      cases hmark
    · exact readsAsWritten_of_finished fun _ => hfinished

/-- Two overloads of a comparison have run together. The text is not a written form, but the
comparison is made, and it is the one of the table, which does not take the integers that the second
one lists. -/
theorem not_readsAsWritten_lte :
    make "lte" ["ff_b", "uu_bii_b", "bb_b"] (Single.ofNat 1) "<=" .operator = find "lte" ∧
      ¬ ReadsAsWritten "lte" "<=" (Single.ofNat 1) .operator ["ff_b", "uu_bii_b", "bb_b"] := by
  have hmake : make "lte" ["ff_b", "uu_bii_b", "bb_b"] (Single.ofNat 1) "<=" .operator =
    find "lte" := by
    rfl
  refine ⟨hmake, fun h => ?_⟩
  obtain ⟨o, ho⟩ := h.made.1 ⟨_, hmake⟩ "uu_bii_b" (by decide)
  exact absurd ho.eq_scan.2.1 (by decide)

end Operation

end KernelFusion
