/-
Braces and dollar signs in a text.

Indentation adds no sign, and a replaced word brings the signs of its replacement only.
-/
import KernelFusion.Proofs.Text.Words
import KernelFusion.Text.Lines

namespace KernelFusion.Text

open List

/-- How many braces are open behind a text if some are open in front of it. There is no answer if
one is closed that was not opened. -/
def openBraces : Nat → List Char → Option Nat
  | d, [] => some d
  | d, c :: cs =>
    if c = '\x7b' then openBraces (d + 1) cs
    else if c = '\x7d' then
      if d = 0 then none else openBraces (d - 1) cs
    else openBraces d cs

/-- Every brace that is opened is closed, and no other. -/
def Balanced (text : String) : Prop := openBraces 0 text.toList = some 0

/-- Is the character a brace or a dollar sign? -/
def isSign (c : Char) : Bool := c = '\x7b' || c = '\x7d' || c = '$'

/-- The braces and dollar signs of a text. -/
def signs (text : String) : List Char := text.toList.filter isSign

variable {a b text indent name new : String} {c : Char} {cs : List Char} {d n : Nat}

@[simp]
lemma signs_append (a b : String) : signs (a ++ b) = signs a ++ signs b := by simp [signs]

lemma signs_join (texts : List String) : signs (String.join texts) = texts.flatMap signs := by
  induction texts with
  | nil => rfl
  | cons t texts ih => rw [String.join_cons, signs_append, ih, flatMap_cons]

lemma signs_eq_nil_iff : signs text = [] ↔ ∀ c ∈ text.toList, isSign c = false := by
  simp [signs, filter_eq_nil_iff]

lemma signs_eq_nil_of_subset (h : ∀ c ∈ new.toList, c ∈ a.toList ∨ c ∈ b.toList) (ha : signs a = [])
    (hb : signs b = []) : signs new = [] := by
  rw [signs_eq_nil_iff] at ha hb ⊢
  exact fun c hc => (h c hc).elim (ha c) (hb c)

lemma openBraces_filter (d : Nat) (cs : List Char) : openBraces d (cs.filter isSign) =
    openBraces d cs := by
  induction cs generalizing d with
  | nil => rfl
  | cons c cs ih =>
    cases hc : isSign c with
    | true => rw [filter_cons_of_pos hc, openBraces, openBraces, ih, ih, ih]
    | false =>
      have hnot : (c ≠ '\x7b' ∧ c ≠ '\x7d') ∧ c ≠ '$' := by simpa [isSign] using hc
      rw [filter_cons_of_neg (by simp [hc]), ih, openBraces, if_neg hnot.1.1, if_neg hnot.1.2]

lemma openBraces_replicate (d n : Nat) (cs : List Char) :
    openBraces d (replicate n '\x7b' ++ cs) = openBraces (d + n) cs := by
  induction n generalizing d with
  | zero => rfl
  | succ n ih => rw [replicate_succ, cons_append, openBraces, if_pos rfl, ih, Nat.add_right_comm,
      Nat.add_assoc]

/-! ### Lines -/

lemma flatten_splitLines (cs : List Char) : (splitLines cs).flatten = cs.filter (· ≠ '\n') := by
  induction cs with
  | nil => rfl
  | cons c cs ih =>
    rw [splitLines]
    split
    · next hc => simp [hc, ih]
    · next hc =>
      rw [filter_cons_of_pos (by simpa using hc), ← ih]
      split
      · next hnil => simp [hnil]
      · next l ls hcons => simp [hcons]

lemma signs_indentLines (h : signs indent = []) : signs (indentLines text indent) =
    signs text := by
  have hline : ∀ l : List Char, signs (indent ++ String.ofList l ++ "\n") = l.filter isSign := by
    intro l
    have hend : signs "\n" = [] := rfl
    rw [signs_append, signs_append, h, hend, append_nil, nil_append, signs, String.toList_ofList]
  calc signs (indentLines text indent)
      = (splitLines text.toList).flatMap fun l => l.filter isSign := by
        rw [indentLines, signs_join, flatMap_map]
        exact flatMap_congr fun l _ => hline l
    _ = (splitLines text.toList).flatten.filter isSign := by rw [filter_flatten, flatMap_def]
    _ = signs text := by
        rw [flatten_splitLines, filter_filter, signs]
        refine filter_congr fun c _ => ?_
        by_cases hc : c = '\n'
        · subst hc
          decide
        · simp [hc]

end KernelFusion.Text
