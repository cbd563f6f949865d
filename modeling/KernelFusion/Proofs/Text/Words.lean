/-
The cut of a text into words.

A text is words and separators in turn, and what holds of every text can be shown along them
(`word_induction`). Replacing a name, which is a word itself, acts on each piece alone
(`mapPieces`), and the pieces of the new text are those of the replacements (`pieces_mapPieces`).
-/
import KernelFusion.Text.Words
import Mathlib.Data.List.Basic
import Mathlib.Data.List.Flatten
import Mathlib.Data.List.TakeWhile

namespace KernelFusion.Text

open List

-- what holds of the characters of a text is decided along it, not over the whole character set
instance (priority := high) decidableForallMemList {p : Char → Prop} [DecidablePred p]
    (cs : List Char) :
    Decidable (∀ c ∈ cs, p c) :=
  decidableBAll p cs

instance (priority := high) decidableForallMemOption {p : Char → Prop} [DecidablePred p]
    (o : Option Char) :
    Decidable (∀ c ∈ o, p c) :=
  Option.decidableForallMem o

/-- Is a text a single word? -/
def IsName (w : List Char) : Prop := w ≠ [] ∧ ∀ c ∈ w, isWordChar c

variable {w cs p : List Char} {c : Char}

lemma IsName.ne_nil (h : IsName w) : w ≠ [] := h.1

lemma IsName.dollar_not_mem (h : IsName w) : '$' ∉ w := fun hmem =>
  absurd (h.2 '$' hmem) (by decide)

/-! ### Pieces -/

lemma pieces_cons_separator (hc : isWordChar c = false) (cs : List Char) :
    pieces (c :: cs) = [c] :: pieces cs := by
  rw [pieces]
  split
  · next d w rest h => rw [hc, h]; rfl
  · rfl

lemma pieces_append_separator (xs : List Char) (hc : isWordChar c = false)
    (ys : List Char) : pieces (xs ++ c :: ys) = pieces xs ++ [c] :: pieces ys := by
  induction xs with
  | nil => exact pieces_cons_separator hc ys
  | cons x xs ih =>
    rw [cons_append, pieces, ih]
    cases hp : pieces xs with
    | nil => simp [pieces, hp, hc]
    | cons p rest =>
      cases p with
      | nil => exact absurd rfl (ne_nil_of_mem_pieces (hp ▸ mem_cons_self))
      | cons d w =>
        rw [pieces, hp]
        simp only [cons_append]
        split <;> rfl

lemma IsName.pieces_eq (h : IsName w) : pieces w = [w] := by
  obtain ⟨hne, hall⟩ := h
  induction w with
  | nil => exact absurd rfl hne
  | cons c w ih =>
    cases w with
    | nil => rfl
    | cons d w =>
      have hw := ih (by simp) fun x hx => hall x (mem_cons_of_mem _ hx)
      have hc := hall c mem_cons_self
      have hd := hall d (mem_cons_of_mem _ mem_cons_self)
      rw [pieces, hw]
      simp [hc, hd]

/-- The pieces of a run of word characters in front of a separator. -/
def wordOf (w : List Char) : List (List Char) := if w = [] then [] else [w]

lemma pieces_of_word (hw : ∀ c ∈ w, isWordChar c) :
    pieces w = wordOf w := by
  unfold wordOf
  split
  · next h => subst h; rfl
  · next h => exact IsName.pieces_eq ⟨h, hw⟩

/-- Induction over a text: a word, then a separator and the rest. -/
lemma word_induction {P : List Char → Prop} (word : ∀ w, (∀ c ∈ w, isWordChar c) → P w)
    (separator : ∀ w c cs, (∀ c ∈ w, isWordChar c) → isWordChar c = false → P cs →
      P (w ++ c :: cs)) : ∀ cs, P cs := by
  intro cs
  induction hn : cs.length using Nat.strongRecOn generalizing cs with
  | _ n ih =>
    have hcut : cs.takeWhile isWordChar ++ cs.dropWhile isWordChar = cs :=
      takeWhile_append_dropWhile
    have hw : ∀ c ∈ cs.takeWhile isWordChar, isWordChar c :=
      fun c hc => mem_takeWhile_imp hc
    cases hd : cs.dropWhile isWordChar with
    | nil =>
      rw [hd, append_nil] at hcut
      exact hcut ▸ word _ hw
    | cons c rest =>
      rw [hd] at hcut
      have hc : isWordChar c = false := by
        have hne : cs.dropWhile isWordChar ≠ [] := by simp [hd]
        simpa [hd] using head_dropWhile_not isWordChar hne
      have hlen : rest.length < n := by
        have := congrArg length hcut
        simp only [length_append, length_cons] at this
        omega
      exact hcut ▸ separator _ c rest hw hc (ih _ hlen rest rfl)

/-- A piece is a name or one separator. -/
lemma isName_or_separator (h : p ∈ pieces cs) :
    IsName p ∨ ∃ c, isWordChar c = false ∧ p = [c] := by
  have onWord : ∀ w : List Char, (∀ c ∈ w, isWordChar c) → ∀ p ∈ pieces w, IsName p := by
    intro w hw p hp
    rw [pieces_of_word hw, wordOf] at hp
    split at hp
    · cases hp
    · next hnil =>
      rw [mem_singleton.1 hp]
      exact ⟨hnil, hw⟩
  induction cs using word_induction with
  | word w hw => exact .inl (onWord w hw p h)
  | separator w c cs hw hc ih =>
    rw [pieces_append_separator w hc, mem_append, mem_cons] at h
    rcases h with h | rfl | h
    · exact .inl (onWord w hw p h)
    · exact .inr ⟨c, hc, rfl⟩
    · exact ih h

lemma pieces_of_mem (h : p ∈ pieces cs) : pieces p = [p] := by
  rcases isName_or_separator h with hname | ⟨c, hc, rfl⟩
  · exact hname.pieces_eq
  · exact pieces_cons_separator hc []

/-- Between the two texts no word goes on. -/
def Breaks (a b : String) : Prop :=
  (∀ c ∈ a.toList.getLast?, isWordChar c = false) ∨ ∀ c ∈ b.toList.head?, isWordChar c = false

lemma pieces_append {a b : String} (h : Breaks a b) :
    pieces (a ++ b).toList = pieces a.toList ++ pieces b.toList := by
  rw [String.toList_append]
  rcases h with h | h
  · rcases eq_nil_or_concat' a.toList with hnil | ⟨xs, c, hxs⟩
    · rw [hnil]
      rfl
    · have hc : isWordChar c = false := h c (by rw [hxs]; simp)
      rw [hxs, append_assoc, singleton_append, pieces_append_separator xs hc,
        pieces_append_separator xs hc, append_assoc]
      rfl
  · cases hb : b.toList with
    | nil => simp [pieces]
    | cons c ys =>
      have hc : isWordChar c = false := h c (by rw [hb]; rfl)
      rw [pieces_append_separator _ hc, pieces_cons_separator hc]

/-! ### Texts that are changed piece by piece -/

/-- The text with every piece changed. -/
def mapPieces (f : List Char → List Char) (text : String) : String :=
  String.ofList ((pieces text.toList).flatMap f)

/-- Only words with an underscore are changed. -/
def OnNames (f : List Char → List Char) : Prop := ∀ p, '_' ∉ p → f p = p

section MapPieces

variable {f : List Char → List Char} {a b text : String} {name : List Char}

lemma mapPieces_append (h : Breaks a b) : mapPieces f (a ++ b) = mapPieces f a ++
    mapPieces f b := by
  rw [mapPieces, pieces_append h, flatMap_append]
  simp [mapPieces]

lemma pieces_mapPieces (hf : ∀ c, isWordChar c = false → f [c] = [c]) (text : String) :
    pieces (mapPieces f text).toList = (pieces text.toList).flatMap fun p => pieces (f p) := by
  have onWord : ∀ w : List Char, (∀ c ∈ w, isWordChar c) →
      pieces ((pieces w).flatMap f) = (pieces w).flatMap fun p => pieces (f p) := by
    intro w hw
    rw [pieces_of_word hw, wordOf]
    split <;> simp [pieces]
  rw [mapPieces, String.toList_ofList]
  induction text.toList using word_induction with
  | word w hw => exact onWord w hw
  | separator w c cs hw hc ih =>
    rw [pieces_append_separator w hc, flatMap_append, flatMap_cons, hf c hc,
      singleton_append, pieces_append_separator _ hc, onWord w hw, ih, flatMap_append,
      flatMap_cons, hf c hc, pieces_cons_separator hc]
    rfl

namespace OnNames

variable (h : OnNames f)

include h

lemma separator (hc : isWordChar c = false) : f [c] = [c] := by
  refine h [c] fun hmem => ?_
  rw [← mem_singleton.1 hmem] at hc
  revert hc
  decide

lemma mapPieces_eq_self (htext : '_' ∉ text.toList) : mapPieces f text = text := by
  have hpiece : ∀ p ∈ pieces text.toList, f p = p := fun p hp => h p fun hmem => htext <| by
    rw [← flatten_pieces text.toList]
    exact mem_flatten_of_mem hp hmem
  apply String.toList_inj.1
  rw [mapPieces, String.toList_ofList, flatMap_congr hpiece]
  simpa using flatten_pieces text.toList

end OnNames

/-- A piece of a text after one word has been replaced. -/
def replacePiece (name new p : List Char) : List Char := if p = name then new else p

/-- A format without dollar signs stands for itself. -/
theorem formatted_eq_self {before found after new : List Char} (h : '$' ∉ new) :
    formatted before found after .text new = new := by
  induction new with
  | nil => rfl
  | cons c new ih =>
    obtain ⟨hc, hnew⟩ := not_or.1 (mt mem_cons.2 h)
    rw [formatted, if_neg (Ne.symm hc), ih hnew]

lemma replacePieces_eq {new before : List Char} {ps : List (List Char)} (hname : name ≠ [])
    (hnew : '$' ∉ new) : replacePieces name new before ps = ps.flatMap (replacePiece name new) := by
  induction ps generalizing before with
  | nil => rfl
  | cons p ps ih =>
    rw [replacePieces, flatMap_cons, replacePiece, formatted_eq_self hnew, ih, ih]
    simp only [hname, decide_false, Bool.false_and, Bool.false_eq_true, if_false]
    split <;> rfl

/-- What replaces a name is written as it is if it has no dollar sign. -/
theorem replaceWord_eq_mapPieces {name new : String} (hname : name.toList ≠ [])
    (hnew : '$' ∉ new.toList) (text : String) :
    replaceWord name new text = mapPieces (replacePiece name.toList new.toList) text := by
  rw [replaceWord, replacePieces_eq hname hnew, mapPieces]

lemma onNames_replacePiece (new : List Char) (hname : '_' ∈ name) :
    OnNames (replacePiece name new) := by
  intro p hp
  have hne : p ≠ name := fun heq => hp (heq ▸ hname)
  rw [replacePiece, if_neg hne]

end MapPieces

/-! ### Characters -/

section Characters

variable {text name new : String}

lemma mem_mapPieces {f : List Char → List Char} (h : c ∈ (mapPieces f text).toList) :
    ∃ p ∈ pieces text.toList, c ∈ f p := by
  rw [mapPieces, String.toList_ofList] at h
  exact mem_flatMap.1 h

lemma mem_of_mem_piece {p : List Char} (hp : p ∈ pieces text.toList) (hc : c ∈ p) :
    c ∈ text.toList := by
  rw [← flatten_pieces text.toList]
  exact mem_flatten_of_mem hp hc

lemma mem_formatted {before found after format : List Char}
    (h : c ∈ formatted before found after .text format) :
    c ∈ before ∨ c ∈ found ∨ c ∈ after ∨ c ∈ format := by
  -- behind a dollar sign, one more may be written
  suffices hall : ∀ state, c ∈ formatted before found after state format →
      c ∈ before ∨ c ∈ found ∨ c ∈ after ∨ c ∈ format ∨ state = .dollar ∧ c = '$' by
    have hmem := hall .text h
    simpa using hmem
  clear h
  intro state h
  induction format generalizing state with
  | nil =>
    cases state with
    | text => cases h
    | dollar => exact .inr (.inr (.inr (.inr ⟨rfl, mem_singleton.1 h⟩)))
    | number zero =>
      rw [formatted] at h
      split at h
      · exact .inr (.inl h)
      · cases h
  | cons d rest ih => cases state <;> grind [formatted]

lemma mem_replacePieces {name format before : List Char} {ps : List (List Char)}
    (h : c ∈ replacePieces name format before ps) : c ∈ before ∨ c ∈ ps.flatten ∨ c ∈ format := by
  induction ps generalizing before with
  | nil => cases h
  | cons p ps ih =>
    rw [flatten_cons, mem_append]
    rw [replacePieces] at h
    split at h
    · rcases mem_append.1 h with h | h
      · have := mem_formatted h
        rw [mem_reverse] at this
        tauto
      · have := ih h
        simp only [not_mem_nil] at this
        tauto
    split at h
    · simp only [mem_append] at h
      rcases h with ((h | h) | h) | h
      · have := mem_formatted h
        simp only [mem_reverse, mem_append, not_mem_nil] at this
        tauto
      · exact .inr (.inl (.inl h))
      · have := mem_formatted h
        simp only [not_mem_nil] at this
        tauto
      · have := ih h
        simp only [not_mem_nil] at this
        tauto
    · rcases mem_append.1 h with h | h
      · exact .inr (.inl (.inl h))
      · have := ih h
        rw [mem_append, mem_reverse] at this
        tauto

/-- Whatever the format says, a replacement brings no characters of its own. -/
theorem mem_replaceWord (h : c ∈ (replaceWord name new text).toList) : c ∈ text.toList ∨
    c ∈ new.toList := by
  rw [replaceWord, String.toList_ofList] at h
  have hmem := (mem_replacePieces h).resolve_left not_mem_nil
  rwa [flatten_pieces] at hmem

end Characters

end KernelFusion.Text
