/-
Which of two nodes comes first.

Whatever precedes keeps doing so when further elements enter; in a list without repetitions it is a
strict total order on the elements.
-/
import KernelFusion.Proofs.Graph.Listing

namespace KernelFusion

open List

section Precedes

variable {α : Type} {l l' l₁ l₂ a b : List α} {x y z w : α}

/-- One element stands in front of another one. -/
def Precedes (l : List α) (x y : α) : Prop := [x, y].Sublist l

instance [DecidableEq α] : Decidable (Precedes l x y) :=
    inferInstanceAs (Decidable ([x, y].Sublist l))

namespace Precedes

lemma left_mem (h : Precedes l x y) : x ∈ l := h.subset (by simp)

lemma right_mem (h : Precedes l x y) : y ∈ l := h.subset (by simp)

lemma mono (h : Precedes l x y) (hl : l.Sublist l') : Precedes l' x y := Sublist.trans h hl

lemma filter {q : α → Bool} (h : Precedes l x y) (hx : q x) (hy : q y) :
    Precedes (l.filter q) x y := by
  have hsub := Sublist.filter q h
  rwa [filter_cons_of_pos hx, filter_cons_of_pos hy, filter_nil] at hsub

lemma of_mem (hx : x ∈ a) (hy : y ∈ b) : Precedes (a ++ b) x y :=
  (singleton_sublist.2 hx).append (singleton_sublist.2 hy)

lemma of_mem_tail (hy : y ∈ b) : Precedes (a ++ x :: b) x y := by
  have h : Precedes ((a ++ [x]) ++ b) x y := of_mem (by simp) hy
  simpa using h

lemma cons_iff : Precedes (w :: l) x y ↔ (x = w ∧ y ∈ l) ∨ Precedes l x y := by
  rw [Precedes, sublist_cons_iff]
  constructor
  · rintro (h | ⟨r, hr, hsub⟩)
    · exact .inr h
    · obtain ⟨rfl, rfl⟩ := cons.inj hr
      exact .inl ⟨rfl, singleton_sublist.1 hsub⟩
  · rintro (⟨rfl, hy⟩ | h)
    · exact .inr ⟨[y], rfl, singleton_sublist.2 hy⟩
    · exact .inl h

lemma insert_cases (h : Precedes (l₁ ++ w :: l₂) x y) :
    (x = w ∧ y ∈ l₂) ∨ (y = w ∧ x ∈ l₁) ∨ Precedes (l₁ ++ l₂) x y := by
  induction l₁ with
  | nil =>
    rcases cons_iff.1 h with h | h
    · exact .inl h
    · exact .inr (.inr h)
  | cons v l₁ ih =>
    rcases cons_iff.1 h with ⟨rfl, hy⟩ | h
    · rcases mem_append.1 hy with hy | hy
      · exact .inr (.inr (cons_iff.2 (.inl ⟨rfl, mem_append_left _ hy⟩)))
      · rcases mem_cons.1 hy with rfl | hy
        · exact .inr (.inl ⟨rfl, mem_cons_self⟩)
        · exact .inr (.inr (cons_iff.2 (.inl ⟨rfl, mem_append_right _ hy⟩)))
    · rcases ih h with h | ⟨rfl, hx⟩ | h
      · exact .inl h
      · exact .inr (.inl ⟨rfl, mem_cons_of_mem _ hx⟩)
      · exact .inr (.inr (cons_iff.2 (.inr h)))

lemma concat_cases (h : Precedes (l ++ [w]) x y) : (y = w ∧ x ∈ l) ∨ Precedes l x y := by
  rcases insert_cases h with ⟨-, hy⟩ | h | h
  · cases hy
  · exact .inl h
  · exact .inr (by simpa using h)

lemma between_cases (hw : w ∉ l₁ ++ l₂) (hx : x ∈ l₁ ++ l₂) (hz : z ∈ l₁ ++ l₂)
    (hxy : Precedes (l₁ ++ w :: l₂) x y) (hyz : Precedes (l₁ ++ w :: l₂) y z) :
    (y = w ∧ x ∈ l₁ ∧ z ∈ l₂) ∨ (Precedes (l₁ ++ l₂) x y ∧ Precedes (l₁ ++ l₂) y z) := by
  rcases hxy.insert_cases with ⟨rfl, -⟩ | ⟨rfl, hxl⟩ | hxy'
  · exact absurd hx hw
  · rcases hyz.insert_cases with ⟨-, hzl⟩ | ⟨rfl, -⟩ | hyz'
    · exact .inl ⟨rfl, hxl, hzl⟩
    · exact absurd hz hw
    · exact absurd hyz'.left_mem hw
  · rcases hyz.insert_cases with ⟨rfl, -⟩ | ⟨rfl, -⟩ | hyz'
    · exact absurd hxy'.right_mem hw
    · exact absurd hz hw
    · exact .inr ⟨hxy', hyz'⟩

lemma mem_of_right (h : Precedes (a ++ y :: b) x y) (hl : (a ++ y :: b).Nodup) : x ∈ a := by
  obtain ⟨hya, hyb⟩ := not_mem_of_nodup_append hl
  rcases insert_cases h with ⟨-, hy⟩ | ⟨-, hx⟩ | h
  · exact absurd hy hyb
  · exact hx
  · exact absurd (right_mem h) (by simp [hya, hyb])

lemma mem_of_left (h : Precedes (a ++ x :: b) x y) (hl : (a ++ x :: b).Nodup) : y ∈ b := by
  obtain ⟨hxa, hxb⟩ := not_mem_of_nodup_append hl
  rcases insert_cases h with ⟨-, hy⟩ | ⟨-, hx⟩ | h
  · exact hy
  · exact absurd hx hxa
  · exact absurd (left_mem h) (by simp [hxa, hxb])

lemma trans (h : Precedes l x y) (h' : Precedes l y z) (hl : l.Nodup) : Precedes l x z := by
  obtain ⟨a, b, rfl⟩ := append_of_mem h.right_mem
  have hz := mem_of_left h' hl
  exact of_mem (mem_of_right h hl) (mem_cons_of_mem _ hz)

lemma irrefl (hl : l.Nodup) : ¬ Precedes l x x := by
  intro h
  obtain ⟨a, b, rfl⟩ := append_of_mem h.right_mem
  exact (not_mem_of_nodup_append hl).1 (mem_of_right h hl)

lemma asymm (h : Precedes l x y) (hl : l.Nodup) : ¬ Precedes l y x :=
  fun h' => irrefl hl (trans h h' hl)

lemma not_le (h : Precedes l x y) (hl : l.Nodup) : ¬ (y = x ∨ Precedes l y x) := by
  rintro (rfl | h')
  · exact irrefl hl h
  · exact asymm h hl h'

lemma total (hx : x ∈ l) (hy : y ∈ l) : x = y ∨ Precedes l x y ∨ Precedes l y x := by
  obtain ⟨a, b, rfl⟩ := append_of_mem hx
  rcases mem_append.1 hy with hy | hy
  · exact .inr (.inr (of_mem hy mem_cons_self))
  · rcases mem_cons.1 hy with rfl | hy
    · exact .inl rfl
    · exact .inr (.inl (of_mem_tail hy))

lemma of_sublist (h : Precedes l' x y) (hl : l.Sublist l') (hnodup : l'.Nodup) (hx : x ∈ l)
    (hy : y ∈ l) : Precedes l x y := by
  rcases total hx hy with rfl | hxy | hyx
  · exact absurd h (irrefl hnodup)
  · exact hxy
  · exact absurd (hyx.mono hl) (asymm h hnodup)

end Precedes

lemma precedes_range_iff {n x y : Nat} : Precedes (range n) x y ↔ x < y ∧ y < n := by
  constructor
  · intro h
    have hpair := pairwise_lt_range.sublist h
    exact ⟨by simpa using hpair, mem_range.1 h.right_mem⟩
  · rintro ⟨hxy, hy⟩
    have h : Precedes (range y ++ [y]) x y :=
      Precedes.of_mem (mem_range.2 hxy) (by simp)
    rw [← range_succ] at h
    exact h.mono (range_sublist.2 hy)

lemma concat_eq_append_cons_cons (h : l ++ [w] = a ++ x :: y :: b) :
    (y = w ∧ l = a ++ [x]) ∨ ∃ b', l = a ++ x :: y :: b' := by
  rcases eq_nil_or_concat b with rfl | ⟨b', z, rfl⟩
  · have h' : l ++ [w] = (a ++ [x]) ++ [y] := by simpa using h
    obtain ⟨hl, hw⟩ := append_inj' h' rfl
    exact .inl ⟨by simpa using hw.symm, hl⟩
  · have h' : l ++ [w] = (a ++ x :: y :: b') ++ [z] := by simpa using h
    exact .inr ⟨b', (append_inj' h' rfl).1⟩

lemma mem_append_cons : x ∈ l₁ ++ w :: l₂ ↔ x = w ∨ x ∈ l₁ ++ l₂ := by
  simp only [mem_append, mem_cons]
  tauto

lemma sublist_insert : (l₁ ++ l₂).Sublist (l₁ ++ w :: l₂) :=
  (Sublist.refl l₁).append (sublist_cons_self w l₂)

end Precedes

end KernelFusion
