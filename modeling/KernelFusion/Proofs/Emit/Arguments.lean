/-
The lines that a line takes values from.

An argument of a line is the name of another one. The other line stands in front, unless it is the
line of a coordinate, which takes nothing from other lines.
-/
import KernelFusion.Proofs.Emit.Rendering
import KernelFusion.Proofs.Kernel.Order

namespace KernelFusion

open List

/-- The line at a place takes nothing from other lines. -/
def IsBare (lines : List Line) (b : Nat) : Prop :=
  ∀ line, lines[b]? = some line → line.arguments = []

namespace Graph

variable {f : Graph} {k : Kernel} {lines : List Line} {line : Line} {n m : NodeId} {i b : Nat}
  {arg : String}

lemma lt_of_precedes {l l' : List NodeId} (hsub : l.Sublist l') (hnodup : l'.Nodup)
    (hb : l[b]? = some m) (hi : l[i]? = some n) (h : Precedes l' m n) : b < i := by
  have hl := hsub.nodup hnodup
  have hprec : Precedes l m n := by
    rcases Precedes.total (mem_of_getElem? hb) (mem_of_getElem? hi) with rfl | hmn | hnm
    · exact absurd h (Precedes.irrefl hnodup)
    · exact hmn
    · exact absurd (hnm.mono hsub) (h.asymm hnodup)
  obtain ⟨hb', rfl⟩ := List.getElem?_eq_some_iff.1 hb
  obtain ⟨hi', rfl⟩ := List.getElem?_eq_some_iff.1 hi
  have hlt := idxOf_lt_of_precedes hprec hl
  rwa [hl.idxOf_getElem, hl.idxOf_getElem] at hlt

namespace Lined

variable (h : f.Lined k lines) (hseq : f.Sequenced)

include h

lemma getElem?_of_place? (hm : f.hasLine m)
    (hb : (LineIndex.ofLines lines).place? (f.valueName f.names m) = some b) :
    (f.lineNodes k)[b]? = some m := by
  have hconst : (f.node m).isConst = false := by
    simp only [hasLine, Bool.and_eq_true, Bool.not_eq_true'] at hm
    exact hm.1
  obtain ⟨line, hline, hname⟩ := LineIndex.name_of_place? hb
  obtain ⟨n, type, hn, hisLine⟩ := h.exists_node hline
  have hmem := mem_of_getElem? hn
  have hnmem := h.isMemory n hmem
  rw [valueName, if_neg (by simp [hconst]), hisLine.name] at hname
  have hlisted : m ∈ f.order := by
    by_contra hnot
    obtain ⟨x, y, hxy⟩ := h.lists.name_eq (h.sublist.subset hmem) hnmem
    rw [h.lists.name_of_not_mem hnot, hxy] at hname
    exact (isName_variableName x y).ne_nil (congrArg String.toList hname)
  rw [hn, h.lists.names_inj (h.sublist.subset hmem) hlisted hname]

include hseq

section

variable (hn : (f.lineNodes k)[i]? = some n) (hline : lines[i]? = some line)
  (harg : arg ∈ line.arguments) (hb : (LineIndex.ofLines lines).place? arg = some b)

include hn hline harg hb

lemma exists_argument :
    ∃ a ∈ (f.node n).args, a.kind ≠ .shape ∧ a.source ∈ f.order ∧
      (f.lineNodes k)[b]? = some a.source := by
  obtain ⟨type, line', hline', hisLine⟩ := h.exists_line hn
  cases hline'.symm.trans hline
  rw [hisLine.arguments, operands] at harg
  obtain ⟨m, hm, rfl⟩ := mem_map.1 harg
  obtain ⟨hm, hhasLine⟩ := mem_filter.1 hm
  have hplace := h.getElem?_of_place? hhasLine hb
  have hsource : ∃ a ∈ (f.node n).args, a.kind ≠ .shape ∧ f.source a = m := by
    simp only [mem_append, mem_map, Node.mem_arguments] at hm
    rcases hm with ⟨a, ⟨ha, hkind⟩ | ⟨ha, hkind⟩, hsource⟩ | ⟨a, ⟨ha, hkind⟩, hsource⟩
    all_goals exact ⟨a, ha, by rw [hkind]; decide, hsource⟩
  obtain ⟨a, ha, hkind, rfl⟩ := hsource
  have hself := hseq.labelled.source
    (hseq.inside n (h.sublist.subset (mem_of_getElem? hn)) a ha hkind)
  rw [hself] at hplace
  exact ⟨a, ha, hkind, h.sublist.subset (mem_of_getElem? hplace), hplace⟩

lemma lt_or_isRoot :
    b < i ∨ ∃ m, (f.lineNodes k)[b]? = some m ∧ f.IsRoot m := by
  obtain ⟨a, ha, hkind, hsource, hplace⟩ := h.exists_argument hseq hn hline harg hb
  have hlisted := h.sublist.subset (mem_of_getElem? hn)
  rcases hseq.earlier n hlisted a ha hkind hsource with hroot | hprec
  · exact .inr ⟨_, hplace, hroot⟩
  · exact .inl (lt_of_precedes h.sublist h.lists.chain.nodup hplace hn hprec)

end

/-- The line of a root takes no arguments. -/
lemma isBare_of_isRoot (hm : (f.lineNodes k)[b]? = some m) (hroot : f.IsRoot m) :
    IsBare lines b ∧ (f.node m).op.kind.accesses = false := by
  have hlisted := h.sublist.subset (mem_of_getElem? hm)
  have hop := h.table m (mem_of_getElem? hm)
  obtain ⟨type, line, hline, hisLine⟩ := h.exists_line hm
  have haccess : (f.node m).op.kind.accesses = false := by
    rcases hroot with hcoord | rfl
    · have hall : ∀ op ∈ Operation.table, op.name = "dim_id" → op.kind.accesses = false :=
        by decide +kernel
      exact hall _ hop (by simpa [Node.isCoordinate] using hcoord)
    · by_contra haccess
      obtain ⟨a, ha, hkind⟩ := hseq.accesses 0 hlisted (by simpa using haccess)
      have hshape := hseq.first hlisted a ha
      rw [hkind] at hshape
      cases hshape
  have hinput : (f.node m).arguments .input = [] := by
    rcases hroot with hcoord | rfl
    · -- coordinates are written by an overload without operands
      have hall : ∀ op ∈ Operation.table, op.name = "dim_id" → ∀ o ∈ op.overloads,
        o.inputs = [] := by
        decide +kernel
      obtain ⟨o, ho, -⟩ := Operation.resultType_eq_ok_iff.1 hisLine.resultType
      obtain ⟨hmem, hinputs⟩ := Operation.mem_of_overload? ho
      rw [hall _ hop (by simpa [Node.isCoordinate] using hcoord) o hmem] at hinputs
      exact map_eq_nil_iff.1 hinputs.symm
    · rw [eq_nil_iff_forall_not_mem]
      intro a ha
      obtain ⟨ha, hkind⟩ := Node.mem_arguments.1 ha
      have hshape := hseq.first hlisted a ha
      rw [hkind] at hshape
      cases hshape
  have hnone : ∀ kind, kind = .memory ∨ kind = .index → (f.node m).arguments kind = [] := by
    intro kind hkinds
    rw [eq_nil_iff_forall_not_mem]
    intro a ha
    obtain ⟨ha, hkind⟩ := Node.mem_arguments.1 ha
    obtain ⟨hmemory, hindex⟩ := hseq.plain m hlisted haccess a ha
    rw [← hkind] at hkinds
    exact hkinds.elim hmemory hindex
  refine ⟨fun line' hline' => ?_, haccess⟩
  cases hline.symm.trans hline'
  rw [hisLine.arguments, operands, hinput, hnone _ (.inl rfl), hnone _ (.inr rfl)]
  rfl

end Lined

end Graph

end KernelFusion
