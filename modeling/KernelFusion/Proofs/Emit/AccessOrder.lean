/-
Loads that are written into later statements.

A load that has been written into other lines is read through by statements behind it: it still
follows the writes in front of it, but it may have passed writes that followed it.
-/
import KernelFusion.Proofs.Emit.Marking
import KernelFusion.Proofs.Emit.Signs

namespace KernelFusion

open List

/-- The statement at `i` reads through the load at `j`: its text changes with the mark. -/
def Reads (lines : List Line) (j i : Nat) : Prop := statement (marked lines j) i ≠ statement lines i

instance (lines : List Line) (j i : Nat) : Decidable (Reads lines j i) := instDecidableNot

section Reads

variable {lines : List Line} {i j w : Nat}

lemma precedes_keptPlaces_iff (hw : w ∈ keptPlaces lines) (hi : i ∈ keptPlaces lines) :
    Precedes (keptPlaces lines) w i ↔ w < i := by
  have hlt := (mem_keptPlaces.1 hi).1
  constructor
  · intro h
    exact (precedes_range_iff.1 (h.mono filter_sublist)).1
  · intro h
    exact (precedes_range_iff.2 ⟨h, hlt⟩).filter (mem_filter.1 hw).2 (mem_filter.1 hi).2

variable (hcoupled : Coupled lines j lines.length (mergeAll lines) (mergeAll (marked lines j)))

include hcoupled

lemma keptPlaces_marked : keptPlaces (marked lines j) = keptPlaces lines := by
  have hlength : (marked lines j).length = lines.length := length_modify _ _ _
  rw [keptPlaces, keptPlaces, hlength, hcoupled.dropped]

lemma like_mergedLine (hi : i < lines.length) :
    (mergedLine lines i).Like (mergedLine (marked lines j) i) := by
  have hlength : (marked lines j).length = lines.length := length_modify _ _ _
  rcases getElem?_of_forall₂ hcoupled.like i with ⟨hnone, -⟩ | ⟨l, l', hl, hl', hlike⟩
  · rw [getElem?_mergeAll hi] at hnone
    cases hnone
  · cases (getElem?_mergeAll hi).symm.trans hl
    cases (getElem?_mergeAll (hlength ▸ hi)).symm.trans hl'
    exact hlike

lemma mergedNames_marked : mergedNames (marked lines j) = mergedNames lines := by
  rw [mergedNames, mergedNames, mergeLines_eq, mergeLines_eq, keptPlaces_marked hcoupled, map_map,
    map_map]
  exact map_congr_left fun i hi => (like_mergedLine hcoupled (mem_keptPlaces.1 hi).1).name.symm

lemma Reads.eq_or_lt (hi : i < lines.length) (h : Reads lines j i) :
    i = j ∨ j < i ∧ j ∉ keptPlaces lines := by
  have hlength : (marked lines j).length = lines.length := length_modify _ _ _
  have hlike := like_mergedLine hcoupled hi
  have hdiffer : (mergedLine lines i).expression ≠ (mergedLine (marked lines j) i).expression := by
    intro heq
    refine h ?_
    have hleft : (mergedLine lines i).left = (mergedLine (marked lines j) i).left :=
      congrArg (·.left) hlike.frame
    have hright : (mergedLine lines i).right = (mergedLine (marked lines j) i).right :=
      congrArg (·.right) hlike.frame
    rw [statement, statement, mergedNames_marked hcoupled, Line.code, Line.code, heq, hleft, hright]
  rcases hcoupled.differ i _ _ (getElem?_mergeAll hi)
    (getElem?_mergeAll (hlength ▸ hi)) hdiffer with heq | ⟨hlt, hdropped, -⟩
  · exact .inl heq
  · exact .inr ⟨hlt, fun hkept => (mem_keptPlaces.1 hkept).2 hdropped⟩

end Reads

namespace Graph

variable {f : Graph} {k : Kernel} {ks : List Kernel} {lines : List Line} {name text : String}
  {i j w : Nat}

/-- The slot of the memory that a node accesses. -/
def accessSlot (f : Graph) (k : Kernel) (n : NodeId) : Nat :=
  slotOf k.memory ((((f.node n).arguments .memory).map f.source).headD 0)

/-- The slot that the line at a place loads from, if it loads. -/
def loadSlot? (f : Graph) (k : Kernel) (j : Nat) : Option Nat :=
  ((f.lineNodes k)[j]?.filter fun n => (f.node n).op.name = "load").map (f.accessSlot k)

/-- The slot that the line at a place writes to, if it stores or scatters. -/
def writeSlot? (f : Graph) (k : Kernel) (w : Nat) : Option Nat :=
  ((f.lineNodes k)[w]?.filter fun n =>
    (f.node n).op.kind.accesses && (f.node n).op.name ≠ "load").map (f.accessSlot k)

/-- The line at `j` loads from the slot that the statement at `w` writes to. -/
def Conflicts (f : Graph) (k : Kernel) (lines : List Line) (j w : Nat) : Prop :=
  ((f.loadSlot? k j).isSome ∧ f.loadSlot? k j = f.writeSlot? k w) ∧ w ∈ keptPlaces lines

instance (f : Graph) (k : Kernel) (lines : List Line) (j w : Nat) :
    Decidable (f.Conflicts k lines j w) :=
  instDecidableAnd

/-- Whatever reads through a load stands behind the writes to its slot that stood in front of the
load, and in front of those that stood behind it or in one of them. -/
def AccessesInOrder (f : Graph) (k : Kernel) (lines : List Line) : Prop :=
  ∀ j w, f.Conflicts k lines j w → ∀ i ∈ keptPlaces lines, KernelFusion.Reads lines j i →
    (w < j → Precedes (keptPlaces lines) w i) ∧ (j < w → i = w ∨ Precedes (keptPlaces lines) i w)

/-- A load that has been written into other lines has passed a write to its slot. -/
def Overtakes (f : Graph) (k : Kernel) (lines : List Line) : Prop :=
  ∃ j < lines.length, ∃ w ∈ keptPlaces lines, ∃ i ∈ keptPlaces lines,
    (j < w ∧ w < i) ∧ f.Conflicts k lines j w ∧ j ∉ keptPlaces lines ∧ KernelFusion.Reads lines j i

instance (f : Graph) (k : Kernel) (lines : List Line) : Decidable (f.Overtakes k lines) :=
  inferInstanceAs (Decidable (∃ j < lines.length, ∃ w ∈ keptPlaces lines, ∃ i ∈ keptPlaces lines,
    (j < w ∧ w < i) ∧ f.Conflicts k lines j w ∧ j ∉ keptPlaces lines ∧
    KernelFusion.Reads lines j i))

lemma Overtakes.not_inOrder (h : f.Overtakes k lines) : ¬ f.AccessesInOrder k lines := by
  obtain ⟨j, -, w, hw, i, hi, ⟨hjw, hwi⟩, hconflicts, -, hreads⟩ := h
  intro hinOrder
  rcases (hinOrder j w hconflicts i hi hreads).2 hjw with rfl | hprec
  · exact absurd hwi (Nat.lt_irrefl _)
  · exact absurd ((precedes_keptPlaces_iff hi hw).1 hprec) (Nat.lt_asymm hwi)

lemma Lined.sequential (h : f.Lined k lines) (hseq : f.Sequenced) (hj : (f.loadSlot? k j).isSome) :
    KernelFusion.Sequential lines j := by
  intro i line hline arg harg
  obtain ⟨n, -, hn, -⟩ := h.exists_node hline
  refine ⟨fun hbare => ?_, fun b hb => ?_⟩
  · rw [hbare line hline] at harg
    cases harg
  · rcases h.lt_or_isRoot hseq hn hline harg hb with hlt | ⟨m, hm, hroot⟩
    · exact .inl hlt
    · obtain ⟨hbare, haccess⟩ := h.isBare_of_isRoot hseq hm hroot
      refine .inr ⟨?_, hbare⟩
      rintro rfl
      have hload : (f.node m).op.name = "load" := by simpa [loadSlot?, hm] using hj
      rw [Operation.accesses_of_load (h.table m (mem_of_getElem? hm)) hload] at haccess
      cases haccess

/-- Accesses keep their order exactly when no merge carries one past another. -/
lemma Lined.accessesInOrder_iff (h : f.Lined k lines) (hseq : f.Sequenced) :
    f.AccessesInOrder k lines ↔ ¬ f.Overtakes k lines := by
  refine ⟨fun hinOrder hover => hover.not_inOrder hinOrder,
    fun hnot j w hconflicts i hi hreads => ?_⟩
  have hcoupled := coupled_mergeAll h.ofValues (h.sequential hseq hconflicts.1.1)
    fun line hline => (h.plain line hline).2
  have hwhere := hreads.eq_or_lt hcoupled (mem_keptPlaces.1 hi).1
  have hw := hconflicts.2
  refine ⟨fun hwj => (precedes_keptPlaces_iff hw hi).2 (by omega), fun hjw => ?_⟩
  rcases Nat.lt_trichotomy i w with hlt | heq | hgt
  · exact .inr ((precedes_keptPlaces_iff hi hw).2 hlt)
  · exact .inl heq
  · -- only a dropped load is read through behind the write
    rcases hwhere with rfl | ⟨-, hdropped⟩
    · exact absurd hgt (Nat.lt_asymm hjw)
    · have hj : j < lines.length := by
        have hlt := (mem_keptPlaces.1 hw).1
        omega
      exact absurd ⟨j, hj, w, hw, i, hi, ⟨hjw, hgt⟩, hconflicts, hdropped, hreads⟩ hnot

/-- In the text of a kernel, accesses to a slot are in order if and only if no load that has been
written into other lines has passed a write to its slot. -/
theorem accesses_inOrder_iff {outputs : List NodeId} {l : List Step} (hl : Step.allRegular l = true)
    (hrun : Build.transform outputs (Script.scene l).graph = .ok ks f) (hk : k ∈ ks)
    (hkind : k.kind = .compute) (hsource : f.kernelSource name k = .ok text) :
    ∃ lines nest, f.kernelLines k = .ok lines ∧
      text = kernelFunction name nest (String.join ((keptPlaces lines).map (statementLine lines))) ∧
      (f.AccessesInOrder k lines ↔ ¬ f.Overtakes k lines) := by
  have hlined : ∀ lines, f.kernelLines k = .ok lines → f.Lined k lines := fun lines =>
    (final_of_transform hl hrun).lined hk hkind
  obtain ⟨lines, nest, hlines, -, htext⟩ := kernelSource_eq_ok hlined hsource
  exact ⟨lines, nest.text, hlines, htext,
    (hlined lines hlines).accessesInOrder_iff (sequenced_of_transform hl hrun)⟩

end Graph

/-- An element is stored, loaded and stored again. -/
def loadBetweenStores : List Step :=
  [ .act (.input .float (.sizes [4])) (some "A"),
    .act (.index (.like "A") 0) (some "i"),
    .act (.constant .float 0x3f800000 (.sizes [])) (some "c"),
    .act (.store "A" "c" ["i"]) none,
    .act (.load "A" ["i"]) (some "x"),
    .act (.call (.named "sin") ["x"]) (some "y"),
    .act (.store "A" "y" ["i"]) none ]

theorem Graph.accesses_inOrder_loadBetweenStores : ∃ ks f k lines,
    Build.transform [6] (Script.scene loadBetweenStores).graph = .ok ks f ∧ k ∈ ks ∧
      f.kernelLines k = .ok lines ∧
      f.Conflicts k lines 4 2 ∧ f.Conflicts k lines 4 9 ∧ f.AccessesInOrder k lines := by
  obtain ⟨ks, f, hrun, k, hk, hkind, lines, hlines, ⟨text, htext, -⟩, hfirst, hlast, hnot⟩ : ∃ ks f,
      Build.transform [6] (Script.scene loadBetweenStores).graph = .ok ks f ∧
      ∃ k ∈ ks, k.kind = .compute ∧ ∃ lines, f.kernelLines k = .ok lines ∧
      (∃ text, f.kernelSource "kernel_0" k = .ok text ∧ True) ∧
      f.Conflicts k lines 4 2 ∧ f.Conflicts k lines 4 9 ∧ ¬ f.Overtakes k lines := by decide +kernel
  obtain ⟨lines', nest, hlines', -, hiff⟩ :=
    Graph.accesses_inOrder_iff (by decide +kernel) hrun hk hkind htext
  obtain rfl := Except.ok.inj (hlines.symm.trans hlines')
  exact ⟨ks, f, k, lines, hrun, hk, hlines, hfirst, hlast, hiff.2 hnot⟩

/-- An element is loaded, overwritten, and stored again. -/
def loadBeforeStores : List Step :=
  [ .act (.input .float (.sizes [4])) (some "A"),
    .act (.load "A" []) (some "x"),
    .act (.constant .float 0x3f800000 (.sizes [])) (some "c"),
    .act (.store "A" "c" []) none,
    .act (.store "A" "x" []) none ]

/-- The load is written into the second store, which is behind the first one. -/
theorem Graph.not_forall_accesses_inOrder :
    ¬ ∀ (l : List Step) (outputs : List NodeId) (ks : List Kernel) (f : Graph) (k : Kernel)
      (lines : List Line), Step.allRegular l = true →
      Build.transform outputs (Script.scene l).graph = .ok ks f → k ∈ ks → k.kind = .compute →
      f.kernelLines k = .ok lines → f.AccessesInOrder k lines := by
  intro hall
  obtain ⟨ks, f, hrun, k, hk, hkind, lines, hlines, hovertakes⟩ : ∃ ks f,
      Build.transform [1] (Script.scene loadBeforeStores).graph = .ok ks f ∧
      ∃ k ∈ ks, k.kind = .compute ∧ ∃ lines, f.kernelLines k = .ok lines ∧ f.Overtakes k lines := by
    decide +kernel
  exact hovertakes.not_inOrder (hall _ _ _ _ _ _ (by decide +kernel) hrun hk hkind hlines)

end KernelFusion
