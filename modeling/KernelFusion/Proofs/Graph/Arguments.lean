/-
Regular argument lists.

The arguments of one use that a tensor function gives to a node have the indices `0`, `1`, `2` and
so on, in this order: they form a *block*, on which all the ways of looking at arguments agree.
-/
import KernelFusion.Graph.Basic
import Mathlib.Tactic.Lemma

namespace KernelFusion

open List

/-- Arguments of one use from the given labels, with indices in order. -/
def block (k : ArgKind) (labels : List LabelId) : List Argument :=
  labels.zipIdx.map fun (l, i) => ⟨k, i, l⟩

section Block

variable {k : ArgKind} {ls : List LabelId} {args : List Argument} {a : Argument}

@[simp] lemma length_block : (block k ls).length = ls.length := by simp [block]

@[simp] lemma block_nil : block k [] = [] := rfl

lemma block_eq_nil_iff : block k ls = [] ↔ ls = [] := by
  rw [← length_eq_zero_iff, length_block, length_eq_zero_iff]

lemma getElem?_block (i : Nat) : (block k ls)[i]? = ls[i]?.map fun l => ⟨k, i, l⟩ := by
  simp [block, getElem?_zipIdx, Option.map_map, Function.comp_def]

lemma mem_block : a ∈ block k ls ↔ ∃ (i : Nat) (l : LabelId), ls[i]? = some l ∧ a = ⟨k, i, l⟩ := by
  rw [mem_iff_getElem?]
  constructor
  · rintro ⟨i, hi⟩
    rw [getElem?_block, Option.map_eq_some_iff] at hi
    obtain ⟨l, hl, rfl⟩ := hi
    exact ⟨i, l, hl, rfl⟩
  · rintro ⟨i, l, hl, rfl⟩
    exact ⟨i, by rw [getElem?_block, hl, Option.map_some]⟩

lemma kind_of_mem_block (h : a ∈ block k ls) : a.kind = k := by
  obtain ⟨i, l, -, rfl⟩ := mem_block.1 h
  rfl

lemma index_nonneg_of_mem_block (h : a ∈ block k ls) : 0 ≤ a.index := by
  obtain ⟨i, l, -, rfl⟩ := mem_block.1 h
  exact Int.natCast_nonneg i

lemma map_source_block : (block k ls).map (·.source) = ls := by
  simp [block, map_map, Function.comp_def]

lemma pairwise_block : (block k ls).Pairwise fun a b => a.index < b.index := by
  rw [pairwise_iff_getElem]
  intro i j hi hj hij
  simp only [block, getElem_map, getElem_zipIdx, Nat.zero_add]
  exact Int.ofNat_lt.2 hij

lemma filter_block_self : (block k ls).filter (fun a => a.kind = k) = block k ls := by
  rw [filter_eq_self]
  intro a ha
  simpa using kind_of_mem_block ha

lemma filter_block_of_ne {k' : ArgKind} (h : k ≠ k') :
    (block k ls).filter (fun a => a.kind = k') = [] := by
  rw [filter_eq_nil_iff]
  intro a ha
  simpa [kind_of_mem_block ha] using h

/-! ### Sorting -/

lemma insertByIndex_perm : (insertByIndex a args).Perm (a :: args) := by
  induction args with
  | nil => exact Perm.refl _
  | cons b rest ih =>
    rw [insertByIndex]
    split
    · exact Perm.refl _
    · exact (ih.cons b).trans (Perm.swap ..)

lemma foldr_insertByIndex_perm : (args.foldr insertByIndex []).Perm args := by
  induction args with
  | nil => exact Perm.refl _
  | cons a rest ih => exact insertByIndex_perm.trans (ih.cons a)

lemma pairwise_insertByIndex (h : args.Pairwise fun a b => a.index ≤ b.index) :
    (insertByIndex a args).Pairwise fun a b => a.index ≤ b.index := by
  induction args with
  | nil => simp [insertByIndex]
  | cons b rest ih =>
    rw [pairwise_cons] at h
    rw [insertByIndex]
    split
    · rename_i hab
      refine pairwise_cons.2 ⟨fun c hc => ?_, pairwise_cons.2 h⟩
      rcases mem_cons.1 hc with rfl | hc
      · exact hab
      · exact Int.le_trans hab (h.1 c hc)
    · rename_i hab
      refine pairwise_cons.2 ⟨fun c hc => ?_, ih h.2⟩
      rcases mem_insertByIndex.1 hc with rfl | hc
      · exact Int.le_of_lt (Int.not_le.1 hab)
      · exact h.1 c hc

lemma pairwise_foldr_insertByIndex :
    (args.foldr insertByIndex []).Pairwise fun a b => a.index ≤ b.index := by
  induction args with
  | nil => exact List.Pairwise.nil
  | cons a rest ih => exact pairwise_insertByIndex ih

variable {b : Argument} {dim : Nat}

lemma eq_of_index_eq (h : args.Pairwise fun a b => a.index < b.index) (ha : a ∈ args)
    (hb : b ∈ args) (hab : a.index = b.index) : a = b := by
  induction args with
  | nil => simp at ha
  | cons c rest ih =>
    rw [pairwise_cons] at h
    rcases mem_cons.1 ha with rfl | ha'
    · rcases mem_cons.1 hb with rfl | hb'
      · rfl
      · exact absurd hab (Int.ne_of_lt (h.1 b hb'))
    · rcases mem_cons.1 hb with rfl | hb'
      · exact absurd hab.symm (Int.ne_of_lt (h.1 a ha'))
      · exact ih h.2 ha' hb'

lemma foldr_insertByIndex_of_perm {args' : List Argument} (hp : args'.Perm args)
    (h : args.Pairwise fun a b => a.index < b.index) : args'.foldr insertByIndex [] = args := by
  have hperm : (args'.foldr insertByIndex []).Perm args := foldr_insertByIndex_perm.trans hp
  refine hperm.eq_of_pairwise ?_ pairwise_foldr_insertByIndex (h.imp Int.le_of_lt)
  intro a b ha hb hab hba
  exact eq_of_index_eq h (hperm.mem_iff.1 ha) hb (Int.le_antisymm hab hba)

lemma sortByIndex_of_pairwise (h : args.Pairwise fun a b => a.index < b.index) :
    sortByIndex args = args :=
  foldr_insertByIndex_of_perm (spread_perm _ _) h

lemma lastOfEachIndex_of_pairwise (h : args.Pairwise fun a b => a.index < b.index) :
    lastOfEachIndex args = args := by
  induction args with
  | nil => rfl
  | cons a rest ih =>
    rw [pairwise_cons] at h
    cases rest with
    | nil => rfl
    | cons b rest =>
      rw [lastOfEachIndex, if_neg (Int.ne_of_lt (h.1 b (by simp))), ih h.2]

lemma sortByIndex_perm : (sortByIndex args).Perm args :=
  foldr_insertByIndex_perm.trans (spread_perm _ _)

lemma lastOfEachIndex_eq_nil_iff : lastOfEachIndex args = [] ↔ args = [] := by
  fun_induction lastOfEachIndex args with
  | case1 a b rest _ ih => simp [ih]
  | case2 => simp
  | case3 => exact Iff.rfl

lemma lastOfEachIndex_sublist : (lastOfEachIndex args).Sublist args := by
  fun_induction lastOfEachIndex args with
  | case1 a b rest _ ih => exact ih.cons a
  | case2 a b rest _ ih => exact ih.cons_cons a
  | case3 => exact Sublist.refl _

lemma find?_block (i : Nat) :
    ((block k ls).find? fun a => a.index = (i : Int)) = ls[i]?.map fun l => ⟨k, i, l⟩ := by
  rw [← getElem?_block]
  cases hi : (block k ls)[i]? with
  | none =>
    rw [find?_eq_none]
    intro a ha
    obtain ⟨j, l, hl, rfl⟩ := mem_block.1 ha
    have hj : j < ls.length := (List.getElem?_eq_some_iff.1 hl).1
    have hi : ls.length ≤ i := by simpa using List.getElem?_eq_none_iff.1 hi
    simp only [decide_eq_true_eq]
    exact fun h => Nat.lt_irrefl i (Nat.lt_of_lt_of_le (Int.ofNat.inj h ▸ hj) hi)
  | some a =>
    have ha := mem_of_getElem? hi
    rw [getElem?_block, Option.map_eq_some_iff] at hi
    obtain ⟨l, -, rfl⟩ := hi
    cases hf : (block k ls).find? fun a => a.index = (i : Int) with
    | none => exact absurd (find?_eq_none.1 hf _ ha) (by simp)
    | some b =>
      have hb : b.index = i := by simpa using find?_some hf
      exact congrArg some (eq_of_index_eq pairwise_block (mem_of_find?_eq_some hf) ha hb)

end Block

namespace Node

variable {n : Node} {k : ArgKind} {a : Argument}

/-- The labels that the arguments of one use come from, in the order of the arguments. -/
def labels (n : Node) (k : ArgKind) : List LabelId :=
  (n.args.filter fun a => a.kind = k).map (·.source)

lemma mem_labels {l : LabelId} : l ∈ n.labels k ↔ ∃ a ∈ n.args, a.kind = k ∧ a.source = l := by
  simp [labels, and_assoc]

lemma mem_of_mem_places (h : a ∈ n.places k) : a ∈ n.args ∧ a.kind = k :=
  mem_arguments.1 (lastOfEachIndex_sublist.subset h)

lemma mem_of_sizeAt? (h : n.sizeAt? dim = some a) :
    a ∈ n.args ∧ a.kind = .shape := by
  have hmem := lastOfEachIndex_sublist.subset (mem_of_find?_eq_some h)
  simpa using foldr_insertByIndex_perm.mem_iff.1 hmem

section Blocks

variable {ls : List LabelId} (h : (n.args.filter fun a => a.kind = k) = block k ls)

include h

lemma arguments_of_block : n.arguments k = block k ls := by
  rw [arguments, h, sortByIndex_of_pairwise pairwise_block]

lemma places_of_block : n.places k = block k ls := by
  rw [places, arguments_of_block h, lastOfEachIndex_of_pairwise pairwise_block]

lemma entries_of_block : n.entries k = block k ls := by
  rw [entries, h, foldr_insertByIndex_of_perm (Perm.refl _) pairwise_block,
    lastOfEachIndex_of_pairwise pairwise_block]

lemma extent_of_block : n.extent k = ls.length := by
  rw [extent, entries_of_block h, getLast?_eq_getElem?, length_block, getElem?_block]
  cases ls with
  | nil => rfl
  | cons l ls =>
    rw [length_cons, Nat.add_sub_cancel, getElem?_eq_getElem (by simp)]
    simp

end Blocks

lemma sizeAt?_of_block {ls : List LabelId}
    (h : (n.args.filter fun a => a.kind = .shape) = block .shape ls) (dim : Nat) :
    n.sizeAt? dim = ls[dim]?.map fun l => ⟨.shape, dim, l⟩ := by
  rw [sizeAt?, entries_of_block h, find?_block]

/-- The arguments of every use have their indices in order, a memory argument belongs to an access
to memory, and memory itself has sizes only. -/
structure Regular (n : Node) : Prop where
  blocks : ∀ k, (n.args.filter fun a => a.kind = k) = block k (n.labels k)
  memory : (n.labels .memory).length = if n.op.kind.accesses then 1 else 0
  plain : n.isMemory → ∀ a ∈ n.args, a.kind = .shape

namespace Regular

variable (h : n.Regular)

include h

lemma index_nonneg (ha : a ∈ n.args) : 0 ≤ a.index := by
  have hmem : a ∈ n.args.filter fun b => b.kind = a.kind := by simpa using ha
  rw [h.blocks] at hmem
  exact index_nonneg_of_mem_block hmem

lemma arguments_eq (k : ArgKind) : n.arguments k = block k (n.labels k) :=
  arguments_of_block (h.blocks k)

lemma places_eq (k : ArgKind) : n.places k = block k (n.labels k) :=
  places_of_block (h.blocks k)

lemma sizeAt?_eq (dim : Nat) :
    n.sizeAt? dim = (n.labels .shape)[dim]?.map fun l => ⟨.shape, dim, l⟩ :=
  sizeAt?_of_block (h.blocks .shape) dim

lemma extent_eq (k : ArgKind) : n.extent k = (n.labels k).length :=
  extent_of_block (h.blocks k)

lemma isElementwise_iff : n.isElementwise ↔ n.labels .index = [] := by
  rw [isElementwise, h.arguments_eq, List.isEmpty_iff, block_eq_nil_iff]

lemma exists_memory (ha : n.op.kind.accesses) :
    ∃ l, n.labels .memory = [l] := by
  have hlen := h.memory
  rw [if_pos ha] at hlen
  exact length_eq_one_iff.1 hlen

lemma memory_unique (ha : a ∈ n.args) (hb : b ∈ n.args) (hka : a.kind = .memory)
    (hkb : b.kind = .memory) : a.source = b.source := by
  have ha' : a.source ∈ n.labels .memory := mem_labels.2 ⟨a, ha, hka, rfl⟩
  have hb' : b.source ∈ n.labels .memory := mem_labels.2 ⟨b, hb, hkb, rfl⟩
  have hlen := h.memory
  split at hlen
  · obtain ⟨x, hx⟩ := length_eq_one_iff.1 hlen
    rw [hx, mem_singleton] at ha' hb'
    rw [ha', hb']
  · rw [length_eq_zero_iff.1 hlen] at ha'
    cases ha'

end Regular

end Node

namespace Graph

variable {g : Graph} {n m : NodeId}

lemma sources_eq (h : (g.node n).Regular) (k : ArgKind) :
    g.sources n k = (((g.node n).labels k).map g.target).zipIdx.map fun (m, i) =>
    ((i : Int), m) := by
  rw [sources, h.places_eq, block, map_map, zipIdx_map, map_map]
  rfl

lemma memoryOf?_eq (h : (g.node n).Regular) :
    g.memoryOf? n = ((g.node n).labels .memory).head?.map g.target := by
  rw [memoryOf?, h.places_eq, ← Int.ofNat_zero, find?_block, Option.map_map, head?_eq_getElem?]
  rfl

lemma exists_of_memoryOf? (hm : g.memoryOf? n = some m) :
    ∃ a ∈ (g.node n).args, a.kind = .memory ∧ g.source a = m := by
  obtain ⟨a, ha, rfl⟩ := Option.map_eq_some_iff.1 hm
  obtain ⟨ha, hkind⟩ := Node.mem_of_mem_places (mem_of_find?_eq_some ha)
  exact ⟨a, ha, hkind, rfl⟩

lemma exists_of_mem_sources {k : ArgKind} {i : Int} (h : (i, m) ∈ g.sources n k) :
    ∃ a ∈ (g.node n).args, g.source a = m := by
  obtain ⟨a, ha, heq⟩ := mem_map.1 h
  exact ⟨a, (Node.mem_of_mem_places ha).1, (Prod.mk.inj heq).2⟩

lemma exists_of_size? (h : g.size? n dim = some m) :
    ∃ a ∈ (g.node n).args, g.source a = m := by
  obtain ⟨a, ha, rfl⟩ := Option.map_eq_some_iff.1 h
  exact ⟨a, (Node.mem_of_sizeAt? ha).1, rfl⟩

lemma size?_eq (h : (g.node n).Regular) (dim : Nat) :
    g.size? n dim = ((g.node n).labels .shape)[dim]?.map g.target := by
  rw [size?, h.sizeAt?_eq, Option.map_map]
  rfl

end Graph

end KernelFusion
