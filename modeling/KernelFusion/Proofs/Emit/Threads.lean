/-
Which elements the loops of a kernel visit.

The body of a nest is run once for every choice of values below the bounds. In the linear mode
these are the threads, with a loop for each dimension the coordinates, and with blocks the
coordinates in whole blocks only.
-/
import KernelFusion.Proofs.Emit.Lines
import Mathlib.Data.List.GetD

namespace KernelFusion

open List LoopNest

/-! ### Running a loop nest -/

/-- The value of a bound; an entry that the shape does not have has none. -/
def LoopBound.value? (shape : List UInt32) : LoopBound → Option Nat
  | size dim => shape[dim]?.map UInt32.toNat
  | blocks dim => shape[dim]?.map fun w => w.toNat / blockSize
  | side => some blockSize

namespace LoopNest

/-- The values of the variables with which the body is run, in order. Counting beyond the signed
integers has no result. -/
def iterate (shape : List UInt32) :
    List (LoopVar × LoopBound) → (LoopVar → Nat) → Option (List (LoopVar → Nat))
  | [], values => some [values]
  | (v, bound) :: rest, values => do
    let n ← bound.value? shape
    guard (n < 2 ^ 31)
    let runs ← (range n).mapM fun i => iterate shape rest (Function.update values v i)
    return runs.flatten

/-- The coordinate that the body sees. -/
def coordinate (nest : LoopNest) (values : LoopVar → Nat) (dim : Nat) : Nat :=
  if dim ∈ nest.computed then values (.block dim) * blockSize + values (.lane dim)
  else values (.coordinate dim)

/-- The element that the body works on: the number of its thread or its coordinates. -/
def element (nest : LoopNest) (mode : KernelMode) (rank : Nat)
    (values : LoopVar → Nat) : List Nat :=
  match mode with
  | .linear => [values .thread]
  | _ => (range rank).map (nest.coordinate values)

end LoopNest

/-- The elements of an index space: the numbers of its threads, or the coordinates below its
sizes. -/
def KernelMode.InSpace (mode : KernelMode) (sizes : List Int) (x : List Nat) : Prop :=
  match mode with
  | .linear => ∃ t : Nat, t < volume sizes ∧ x = [t]
  | _ => Forall₂ (fun (c : Nat) s => (c : Int) < s) x sizes

/-- With the shape that a kernel is launched with, the loops run, and they visit every element
exactly once. -/
def LoopNest.VisitsOnce (nest : LoopNest) (mode : KernelMode) (sizes : List Int) : Prop :=
  ∃ runs, iterate (Run.launchShape mode sizes) nest.loops (fun _ => 0) = some runs ∧
    (runs.map (nest.element mode sizes.length)).Nodup ∧
    ∀ x, x ∈ runs.map (nest.element mode sizes.length) ↔ mode.InSpace sizes x

namespace LoopNest

variable {shape : List UInt32} {loops : List (LoopVar × LoopBound)} {qs : List (LoopVar × Nat)}
  {values values' : LoopVar → Nat} {nest : LoopNest} {mode : KernelMode} {sizes : List Int}
  {dim rank : Nat} {x : List Nat}

/-- All choices of values below the given bounds. -/
def valuations : List (LoopVar × Nat) → (LoopVar → Nat) → List (LoopVar → Nat)
  | [], values => [values]
  | (v, n) :: rest, values => (range n).flatMap fun i =>
      valuations rest (Function.update values v i)

/-- The loops have the given bounds, and these are signed integers. -/
def Bounded (shape : List UInt32) (loops : List (LoopVar × LoopBound))
    (qs : List (LoopVar × Nat)) : Prop :=
  Forall₂ (fun loop q => loop.1 = q.1 ∧ loop.2.value? shape = some q.2 ∧ q.2 < 2 ^ 31) loops qs

lemma Bounded.iterate_eq (h : Bounded shape loops qs) (values : LoopVar → Nat) :
    iterate shape loops values = some (valuations qs values) := by
  induction h generalizing values with
  | nil => rfl
  | @cons loop q loops qs hloop _ ih =>
    obtain ⟨v, bound⟩ := loop
    obtain ⟨rfl, hvalue, hlt⟩ := hloop
    have hruns : ((range q.2).mapM fun i => iterate shape loops (Function.update values q.1 i)) =
        some ((range q.2).map fun i => valuations qs (Function.update values q.1 i)) := by
      simp only [ih]
      exact mapM_pure
    simp only [iterate, hvalue, guard, if_pos hlt, Option.bind_eq_bind, Option.bind_some, hruns,
      Option.pure_def, valuations, flatMap_def]

lemma mem_valuations (h : (qs.map Prod.fst).Nodup) : values' ∈ valuations qs values ↔
    (∀ q ∈ qs, values' q.1 < q.2) ∧ ∀ v ∉ qs.map Prod.fst, values' v = values v := by
  induction qs generalizing values with
  | nil => simp [valuations, funext_iff]
  | cons q qs ih =>
    obtain ⟨v, n⟩ := q
    rw [map_cons, nodup_cons] at h
    simp only [valuations, mem_flatMap, mem_range, ih h.2]
    constructor
    · rintro ⟨i, hi, hbelow, hother⟩
      have hv : values' v = i := (hother v h.1).trans (Function.update_self ..)
      refine ⟨forall_mem_cons.2 ⟨hv ▸ hi, hbelow⟩, fun u hu => ?_⟩
      obtain ⟨hne, hu⟩ := not_or.1 (mt mem_cons.2 hu)
      rw [hother u hu, Function.update_of_ne hne]
    · rintro ⟨hbelow, hother⟩
      obtain ⟨hv, hbelow⟩ := forall_mem_cons.1 hbelow
      refine ⟨values' v, hv, hbelow, fun u hu => ?_⟩
      by_cases hne : u = v
      · rw [hne, Function.update_self]
      · rw [Function.update_of_ne hne, hother u (mt mem_cons.1 (not_or.2 ⟨hne, hu⟩))]

lemma nodup_valuations (h : (qs.map Prod.fst).Nodup) : (valuations qs values).Nodup := by
  induction qs generalizing values with
  | nil => exact nodup_singleton values
  | cons q qs ih =>
    obtain ⟨v, n⟩ := q
    rw [map_cons, nodup_cons] at h
    rw [valuations, nodup_flatMap]
    refine ⟨fun i _ => ih h.2, nodup_range.imp fun {i j} hne values' hi hj => hne ?_⟩
    -- the value of the outermost variable tells the runs apart
    rw [mem_valuations h.2] at hi hj
    have hvi := hi.2 v h.1
    have hvj := hj.2 v h.1
    rw [Function.update_self] at hvi hvj
    exact hvi.symm.trans hvj

lemma visitsOnce_iff (hbounded : Bounded (Run.launchShape mode sizes) nest.loops qs)
    (hnodup : (qs.map Prod.fst).Nodup) : nest.VisitsOnce mode sizes ↔
      (∀ a ∈ valuations qs fun _ => 0, ∀ b ∈ valuations qs fun _ => 0,
        nest.element mode sizes.length a = nest.element mode sizes.length b → a = b) ∧
      ∀ x, (∃ a ∈ valuations qs fun _ => 0, nest.element mode sizes.length a = x) ↔
      mode.InSpace sizes x := by
  rw [VisitsOnce, hbounded.iterate_eq]
  constructor
  · rintro ⟨runs, hruns, hnodup, hmem⟩
    obtain rfl := Option.some.inj hruns
    exact ⟨inj_on_of_nodup_map hnodup, fun x => mem_map.symm.trans (hmem x)⟩
  · rintro ⟨hinj, hmem⟩
    exact ⟨_, rfl, Nodup.map_on hinj (nodup_valuations hnodup), fun x => mem_map.trans (hmem x)⟩

/-! ### Coordinates -/

/-- The size of a dimension. -/
def sizeAt (sizes : List Int) (dim : Nat) : Nat := (sizes.getD dim 0).toNat

/-- The sizes of an index space: they are positive and signed integers. -/
def Proper (sizes : List Int) : Prop := ∀ s ∈ sizes, 0 < s ∧ s < 2 ^ 31

lemma Proper.sizeAt_eq (h : Proper sizes) (hdim : dim < sizes.length) :
    (sizeAt sizes dim : Int) = sizes[dim] ∧ 0 < sizeAt sizes dim ∧ sizeAt sizes dim < 2 ^ 31 := by
  have hs := h _ (getElem_mem hdim)
  have hget : sizes.getD dim 0 = sizes[dim] := getD_eq_getElem _ _ hdim
  rw [sizeAt, hget]
  omega

/-- An element lies in the space when each coordinate is below its size. -/
lemma inSpace_iff (hmode : mode ≠ .linear) (h : Proper sizes) : mode.InSpace sizes x ↔
    x.length = sizes.length ∧ ∀ dim < sizes.length, x.getD dim 0 < sizeAt sizes dim := by
  have hspace : mode.InSpace sizes x ↔ Forall₂ (fun (c : Nat) s => (c : Int) < s) x sizes := by
    cases mode with
    | linear => exact absurd rfl hmode
    | multi | linearBlocks | multiBlocks => exact Iff.rfl
  rw [hspace, forall₂_iff_get]
  refine and_congr_right fun hlen => ?_
  constructor
  · intro hall dim hdim
    have hlt := hall dim (hlen ▸ hdim) hdim
    rw [get_eq_getElem, get_eq_getElem] at hlt
    rw [getD_eq_getElem _ _ (hlen ▸ hdim)]
    exact Int.ofNat_lt.1 ((h.sizeAt_eq hdim).1 ▸ hlt)
  · intro hall dim hdim hdim'
    have hlt := hall dim hdim'
    rw [getD_eq_getElem _ _ hdim] at hlt
    rw [get_eq_getElem, get_eq_getElem, ← (h.sizeAt_eq hdim').1]
    exact Int.ofNat_lt.2 hlt

lemma getElem?_launchShape (hmode : mode ≠ .linear) (h : Proper sizes) (hdim : dim < sizes.length) :
    ((Run.launchShape mode sizes)[dim]?).map UInt32.toNat = some (sizeAt sizes dim) := by
  have hshape : Run.launchShape mode sizes = sizes.map word := by
    unfold Run.launchShape
    split
    · exact absurd rfl hmode
    · rfl
  have hs := h _ (getElem_mem hdim)
  have hword := toNat_word hs.1.le (by omega : sizes[dim] < 2 ^ 32)
  rw [hshape, getElem?_map, getElem?_eq_getElem hdim, Option.map_some, Option.map_some]
  exact congrArg some (Int.ofNat.inj (hword.trans (h.sizeAt_eq hdim).1.symm))

lemma element_eq (hmode : mode ≠ .linear) (rank : Nat) (values : LoopVar → Nat) :
    nest.element mode rank values = (range rank).map (nest.coordinate values) := by
  cases mode with
  | linear => exact absurd rfl hmode
  | multi | linearBlocks | multiBlocks => rfl

lemma element_eq_iff (hmode : mode ≠ .linear) (hx : x.length = rank) :
    nest.element mode rank values = x ↔ ∀ dim < rank,
    nest.coordinate values dim = x.getD dim 0 := by
  rw [element_eq hmode]
  constructor
  · rintro rfl dim hdim
    rw [getD_eq_getElem _ _ (by simpa using hdim), getElem_map, getElem_range]
  · intro hall
    refine ext_getElem (by simp [hx]) fun dim hdim hdim' => ?_
    rw [getElem_map, getElem_range, hall dim (hx ▸ hdim'), getD_eq_getElem _ _ hdim']

/-- The values of the variables at an element with the given coordinates. -/
def valueAt (x : List Nat) : LoopVar → Nat
  | .thread => 0
  | .coordinate dim => x.getD dim 0
  | .block dim => x.getD dim 0 / blockSize
  | .lane dim => x.getD dim 0 % blockSize

/-- A nest whose variables the element determines visits each element once. -/
lemma visitsOnce_of_coordinates (hmode : mode ≠ .linear) (h : Proper sizes)
    (hbounded : Bounded (Run.launchShape mode sizes) nest.loops qs)
    (hnodup : (qs.map Prod.fst).Nodup)
    (htell : ∀ a ∈ valuations qs fun _ => 0, ∀ q ∈ qs,
      a q.1 = valueAt (nest.element mode sizes.length a) q.1)
    (hcoordinate : ∀ a : LoopVar → Nat, ∀ x : List Nat, (∀ q ∈ qs, a q.1 = valueAt x q.1) →
      ∀ dim < sizes.length, nest.coordinate a dim = x.getD dim 0)
    (hbelow : ∀ x : List Nat, (∀ q ∈ qs, valueAt x q.1 < q.2) ↔
      ∀ dim < sizes.length, x.getD dim 0 < sizeAt sizes dim) :
    nest.VisitsOnce mode sizes := by
  refine (visitsOnce_iff hbounded hnodup).2 ⟨fun a ha b hb heq => ?_, fun x => ?_⟩
  · funext v
    by_cases hv : v ∈ qs.map Prod.fst
    · obtain ⟨q, hq, rfl⟩ := mem_map.1 hv
      rw [htell a ha q hq, htell b hb q hq, heq]
    · rw [((mem_valuations hnodup).1 ha).2 v hv, ((mem_valuations hnodup).1 hb).2 v hv]
  · rw [inSpace_iff hmode h]
    constructor
    · rintro ⟨a, ha, rfl⟩
      refine ⟨by rw [element_eq hmode]; simp, (hbelow _).1 fun q hq => ?_⟩
      rw [← htell a ha q hq]
      exact ((mem_valuations hnodup).1 ha).1 q hq
    · rintro ⟨hlen, hlt⟩
      -- the variables of other nests stay zero
      let a : LoopVar → Nat := fun v => if v ∈ qs.map Prod.fst then valueAt x v else 0
      have ha : ∀ q ∈ qs, a q.1 = valueAt x q.1 := fun q hq => if_pos (mem_map_of_mem hq)
      refine ⟨a, (mem_valuations hnodup).2 ⟨fun q hq => ?_, fun v hv => if_neg hv⟩, ?_⟩
      · rw [ha q hq]
        exact (hbelow x).2 hlt q hq
      · exact (element_eq_iff hmode hlen).2 (hcoordinate a x ha)

/-! ### The modes -/

/-- A linear nest visits each element once while the volume fits a signed word. -/
lemma visitsOnce_linear_iff (h : Proper sizes) (hne : sizes ≠ []) :
    VisitsOnce ⟨[(.thread, .size 0)], []⟩ .linear sizes ↔ volume sizes < 2 ^ 31 := by
  have hpos : 1 ≤ volume sizes := one_le_volume fun s hs => (h s hs).1
  obtain ⟨s, rest, rfl⟩ := exists_cons_of_ne_nil hne
  have hshape : LoopBound.value? (Run.launchShape .linear (s :: rest)) (.size 0) =
      some (word (volume (s :: rest))).toNat := rfl
  have hword := toNat_word_eq_emod (volume (s :: rest))
  generalize (word (volume (s :: rest))).toNat = n at hshape hword
  have hnodup : ([(LoopVar.thread, n)].map Prod.fst).Nodup := nodup_singleton _
  by_cases hn : n < 2 ^ 31
  · have hbounded : Bounded (Run.launchShape .linear (s :: rest)) [(.thread, .size 0)]
      [(.thread, n)] :=
      .cons ⟨rfl, hshape, hn⟩ .nil
    rw [visitsOnce_iff hbounded hnodup]
    constructor
    · rintro ⟨-, hmem⟩
      by_contra hlarge
      -- the number of threads has wrapped, so the thread behind the last one is left out
      obtain ⟨a, ha, heq⟩ := (hmem [n]).2 ⟨n, by omega, rfl⟩
      have hlt := ((mem_valuations hnodup).1 ha).1 _ (mem_singleton_self _)
      exact absurd (cons.inj heq).1 hlt.ne
    · intro hsmall
      have hvolume : (n : Int) = volume (s :: rest) := by omega
      refine ⟨fun a ha b hb heq => ?_, fun x => ⟨?_, ?_⟩⟩
      · funext v
        by_cases hv : v = .thread
        · rw [hv]
          exact (cons.inj heq).1
        · have hv : v ∉ [(LoopVar.thread, n)].map Prod.fst := mt mem_singleton.1 hv
          rw [((mem_valuations hnodup).1 ha).2 v hv, ((mem_valuations hnodup).1 hb).2 v hv]
      · rintro ⟨a, ha, rfl⟩
        have hlt := ((mem_valuations hnodup).1 ha).1 _ (mem_singleton_self _)
        exact ⟨a .thread, hvolume ▸ Int.ofNat_lt.2 hlt, rfl⟩
      · rintro ⟨i, hi, rfl⟩
        refine ⟨Function.update (fun _ => 0) .thread i, (mem_valuations hnodup).2
          ⟨?_, fun v hv => ?_⟩, rfl⟩
        · rw [forall_mem_singleton, Function.update_self]
          exact Int.ofNat_lt.1 (hvolume ▸ hi)
        · exact Function.update_of_ne (mt mem_singleton.2 hv) _ _
  · -- the bound is no signed integer
    have hnone : iterate (Run.launchShape .linear (s :: rest)) [(.thread, .size 0)]
      (fun _ => 0) = none := by
      rw [iterate, hshape]
      simp only [guard, if_neg hn, Option.bind_eq_bind, Option.bind_some]
      rfl
    refine ⟨?_, fun hsmall => absurd hword (by omega)⟩
    rintro ⟨runs, hruns, -⟩
    rw [hnone] at hruns
    cases hruns

/-- A nest of one loop a dimension visits each element once. -/
lemma visitsOnce_multi (h : Proper sizes) :
    VisitsOnce ⟨(range sizes.length).map fun d => (.coordinate d, .size d), []⟩
    .multi sizes := by
  have hmode : KernelMode.multi ≠ .linear := by decide
  have hbounded : Bounded (Run.launchShape .multi sizes)
      ((range sizes.length).map fun d => (.coordinate d, .size d))
      ((range sizes.length).map fun d => (.coordinate d, sizeAt sizes d)) := by
    rw [Bounded, forall₂_map_left_iff, forall₂_map_right_iff, forall₂_same]
    intro d hd
    have hd := mem_range.1 hd
    exact ⟨rfl, getElem?_launchShape hmode h hd, (h.sizeAt_eq hd).2.2⟩
  refine visitsOnce_of_coordinates hmode h hbounded ?_ ?_ ?_ ?_
  · rw [map_map]
    exact nodup_range.map fun d e heq => LoopVar.coordinate.inj heq
  · intro a _ q hq
    obtain ⟨d, hd, rfl⟩ := mem_map.1 hq
    rw [element_eq hmode, valueAt, getD_eq_getElem _ _ (by simpa using hd), getElem_map,
      getElem_range]
    rfl
  · intro a x ha d hd
    exact ha (.coordinate d, sizeAt sizes d) (mem_map.2 ⟨d, mem_range.2 hd, rfl⟩)
  · intro x
    rw [forall_mem_map]
    exact forall_congr' fun d => by rw [mem_range, valueAt]

/-- The loops over blocks and inside of blocks, with their bounds. -/
def blockBounds (sizes : List Int) : List (LoopVar × Nat) :=
  ((range sizes.length).map fun d => (.block d, sizeAt sizes d / blockSize)) ++
    (range sizes.length).map fun d => (.lane d, blockSize)

lemma nodup_blockBounds (sizes : List Int) : ((blockBounds sizes).map Prod.fst).Nodup := by
  rw [blockBounds, map_append, map_map, map_map, nodup_append]
  refine ⟨nodup_range.map fun d e heq => LoopVar.block.inj heq,
    nodup_range.map fun d e heq => LoopVar.lane.inj heq, ?_⟩
  intro v hv u hu heq
  obtain ⟨d, -, rfl⟩ := mem_map.1 hv
  obtain ⟨e, -, rfl⟩ := mem_map.1 hu
  cases heq

lemma forall_mem_blockBounds {P : LoopVar × Nat → Prop} : (∀ q ∈ blockBounds sizes, P q) ↔
    ∀ d < sizes.length, P (.block d, sizeAt sizes d / blockSize) ∧ P (.lane d, blockSize) := by
  simp only [blockBounds, forall_mem_append, forall_mem_map, mem_range, ← forall_and]

/-- The nest of the mode with blocks. -/
def blockNest (rank : Nat) : LoopNest :=
  ⟨((range rank).map fun d => (.block d, .blocks d)) ++ (range rank).map fun d =>
    (.lane d, .side), range rank⟩

lemma coordinate_blockNest {d : Nat} (hd : d < rank) (a : LoopVar → Nat) :
    (blockNest rank).coordinate a d = a (.block d) * blockSize + a (.lane d) :=
    if_pos (mem_range.2 hd)

lemma bounded_blockNest (h : Proper sizes) :
    Bounded (Run.launchShape .multiBlocks sizes) (blockNest sizes.length).loops
    (blockBounds sizes) := by
  refine rel_append ?_ ?_
  · rw [forall₂_map_left_iff, forall₂_map_right_iff, forall₂_same]
    intro d hd
    have hd := mem_range.1 hd
    have hsize := getElem?_launchShape (by decide : KernelMode.multiBlocks ≠ .linear) h hd
    refine ⟨rfl, ?_, (Nat.div_le_self _ _).trans_lt (h.sizeAt_eq hd).2.2⟩
    have hblocks := congrArg (Option.map fun n => n / blockSize) hsize
    rwa [Option.map_map] at hblocks
  · rw [forall₂_map_left_iff, forall₂_map_right_iff, forall₂_same]
    exact fun d _ => ⟨rfl, rfl, (by decide : blockSize < 2 ^ 31)⟩

/-- A blocked nest visits each element once when blocks divide every size. -/
lemma visitsOnce_blocks_iff (h : Proper sizes) :
    (blockNest sizes.length).VisitsOnce .multiBlocks sizes ↔ ∀ s ∈ sizes,
    (blockSize : Int) ∣ s := by
  have hmode : KernelMode.multiBlocks ≠ .linear := by decide
  have hnodup := nodup_blockBounds sizes
  have hdvd : (∀ s ∈ sizes, (blockSize : Int) ∣ s) ↔ ∀ d < sizes.length,
    blockSize ∣ sizeAt sizes d := by
    rw [forall_mem_iff_getElem]
    refine forall_congr' fun d => forall_congr' fun hd => ?_
    rw [← (h.sizeAt_eq hd).1, Int.natCast_dvd_natCast]
  rw [hdvd]
  constructor
  · intro hvisits d hd
    obtain ⟨-, hmem⟩ := (visitsOnce_iff (bounded_blockNest h) hnodup).1 hvisits
    -- the last element of all
    obtain ⟨a, ha, heq⟩ :=
      (hmem ((range sizes.length).map fun d => sizeAt sizes d - 1)).2 <| by
      refine (inSpace_iff hmode h).2 ⟨by simp, fun d hd => ?_⟩
      rw [getD_eq_getElem _ _ (by simpa using hd), getElem_map, getElem_range]
      exact Nat.sub_lt (h.sizeAt_eq hd).2.1 Nat.one_pos
    have hlast := (element_eq_iff hmode (by simp)).1 heq d hd
    rw [coordinate_blockNest hd, getD_eq_getElem _ _ (by simpa using hd), getElem_map,
      getElem_range] at hlast
    obtain ⟨hblock, hlane⟩ := forall_mem_blockBounds.1 ((mem_valuations hnodup).1 ha).1 d hd
    have hpos := (h.sizeAt_eq hd).2.1
    simp only [blockSize] at hlast hblock hlane ⊢
    omega
  · intro hall
    refine visitsOnce_of_coordinates hmode h (bounded_blockNest h) hnodup (fun a ha => ?_)
      (fun a x ha d hd => ?_)
      fun x => ?_
    · refine forall_mem_blockBounds.2 fun d hd => ?_
      obtain ⟨-, hlane⟩ := forall_mem_blockBounds.1 ((mem_valuations hnodup).1 ha).1 d hd
      have hlength : ((blockNest sizes.length).element .multiBlocks sizes.length a).length =
        sizes.length := by
        rw [element_eq hmode, length_map, length_range]
      have hcoordinate := (element_eq_iff hmode hlength).1 rfl d hd
      rw [coordinate_blockNest hd] at hcoordinate
      simp only [valueAt, ← hcoordinate]
      simp only [blockSize] at hlane ⊢
      omega
    · obtain ⟨hblock, hlane⟩ := forall_mem_blockBounds.1 ha d hd
      rw [coordinate_blockNest hd, hblock, hlane]
      exact Nat.div_add_mod' _ _
    · rw [forall_mem_blockBounds]
      refine forall_congr' fun d => forall_congr' fun hd => ?_
      have hd := hall d hd
      simp only [valueAt, blockSize] at hd ⊢
      omega

end LoopNest

/-- The loops of a mode reach all of an index space: the number of threads is a signed integer, or
all sizes are multiples of the side of a block. -/
def KernelMode.Reaches (mode : KernelMode) (sizes : List Int) : Prop :=
  match mode with
  | .linear => volume sizes < 2 ^ 31
  | .multi => True
  | .multiBlocks => ∀ s ∈ sizes, (blockSize : Int) ∣ s
  | .linearBlocks => False

lemma LoopNest.visitsOnce_iff_reaches {nest : LoopNest} {mode : KernelMode} {sizes : List Int}
    (hnest : ofMode mode sizes.length = .ok nest) (h : Proper sizes) (hne : sizes ≠ []) :
    nest.VisitsOnce mode sizes ↔ mode.Reaches sizes := by
  cases mode with
  | linear =>
    obtain rfl := Except.ok.inj hnest
    exact visitsOnce_linear_iff h hne
  | multi =>
    obtain rfl := Except.ok.inj hnest
    exact iff_of_true (visitsOnce_multi h) trivial
  | multiBlocks =>
    obtain rfl := Except.ok.inj hnest
    exact visitsOnce_blocks_iff h
  | linearBlocks => cases hnest

namespace Graph

/-- For every kernel that has a source, and all positive sizes of its index space: the loops around
its body, run with the shape that it is launched with, visit every element exactly once if and only
if the mode reaches all of the index space. -/
theorem kernelSource_visitsOnce_iff {g : Graph} {k : Kernel} {name text : String} {sizes : List Int}
    (hsource : g.kernelSource name k = .ok text) (hrank : sizes.length = k.dim) (hdim : 1 ≤ k.dim)
    (hsizes : LoopNest.Proper sizes) :
    ∃ nest code, LoopNest.ofMode k.mode k.dim = .ok nest ∧
    text = kernelFunction name nest.text code ∧
      (nest.VisitsOnce k.mode sizes ↔ k.mode.Reaches sizes) := by
  rw [kernelSource] at hsource
  obtain ⟨lines, -, hsource⟩ := Except.bind_eq_ok.1 hsource
  obtain ⟨nest, hnest, hsource⟩ := Except.bind_eq_ok.1 hsource
  refine ⟨nest, _, hnest, (Except.ok.inj hsource).symm, ?_⟩
  rw [← hrank] at hnest
  exact visitsOnce_iff_reaches hnest hsizes (ne_nil_of_length_pos (hrank ▸ hdim))

/-- The sine of every element of an input whose size is known at run time only. -/
def sine : List Step :=
  [.act (.input .float (.sizes [-1])) (some "A"), .act (.call (.named "sin") ["A"]) (some "x")]

lemma sine_run : ∃ (g : Graph) (k : Kernel) (text : String),
    g.kernelSource "kernel_0" k = .ok text ∧
    k.kind = .compute ∧ k.mode = .multiBlocks ∧ k.dim = 1 := by
  obtain ⟨f, -, ks, -, k, -, text, hrest⟩ : ∃ f, (do
      Build.prepareIn .multiBlocks .unchecked [2]
      Build.spill
      Build.flatten : Build Unit) (Script.scene sine).graph = .ok ⟨⟩ f ∧ ∃ ks, f.kernels = .ok ks ∧
      ∃ k ∈ ks, ∃ text, f.kernelSource "kernel_0" k = .ok text ∧
        k.kind = .compute ∧ k.mode = .multiBlocks ∧ k.dim = 1 := by decide +kernel
  exact ⟨f, k, text, hrest⟩

theorem kernelSource_visitsOnce_sixteen : ∃ (g : Graph) (k : Kernel) (text : String)
    (nest : LoopNest),
    g.kernelSource "kernel_0" k = .ok text ∧ k.mode = .multiBlocks ∧ k.dim = 1 ∧
    LoopNest.Proper [16] ∧
    LoopNest.ofMode k.mode k.dim = .ok nest ∧ nest.VisitsOnce k.mode [16] := by
  obtain ⟨g, k, text, htext, -, hmode, hdim⟩ := sine_run
  have hsizes : Proper [16] := by simp [Proper]
  have hrank : ([16] : List Int).length = k.dim := hdim.symm
  obtain ⟨nest, -, hnest, -, hiff⟩ := kernelSource_visitsOnce_iff htext hrank hdim.ge hsizes
  refine ⟨g, k, text, nest, htext, hmode, hdim, hsizes, hnest, hiff.2 ?_⟩
  rw [hmode, KernelMode.Reaches]
  decide

/-- With blocks the last elements of a dimension are left out if its size is no multiple of the side
of a block. -/
theorem not_forall_kernelSource_visitsOnce :
    ¬ ∀ (g : Graph) (k : Kernel) (name text : String) (sizes : List Int) (nest : LoopNest),
    k.kind = .compute →
      g.kernelSource name k = .ok text → sizes.length = k.dim → 1 ≤ k.dim → LoopNest.Proper sizes →
      LoopNest.ofMode k.mode k.dim = .ok nest → nest.VisitsOnce k.mode sizes := by
  intro hall
  obtain ⟨g, k, text, htext, hkind, hmode, hdim⟩ := sine_run
  have hsizes : Proper [12] := by simp [Proper]
  have hnest : ofMode k.mode k.dim = .ok (blockNest 1) := by rw [hmode, hdim]; rfl
  have hvisits := hall g k _ text [12] _ hkind htext hdim.symm hdim.ge hsizes hnest
  rw [hmode] at hvisits
  have hdvd := (visitsOnce_blocks_iff hsizes).1 hvisits 12 (mem_singleton_self _)
  revert hdvd
  decide

end Graph

end KernelFusion
