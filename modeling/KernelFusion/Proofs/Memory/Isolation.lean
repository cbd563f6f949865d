/-
Tensors in memory do not disturb each other.

Every live tensor owns a registered frame that the buffer covers, and a new one gets a frame that
meets no registered one. But the number of elements is a product of words: where it wraps around to
nothing, a tensor with sides gets an empty frame at a start another tensor may get as well.
-/
import KernelFusion.Memory.Heap
import KernelFusion.Proofs.Memory.FirstFit
import KernelFusion.Proofs.Number.Word
import Mathlib.Data.List.Nodup

namespace KernelFusion

open List

/-- A live tensor, and what it was filled with if it was. -/
structure Tenant where
  buffer : Buffer
  data : Option (List UInt32)
deriving DecidableEq, Repr

namespace Heap

variable {h : Heap} {shape : List ℤ} {data : List UInt32} {b : Buffer} {t : Tenant}
  {live : List Tenant} {P : List ℤ → Prop}

/-- A tensor can be made: each of its sides is at least one, and one and a half times the end of its
frame is still a word. -/
structure Fits (h : Heap) (shape : List ℤ) : Prop where
  sides : ∀ d ∈ shape, 1 ≤ d
  stop_lt : 3 * (h.frames.fit (word (volume shape))).stop.toNat < 2 ^ 32

/-- Runs that make tensors of the shapes allowed by `P` and free live ones, with the tensors that
are alive at the end. Reading a tensor changes nothing. -/
inductive Reachable (P : List ℤ → Prop) : Heap → List Tenant → Prop
  | fresh : Reachable P {} []
  | allocate {h : Heap} {live : List Tenant} {shape : List ℤ} :
    Reachable P h live → h.Fits shape → P shape →
      Reachable P (h.allocate shape).2 (⟨(h.allocate shape).1, none⟩ :: live)
  | allocateWith {h : Heap} {live : List Tenant} {shape : List ℤ} {data : List UInt32} :
    Reachable P h live → h.Fits shape → P shape → (data.length : ℤ) = elements shape →
      Reachable P (h.allocateWith shape data).2
        (⟨(h.allocateWith shape data).1, some data⟩ :: live)
  | free {h : Heap} {live : List Tenant} {t : Tenant} :
    Reachable P h live → t ∈ live → Reachable P (h.free t.buffer) (live.erase t)

/-! ### Words of a tensor -/

lemma read_congr {h' : Heap} (heq : ∀ i, b.frame.start.toNat ≤ i →
    i < b.frame.start.toNat + b.size.toNat → h'.words.get i = h.words.get i) :
    h'.read b = h.read b := by
  refine map_congr_left fun i hi => heq _ (Nat.le_add_right _ _) ?_
  have hlt := mem_range.1 hi
  omega

lemma grown_spec {f : Frame} (hstop : 3 * f.stop.toNat < 2 ^ 32) :
    f.stop.toNat ≤ (h.grown f).size ∧ h.words.size ≤ (h.grown f).size ∧
      ∀ i, (h.grown f).get i = h.words.get i := by
  unfold grown
  by_cases hlt : h.words.size < f.stop.toNat
  · have hsize : (f.stop * 3 / 2).toNat = f.stop.toNat * 3 / 2 := by
      rw [UInt32.toNat_div, UInt32.toNat_mul]
      have h3 : (3 : UInt32).toNat = 3 := rfl
      have h2 : (2 : UInt32).toNat = 2 := rfl
      rw [h3, h2, Nat.mod_eq_of_lt (by omega)]
    rw [if_pos hlt, Words.size_resize, hsize]
    exact ⟨by omega, by omega, fun i => Words.get_resize_of_le (by omega) i⟩
  · rw [if_neg hlt]
    exact ⟨by omega, Nat.le_refl _, fun i => rfl⟩

/-! ### What every run keeps -/

/-- The live tensors own frames that the buffer covers, and they hold what they were filled with. -/
structure Sound (h : Heap) (live : List Tenant) : Prop where
  row : Frames.InRow 0 h.frames
  stop_lt : ∀ f ∈ h.frames, 3 * f.stop.toNat < 2 ^ 32
  covered : ∀ f ∈ h.frames, f.stop.toNat ≤ h.words.size
  serials : h.live = live.map fun t => t.buffer.serial
  recent : ∀ t ∈ live, t.buffer.serial < h.next
  distinct : (live.map fun t => t.buffer.serial).Nodup
  starts : (live.map fun t => t.buffer.frame.start).Nodup
  owned : ∀ t ∈ live, t.buffer.frame ∈ h.frames
  size_eq : ∀ t ∈ live, (t.buffer.frame.size.toNat : ℤ) = t.buffer.size
  filled : ∀ t ∈ live, ∀ data, t.data = some data → h.read t.buffer = data

section

variable (hs : h.Sound live)

include hs

/-- A frame of at least one word and less than `2 ^ 31` fits behind the frames of a run. -/
lemma Sound.fits (hpos : 0 < elements shape) : h.frames.Fits (word (volume shape)) := by
  have hsize := toNat_word_volume hpos.le
  have hlt : elements shape < 2 ^ 31 := signed_lt _
  refine ⟨UInt32.le_iff_toNat_le.2 (by show 1 ≤ _; omega), ?_⟩
  have hreq : 3 * h.frames.required.toNat < 2 ^ 32 := by
    rw [Frames.required]
    cases hlast : h.frames.getLast? with
    | none => decide
    | some f => exact hs.stop_lt f (mem_of_getLast? hlast)
  omega

lemma Sound.beside_fit (ht : t ∈ live) (size : UInt32) :
    (h.frames.fit size).start.toNat + size.toNat ≤ t.buffer.frame.start.toNat ∨
      t.buffer.frame.start.toNat + t.buffer.size.toNat ≤ (h.frames.fit size).start.toNat := by
  have hmem := hs.owned t ht
  have hstop := hs.row.apart.stop_eq _ hmem
  have heq := hs.size_eq t ht
  have hbeside := hs.row.apart.beside_fit size _ hmem
  rw [Frames.Beside] at hbeside
  omega

/-- A new tensor keeps the run sound, whatever it is filled with, as long as the words of the other
tensors stay. -/
lemma Sound.extend (hfits : h.Fits shape) (hpos : 0 < elements shape) {words : Words}
    {data : Option (List UInt32)}
    (hsize : (h.grown (h.frames.fit (word (volume shape)))).size ≤ words.size)
    (hwords : ∀ t ∈ live, ∀ i, t.buffer.frame.start.toNat ≤ i →
      i < t.buffer.frame.start.toNat + t.buffer.size.toNat → words.get i = h.words.get i)
    (hdata : ∀ d, data = some d →
      read { (h.allocate shape).2 with words := words } (h.allocate shape).1 = d) :
    Sound { (h.allocate shape).2 with words := words } (⟨(h.allocate shape).1, data⟩ :: live) := by
  have hfit := hs.fits hpos
  obtain ⟨hrow, hmem⟩ := hs.row.allocate hfit
  obtain ⟨hstop, hgrown, -⟩ := grown_spec (h := h) hfits.stop_lt
  refine
    { row := hrow
      stop_lt := fun f hf => ?_
      covered := fun f hf => ?_
      serials := congrArg (cons _) hs.serials
      recent := fun t ht => ?_
      distinct := nodup_cons.2 ⟨fun hmem => ?_, hs.distinct⟩
      starts := nodup_cons.2 ⟨fun hmem => ?_, hs.starts⟩
      owned := fun t ht => ?_
      size_eq := fun t ht => ?_
      filled := fun t ht d hd => ?_ }
  · rcases (hmem f).1 hf with rfl | hf
    · exact hfits.stop_lt
    · exact hs.stop_lt f hf
  · rcases (hmem f).1 hf with rfl | hf
    · exact hstop.trans hsize
    · exact (hs.covered f hf).trans (hgrown.trans hsize)
  · rcases mem_cons.1 ht with rfl | ht
    · exact Nat.lt_succ_self _
    · exact (hs.recent t ht).trans (Nat.lt_succ_self _)
  · obtain ⟨u, hu, heq⟩ := mem_map.1 hmem
    exact (hs.recent u hu).ne heq
  · obtain ⟨u, hu, heq⟩ := mem_map.1 hmem
    exact hs.row.start_ne_fit (hs.row.fit_proper hfit) (hs.owned u hu) heq
  · rcases mem_cons.1 ht with rfl | ht
    · exact (hmem _).2 (.inl rfl)
    · exact (hmem _).2 (.inr (hs.owned t ht))
  · rcases mem_cons.1 ht with rfl | ht
    · exact toNat_word_volume hpos.le
    · exact hs.size_eq t ht
  · rcases mem_cons.1 ht with rfl | ht
    · exact hdata d hd
    · rw [← hs.filled t ht d hd]
      exact read_congr (hwords t ht)

lemma Sound.allocate (hfits : h.Fits shape) (hpos : 0 < elements shape) :
    Sound (h.allocate shape).2 (⟨(h.allocate shape).1, none⟩ :: live) :=
  hs.extend hfits hpos (Nat.le_refl _)
    (fun _ _ i _ _ => (grown_spec (h := h) hfits.stop_lt).2.2 i) (fun _ hd => absurd hd (by simp))

/-- A new buffer holds its data and leaves the others theirs. -/
lemma Sound.allocateWith (hfits : h.Fits shape) (hpos : 0 < elements shape)
    (hlen : (data.length : ℤ) = elements shape) :
    Sound (h.allocateWith shape data).2 (⟨(h.allocateWith shape data).1, some data⟩ :: live) := by
  have hfit := hs.fits hpos
  have hsize := toNat_word_volume hpos.le
  have hproper := (hs.row.fit_proper hfit).stop_eq
  obtain ⟨hstop, -, hget⟩ := grown_spec (h := h) hfits.stop_lt
  refine hs.extend hfits hpos (Nat.le_refl _) (fun t ht i hle hlt => ?_) (fun d hd => ?_)
  · -- the words of the other tensors are outside of what is written
    have hside := hs.beside_fit ht (word (volume shape))
    refine (Words.get_write_of_not_mem ?_).trans (hget i)
    show i < (h.frames.fit (word (volume shape))).start.toNat ∨
      (h.frames.fit (word (volume shape))).start.toNat + data.length ≤ i
    omega
  · cases hd
    have hlen' : (elements shape).toNat = data.length := by omega
    refine ext_getElem (by simp [read, Buffer.size, Heap.allocate, hlen']) fun i hi hi' => ?_
    simp only [read, getElem_map, getElem_range]
    refine (Words.get_write_of_mem (Nat.le_add_right _ _) (by omega) ?_).trans ?_
    · show (h.frames.fit (word (volume shape))).start.toNat + i <
        (h.grown (h.frames.fit (word (volume shape)))).size
      have hfsize : (h.frames.fit (word (volume shape))).size = word (volume shape) := rfl
      rw [hfsize] at hproper
      omega
    · simp only [Nat.add_sub_cancel_left]

/-- A freed tensor takes its own frame along and no other, since no two live tensors share a
start. -/
lemma Sound.free (ht : t ∈ live) : Sound (h.free t.buffer) (live.erase t) := by
  have hnodup : live.Nodup := hs.distinct.of_map
  have hrest : ∀ u ∈ live.erase t, u ≠ t ∧ u ∈ live := fun u hu => hnodup.mem_erase_iff.1 hu
  have hsub : ∀ f ∈ (h.free t.buffer).frames, f ∈ h.frames :=
    fun f hf => (Frames.mem_release.1 hf).1
  refine
    { row := hs.row.release _
      stop_lt := fun f hf => hs.stop_lt f (hsub f hf)
      covered := fun f hf => hs.covered f (hsub f hf)
      serials := ?_
      recent := fun u hu => hs.recent u (hrest u hu).2
      distinct := hs.distinct.sublist (erase_sublist.map _)
      starts := hs.starts.sublist (erase_sublist.map _)
      owned := fun u hu => ?_
      size_eq := fun u hu => hs.size_eq u (hrest u hu).2
      filled := fun u hu => hs.filled u (hrest u hu).2 }
  · show h.live.filter (fun n => decide (n ≠ t.buffer.serial)) = _
    rw [hs.serials, hnodup.erase_eq_filter, filter_map]
    refine congrArg _ (filter_congr fun u hu => ?_)
    by_cases heq : u = t
    · simp [heq]
    · have hne : u.buffer.serial ≠ t.buffer.serial :=
        fun hserial => heq (inj_on_of_nodup_map hs.distinct hu ht hserial)
      simp [heq, hne]
  · obtain ⟨hne, hu⟩ := hrest u hu
    exact Frames.mem_release.2 ⟨hs.owned u hu,
      fun hstart => hne (inj_on_of_nodup_map hs.starts hu ht hstart)⟩

end

lemma Reachable.sound (hreach : Reachable (0 < elements ·) h live) :
    h.Sound live := by
  induction hreach with
  | fresh =>
    exact ⟨trivial, by simp, by simp, rfl, by simp, nodup_nil, nodup_nil, by simp, by simp,
      by simp⟩
  | allocate _ hfits hpos ih => exact ih.allocate hfits hpos
  | allocateWith _ hfits hpos hlen ih => exact ih.allocateWith hfits hpos hlen
  | free _ ht ih => exact ih.free ht

/-- However tensors with at least one element are made, filled and freed: a live tensor that was
filled is read back as it was filled, and the heap has one entry for each live tensor and no
other. -/
theorem Reachable.readback_eq (hreach : Reachable (0 < elements ·) h live) :
    (∀ t ∈ live, ∀ data, t.data = some data → h.readback t.buffer = .ok data) ∧
      h.live = live.map (fun t => t.buffer.serial) ∧ h.live.Nodup := by
  have hs := hreach.sound
  refine ⟨fun t ht data hdata => ?_, hs.serials, hs.serials ▸ hs.distinct⟩
  have hsize := hs.size_eq t ht
  rw [readback, if_neg (by omega), hs.filled t ht data hdata]

/-- Two tensors are filled, the first is freed, and a smaller one takes over its first word. -/
def reused : Heap :=
  let first := ({} : Heap).allocateWith [2] [7, 8]
  let second := first.2.allocateWith [1, 3] [4, 5, 6]
  ((second.2.free first.1).allocate [1]).2

/-- The tensor that stays is read back as it was filled. -/
theorem readback_reused :
    reused.readback ⟨1, [1, 3], ⟨2, 3, 5⟩⟩ = .ok [4, 5, 6] ∧ reused.live = [2, 1] := by
  have hreach : Reachable (0 < elements ·) reused
      [⟨⟨2, [1], ⟨0, 1, 1⟩⟩, none⟩, ⟨⟨1, [1, 3], ⟨2, 3, 5⟩⟩, some [4, 5, 6]⟩] := by
    have hfirst : Reachable (0 < elements ·) _ [⟨⟨0, [2], ⟨0, 2, 2⟩⟩, some [7, 8]⟩] :=
      .allocateWith .fresh ⟨by decide, by decide⟩ (by decide) (by decide)
    have hsecond : Reachable (0 < elements ·) _ [⟨⟨1, [1, 3], ⟨2, 3, 5⟩⟩, some [4, 5, 6]⟩,
        ⟨⟨0, [2], ⟨0, 2, 2⟩⟩, some [7, 8]⟩] :=
      .allocateWith hfirst ⟨by decide, by decide⟩ (by decide) (by decide)
    have hfreed : Reachable (0 < elements ·) _ [⟨⟨1, [1, 3], ⟨2, 3, 5⟩⟩, some [4, 5, 6]⟩] :=
      .free (t := ⟨⟨0, [2], ⟨0, 2, 2⟩⟩, some [7, 8]⟩) hsecond (by decide)
    exact .allocate hfreed ⟨by decide, by decide⟩ (by decide)
  obtain ⟨hread, hlive, -⟩ := hreach.readback_eq
  exact ⟨hread ⟨⟨1, [1, 3], ⟨2, 3, 5⟩⟩, some [4, 5, 6]⟩ (by decide) _ rfl, hlive⟩

/-- A filled tensor, one whose number of elements wraps around to nothing, and another filled
one. -/
def wrapped : Heap :=
  let first := ({} : Heap).allocateWith [4] [1, 2, 3, 4]
  let second := first.2.allocate [65536, 65536]
  (second.2.allocateWith [4] [9, 9, 9, 9]).2

/-- Sides that are at least one are not enough: the empty frame of the second tensor is registered
in front of that of the first, so that the third tensor is placed over the first and fills its
words. -/
theorem not_forall_readback_eq :
    ¬ ∀ (h : Heap) (live : List Tenant), Reachable (fun _ => True) h live →
      ∀ t ∈ live, ∀ data, t.data = some data → h.readback t.buffer = .ok data := by
  intro hall
  have hfirst : Reachable (fun _ => True) _ [⟨⟨0, [4], ⟨0, 4, 4⟩⟩, some [1, 2, 3, 4]⟩] :=
    .allocateWith .fresh ⟨by decide, by decide⟩ trivial (by decide)
  have hsecond : Reachable (fun _ => True) _ [⟨⟨1, [65536, 65536], ⟨0, 0, 0⟩⟩, none⟩,
      ⟨⟨0, [4], ⟨0, 4, 4⟩⟩, some [1, 2, 3, 4]⟩] :=
    .allocate hfirst ⟨by decide, by decide⟩ trivial
  have hthird : Reachable (fun _ => True) wrapped [⟨⟨2, [4], ⟨0, 4, 4⟩⟩, some [9, 9, 9, 9]⟩,
      ⟨⟨1, [65536, 65536], ⟨0, 0, 0⟩⟩, none⟩, ⟨⟨0, [4], ⟨0, 4, 4⟩⟩, some [1, 2, 3, 4]⟩] :=
    .allocateWith hsecond ⟨by decide, by decide⟩ trivial (by decide)
  have hread := hall wrapped _ hthird ⟨⟨0, [4], ⟨0, 4, 4⟩⟩, some [1, 2, 3, 4]⟩ (by decide) _ rfl
  have hover : wrapped.readback ⟨0, [4], ⟨0, 4, 4⟩⟩ = .ok [9, 9, 9, 9] := by rfl
  simp [hover] at hread

end Heap

end KernelFusion
