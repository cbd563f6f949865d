/-
Registered frames, empty ones included.

An empty frame lies beside every stretch, also beside one that starts where it stands; a later
request can get the same start and take its place. All other frames stay.
-/
import KernelFusion.Memory.Frames
import Mathlib.Algebra.GroupWithZero.Nat
import Mathlib.Data.List.MinMax
import Mathlib.Order.CompletePartialOrder
import Mathlib.Order.Interval.Set.Disjoint
import Mathlib.Order.Nat

namespace KernelFusion

open List

/-- The words of a frame. -/
def Frame.span (f : Frame) : Set ℕ := Set.Ico f.start.toNat f.stop.toNat

namespace Frames

variable {frames : Frames} {f e : Frame} {size : UInt32}

/-- Frames are kept by ascending start, their ends are not wrapped around, and each one ends before
the next begins. -/
structure Apart (frames : Frames) : Prop where
  ascending : frames.Pairwise fun f e => f.start < e.start
  stop_eq : ∀ f ∈ frames, f.stop.toNat = f.start.toNat + f.size.toNat
  apart : frames.Pairwise fun f e => f.stop.toNat ≤ e.start.toNat

/-- A stretch of words ends before a frame begins or begins behind its end. -/
def Beside (f : Frame) (size s : ℕ) : Prop := s + size ≤ f.start.toNat ∨ f.stop.toNat ≤ s

/-- A request of a positive length for which there is room. -/
structure Fits (frames : Frames) (size : UInt32) : Prop where
  pos : 1 ≤ size
  room : frames.required.toNat + size.toNat < 2 ^ 32

lemma Fits.size_pos (hfits : frames.Fits size) : 0 < size.toNat := by
  have hpos := hfits.pos
  rw [UInt32.le_iff_toNat_le] at hpos
  exact hpos

namespace Apart

lemma nil : Apart [] := ⟨.nil, by simp, .nil⟩

lemma tail (h : Apart (f :: frames)) : Apart frames :=
  ⟨(pairwise_cons.1 h.ascending).2, fun e he => h.stop_eq e (mem_cons_of_mem _ he),
    (pairwise_cons.1 h.apart).2⟩

lemma cons_iff : Apart (f :: frames) ↔ f.stop.toNat = f.start.toNat + f.size.toNat ∧
    (∀ e ∈ frames, f.start < e.start ∧ f.stop.toNat ≤ e.start.toNat) ∧ Apart frames := by
  constructor
  · intro h
    have hasc := (pairwise_cons.1 h.ascending).1
    have hapart := (pairwise_cons.1 h.apart).1
    exact ⟨h.stop_eq f mem_cons_self, fun e he => ⟨hasc e he, hapart e he⟩, h.tail⟩
  · rintro ⟨hf, hrest, h⟩
    refine ⟨pairwise_cons.2 ⟨fun e he => (hrest e he).1, h.ascending⟩, fun e he => ?_,
      pairwise_cons.2 ⟨fun e he => (hrest e he).2, h.apart⟩⟩
    rcases mem_cons.1 he with rfl | he
    · exact hf
    · exact h.stop_eq e he

section

variable (h : Apart frames) (hf : f ∈ frames)

include h hf

lemma of_ne (he : e ∈ frames) (hne : f ≠ e) :
    f.start ≠ e.start ∧ (f.stop.toNat ≤ e.start.toNat ∨ e.stop.toNat ≤ f.start.toNat) := by
  induction frames with
  | nil => cases hf
  | cons d rest ih =>
    obtain ⟨-, hrest, hapart⟩ := cons_iff.1 h
    rcases mem_cons.1 hf with rfl | hf'
    · rcases mem_cons.1 he with rfl | he'
      · exact absurd rfl hne
      · exact ⟨UInt32.ne_of_lt (hrest e he').1, .inl (hrest e he').2⟩
    · rcases mem_cons.1 he with rfl | he'
      · exact ⟨(UInt32.ne_of_lt (hrest f hf').1).symm, .inr (hrest f hf').2⟩
      · exact ih hapart hf' he'

lemma disjoint (he : e ∈ frames) (hne : f ≠ e) :
    Disjoint f.span e.span := by
  rw [Frame.span, Frame.span, Set.Ico_disjoint_Ico]
  have hbeside := (h.of_ne hf he hne).2
  have hfs := h.stop_eq f hf
  have hes := h.stop_eq e he
  omega

lemma stop_le_required :
    f.stop.toNat ≤ frames.required.toNat := by
  cases hlast : frames.getLast? with
  | none =>
    rw [getLast?_eq_none_iff.1 hlast] at hf
    cases hf
  | some e =>
    have hrequired : frames.required = e.stop := by rw [required, hlast]
    rw [hrequired]
    obtain ⟨rest, rfl⟩ := getLast?_eq_some_iff.1 hlast
    rcases mem_append.1 hf with hf | hf
    · have hle := (pairwise_append.1 h.apart).2.2 f hf e (by simp)
      have hstop := h.stop_eq e (by simp)
      omega
    · rw [mem_singleton.1 hf]

/-! ### Requests -/

end

/-- The first gap: wide enough, the lowest such, at the start or behind a frame. -/
lemma gap_spec (size start : UInt32) (h : Apart frames) (hstart : ∀ f ∈ frames,
    start.toNat ≤ f.start.toNat) :
    start.toNat ≤ (gap size start frames).toNat ∧
      (∀ f ∈ frames, Beside f size.toNat (gap size start frames).toNat) ∧
      (∀ s, start.toNat ≤ s → (∀ f ∈ frames, Beside f size.toNat s) →
      (gap size start frames).toNat ≤ s) ∧
      (gap size start frames = start ∨ ∃ f ∈ frames, gap size start frames = f.stop) := by
  induction frames generalizing start with
  | nil => exact ⟨Nat.le_refl _, by simp, fun s hs _ => hs, .inl rfl⟩
  | cons f rest ih =>
    obtain ⟨hf, hrest, hapart⟩ := cons_iff.1 h
    have hle := hstart f mem_cons_self
    have hdiff : (f.start - start).toNat = f.start.toNat - start.toNat :=
      UInt32.toNat_sub_of_le _ _ (UInt32.le_iff_toNat_le.2 hle)
    rw [gap]
    by_cases hfits : size ≤ f.start - start
    · -- the gap in front of the first frame is long enough
      rw [if_pos hfits]
      rw [UInt32.le_iff_toNat_le, hdiff] at hfits
      refine ⟨Nat.le_refl _, fun e he => .inl ?_, fun s hs _ => hs, .inl rfl⟩
      rcases mem_cons.1 he with rfl | he
      · omega
      · have hlt := (hrest e he).2
        omega
    · rw [if_neg hfits]
      rw [UInt32.le_iff_toNat_le, hdiff] at hfits
      obtain ⟨hge, hbeside, hleast, hwhere⟩ := ih f.stop hapart fun e he => (hrest e he).2
      refine ⟨by omega, fun e he => ?_, fun s hs hs' => ?_, .inr ?_⟩
      · rcases mem_cons.1 he with rfl | he
        · exact .inr hge
        · exact hbeside e he
      · -- a stretch that does not fit in front of the frame is behind it
        obtain ⟨hf, hs'⟩ := forall_mem_cons.1 hs'
        rw [Beside] at hf
        exact hleast s (by omega) hs'
      · rcases hwhere with heq | ⟨e, he, heq⟩
        · exact ⟨f, mem_cons_self, heq⟩
        · exact ⟨e, mem_cons_of_mem _ he, heq⟩

variable (h : Apart frames)

include h

/-- Registering a frame replaces the one at its start and keeps all apart. -/
lemma register (hstop : f.stop.toNat = f.start.toNat + f.size.toNat)
    (hbeside : ∀ e ∈ frames, Beside e f.size.toNat f.start.toNat) :
    Apart (frames.register f) ∧
      ∀ e, e ∈ frames.register f ↔ e = f ∨ (e ∈ frames ∧ e.start ≠ f.start) := by
  induction frames with
  | nil => exact ⟨cons_iff.2 ⟨hstop, by simp, h⟩, by simp [Frames.register]⟩
  | cons d rest ih =>
    obtain ⟨hd, hrest, hapart⟩ := cons_iff.1 h
    have hdf := hbeside d mem_cons_self
    -- what stands behind the new frame begins behind its end
    have hbehind : ∀ e ∈ d :: rest, f.start < e.start → f.stop.toNat ≤ e.start.toNat := by
      intro e he hlt
      have hestop := h.stop_eq e he
      rw [UInt32.lt_iff_toNat_lt] at hlt
      rcases hbeside e he with hle | hle
      · omega
      · omega
    rw [Frames.register]
    by_cases hlt : f.start < d.start
    · rw [if_pos hlt]
      have hall : ∀ e ∈ d :: rest, f.start < e.start := by
        intro e he
        rcases mem_cons.1 he with rfl | he
        · exact hlt
        · exact UInt32.lt_trans hlt (hrest e he).1
      refine ⟨cons_iff.2 ⟨hstop, fun e he => ⟨hall e he, hbehind e he (hall e he)⟩, h⟩, fun e => ?_⟩
      rw [mem_cons]
      exact or_congr Iff.rfl ⟨fun he => ⟨he, (UInt32.ne_of_lt (hall e he)).symm⟩, And.left⟩
    · rw [if_neg hlt]
      by_cases heq : f.start = d.start
      · rw [if_pos heq]
        have hall : ∀ e ∈ rest, f.start < e.start := fun e he => heq ▸ (hrest e he).1
        refine ⟨cons_iff.2 ⟨hstop, fun e he => ⟨hall e he,
          hbehind e (mem_cons_of_mem _ he) (hall e he)⟩, hapart⟩, fun e => ?_⟩
        rw [mem_cons, mem_cons]
        refine or_congr Iff.rfl ⟨fun he => ⟨.inr he, (UInt32.ne_of_lt (hall e he)).symm⟩, ?_⟩
        rintro ⟨rfl | he, hne⟩
        · exact absurd heq.symm hne
        · exact he
      · rw [if_neg heq]
        obtain ⟨hrow, hmem⟩ := ih hapart fun e he => hbeside e (mem_cons_of_mem _ he)
        have hdlt : d.start.toNat < f.start.toNat := by
          rw [UInt32.lt_iff_toNat_lt] at hlt
          rw [← UInt32.toNat_inj] at heq
          omega
        refine ⟨cons_iff.2 ⟨hd, fun e he => ?_, hrow⟩, fun e => ?_⟩
        · rcases (hmem e).1 he with rfl | ⟨he, -⟩
          · refine ⟨UInt32.lt_iff_toNat_lt.2 hdlt, ?_⟩
            rcases hdf with hle | hle
            · omega
            · exact hle
          · exact hrest e he
        · have hdne : d.start ≠ f.start := fun heq' => heq heq'.symm
          rw [mem_cons, hmem, mem_cons]
          constructor
          · rintro (rfl | rfl | ⟨he, hne⟩)
            · exact .inr ⟨.inl rfl, hdne⟩
            · exact .inl rfl
            · exact .inr ⟨.inr he, hne⟩
          · rintro (rfl | ⟨rfl | he, hne⟩)
            · exact .inr (.inl rfl)
            · exact .inl rfl
            · exact .inr (.inr ⟨he, hne⟩)

lemma beside_fit (size : UInt32) : ∀ f ∈ frames,
    Beside f size.toNat (frames.fit size).start.toNat :=
  (gap_spec size 0 h fun _ _ => Nat.zero_le _).2.1

lemma stop_fit (hfits : frames.Fits size) :
    (frames.fit size).stop.toNat = (frames.fit size).start.toNat + size.toNat := by
  obtain ⟨-, -, -, hwhere⟩ := gap_spec size 0 h fun _ _ => Nat.zero_le _
  have hle : (gap size 0 frames).toNat ≤ frames.required.toNat := by
    rcases hwhere with heq | ⟨f, hf, heq⟩
    · rw [heq]
      exact Nat.zero_le _
    · rw [heq]
      exact h.stop_le_required hf
  have hroom := hfits.room
  show (gap size 0 frames + size).toNat = (gap size 0 frames).toNat + size.toNat
  rw [UInt32.toNat_add, Nat.mod_eq_of_lt (by omega)]

lemma allocate (hfits : frames.Fits size) :
    Apart (frames.allocate size).2 ∧ ∀ e, e ∈ (frames.allocate size).2 ↔
      e = frames.fit size ∨ (e ∈ frames ∧ e.start ≠ (frames.fit size).start) := by
  exact h.register (h.stop_fit hfits) (h.beside_fit size)

lemma size_eq_zero (hpos : 0 < size.toNat) (hf : f ∈ frames)
    (hstart : f.start = (frames.fit size).start) :
    f.size = 0 := by
  have hstop := h.stop_eq f hf
  have hbeside := h.beside_fit size f hf
  rw [Beside, ← hstart] at hbeside
  rw [← UInt32.toNat_inj]
  show f.size.toNat = 0
  omega

lemma release (start : UInt32) : Apart (frames.release start) := by
  have hsub : (frames.release start).Sublist frames := filter_sublist
  exact ⟨h.ascending.sublist hsub, fun f hf => h.stop_eq f (hsub.subset hf), h.apart.sublist hsub⟩

end Apart

end Frames

end KernelFusion
