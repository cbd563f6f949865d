/-
Frames do not overlap, and a request gets the first gap that is long enough.

The frames in use stand in a row. The search walks along it and keeps the end of the last frame it
has passed, so it gives the lowest start at which a stretch of the requested length meets no frame.
-/
import KernelFusion.Proofs.Memory.Registry

namespace KernelFusion

open List

/-- A frame has words, and it ends where its last word does. -/
structure Frame.Proper (f : Frame) : Prop where
  size_pos : 0 < f.size.toNat
  stop_eq : f.stop.toNat = f.start.toNat + f.size.toNat

lemma Frame.Proper.disjoint_iff {f : Frame} (hf : f.Proper) {s size : ℕ} (hsize : 0 < size) :
    Disjoint (Set.Ico s (s + size)) f.span ↔ s + size ≤ f.start.toNat ∨ f.stop.toNat ≤ s := by
  have hpos := hf.size_pos
  have hstop := hf.stop_eq
  rw [Frame.span, Set.Ico_disjoint_Ico]
  omega

namespace Frames

variable {frames : Frames} {f e : Frame} {size : UInt32} {s : ℕ}

/-- The frames stand in a row that begins at or behind a given word. -/
def InRow (s : ℕ) : Frames → Prop
  | [] => True
  | f :: rest => s ≤ f.start.toNat ∧ f.Proper ∧ InRow f.stop.toNat rest

/-- Nothing that is registered meets the stretch of words. -/
def Clear (frames : Frames) (size s : ℕ) : Prop :=
  ∀ f ∈ frames, Disjoint (Set.Ico s (s + size)) f.span

/-! ### Rows of frames -/

lemma inRow_iff : InRow s frames ↔ Apart frames ∧ ∀ f ∈ frames, s ≤ f.start.toNat ∧ f.Proper := by
  induction frames generalizing s with
  | nil => simp [InRow, Apart.nil]
  | cons f rest ih =>
    rw [InRow, ih, Apart.cons_iff, forall_mem_cons]
    constructor
    · rintro ⟨hle, hf, hapart, hrest⟩
      have hstop := hf.stop_eq
      have hpos := hf.size_pos
      refine ⟨⟨hstop, fun e he => ⟨?_, (hrest e he).1⟩, hapart⟩, ⟨hle, hf⟩, fun e he =>
        ⟨?_, (hrest e he).2⟩⟩
      · have hbehind := (hrest e he).1
        exact UInt32.lt_iff_toNat_lt.2 (by omega)
      · have hbehind := (hrest e he).1
        omega
    · rintro ⟨⟨-, hbehind, hapart⟩, ⟨hle, hf⟩, hrest⟩
      exact ⟨hle, hf, hapart, fun e he => ⟨(hbehind e he).2, (hrest e he).2⟩⟩

section

variable (h : InRow s frames)

include h

lemma InRow.apart : Apart frames := (inRow_iff.1 h).1

lemma InRow.le_start (hf : f ∈ frames) : s ≤ f.start.toNat ∧ f.Proper := (inRow_iff.1 h).2 f hf

lemma InRow.pairwise :
    frames.Pairwise fun f e => f.start < e.start ∧ f.stop ≤ e.start :=
  h.apart.ascending.and (h.apart.apart.imp UInt32.le_iff_toNat_le.2)

lemma InRow.required_eq :
    frames.required.toNat = (frames.map fun f => f.stop.toNat).foldr max 0 := by
  apply Nat.le_antisymm
  · cases hlast : frames.getLast? with
    | none =>
      rw [required, hlast]
      exact Nat.zero_le _
    | some f =>
      rw [required, hlast]
      exact le_max_of_le (mem_map_of_mem (mem_of_getLast? hlast)) (Nat.le_refl _)
  · refine max_le_of_forall_le _ _ fun w hw => ?_
    obtain ⟨f, hf, rfl⟩ := mem_map.1 hw
    exact h.apart.stop_le_required hf

lemma InRow.release (start : UInt32) : InRow s (frames.release start) :=
  inRow_iff.2 ⟨h.apart.release start, fun _ hf => h.le_start (mem_release.1 hf).1⟩

end

/-! ### Requests -/

section

variable (h : InRow 0 frames)

include h

lemma InRow.start_ne_fit (hproper : (frames.fit size).Proper) (he : e ∈ frames) :
    e.start ≠ (frames.fit size).start := by
  intro heq
  have hpos := (h.le_start he).2.size_pos
  rw [h.apart.size_eq_zero hproper.size_pos he heq] at hpos
  exact absurd hpos (by decide)

lemma InRow.register_fit (hproper : (frames.fit size).Proper) :
    InRow 0 (frames.allocate size).2 ∧
      ∀ e, e ∈ (frames.allocate size).2 ↔ e = frames.fit size ∨ e ∈ frames := by
  obtain ⟨hapart, hmem⟩ := h.apart.register hproper.stop_eq (h.apart.beside_fit size)
  have hall : ∀ e, e ∈ frames.register (frames.fit size) ↔ e = frames.fit size ∨
    e ∈ frames := fun e =>
    (hmem e).trans (or_congr_right ⟨And.left, fun he => ⟨he, h.start_ne_fit hproper he⟩⟩)
  refine ⟨inRow_iff.2 ⟨hapart, fun e he => ?_⟩, hall⟩
  rcases (hall e).1 he with rfl | he
  · exact ⟨Nat.zero_le _, hproper⟩
  · exact h.le_start he

variable (hfits : frames.Fits size)

include hfits

lemma InRow.fit_proper : (frames.fit size).Proper := ⟨hfits.size_pos, h.apart.stop_fit hfits⟩

lemma InRow.allocate :
    InRow 0 (frames.allocate size).2 ∧
      ∀ e, e ∈ (frames.allocate size).2 ↔ e = frames.fit size ∨ e ∈ frames :=
  h.register_fit (h.fit_proper hfits)

lemma InRow.isLeast_fit :
    IsLeast {s | frames.Clear size.toNat s} (frames.fit size).start.toNat := by
  have hclear : ∀ s, frames.Clear size.toNat s ↔ ∀ f ∈ frames, Beside f size.toNat s := fun s =>
    forall₂_congr fun _ hf => (h.le_start hf).2.disjoint_iff hfits.size_pos
  obtain ⟨-, hbeside, hleast, -⟩ := h.apart.gap_spec size 0 fun _ _ => Nat.zero_le _
  exact ⟨(hclear _).2 hbeside, fun s hs => hleast s (Nat.zero_le s) ((hclear s).1 hs)⟩

end

/-! ### Runs of the allocator -/

/-- What requests that fit and releases of any frames lead to. -/
inductive Reachable : Frames → Prop
  | empty : Reachable []
  | allocate {frames : Frames} {size : UInt32} :
    Reachable frames → frames.Fits size → Reachable (frames.allocate size).2
  | release {frames : Frames} (f : Frame) : Reachable frames → Reachable (frames.release f.start)

lemma Reachable.inRow (h : Reachable frames) : InRow 0 frames := by
  induction h with
  | empty => trivial
  | allocate _ hfits ih => exact (ih.allocate hfits).1
  | release f _ ih => exact ih.release f.start

/-- In every state that requests and releases lead to: frames have words and their ends are not
wrapped around, each one ends before the next begins, and the memory they need is the greatest end.
A request that fits keeps all frames and adds one of its length, with the lowest start at which it
meets none of them. -/
theorem Reachable.first_fit (h : Reachable frames) :
    (∀ f ∈ frames, f.Proper) ∧
      (frames.Pairwise fun f e => f.start < e.start ∧ f.stop ≤ e.start) ∧
      frames.required.toNat = (frames.map fun f => f.stop.toNat).foldr max 0 ∧
      ∀ size, frames.Fits size →
        (∀ e, e ∈ (frames.allocate size).2 ↔ e = (frames.allocate size).1 ∨ e ∈ frames) ∧
        (frames.allocate size).1.size = size ∧ (frames.allocate size).1.Proper ∧
        IsLeast {s | frames.Clear size.toNat s} (frames.allocate size).1.start.toNat := by
  have hrow := h.inRow
  refine ⟨fun f hf => (hrow.le_start hf).2, hrow.pairwise, hrow.required_eq, fun size hfits => ?_⟩
  exact ⟨(hrow.allocate hfits).2, rfl, hrow.fit_proper hfits, hrow.isLeast_fit hfits⟩

/-- Three words behind a hole of two: a request of one word gets the first word of the hole. -/
theorem first_fit_hole : Reachable [⟨2, 3, 5⟩] ∧ Fits [⟨2, 3, 5⟩] 1 ∧
    (allocate [⟨2, 3, 5⟩] 1).1 = ⟨0, 1, 1⟩ ∧
    IsLeast {s | Clear [⟨2, 3, 5⟩] 1 s} 0 := by
  have hreach : Reachable [⟨2, 3, 5⟩] :=
    have hone : Reachable [⟨0, 2, 2⟩] := @Reachable.allocate [] 2 .empty ⟨by decide, by decide⟩
    have htwo : Reachable [⟨0, 2, 2⟩, ⟨2, 3, 5⟩] :=
      @Reachable.allocate [⟨0, 2, 2⟩] 3 hone ⟨by decide, by decide⟩
    htwo.release ⟨0, 2, 2⟩
  have hfits : Fits [⟨2, 3, 5⟩] 1 := ⟨by decide, by decide⟩
  exact ⟨hreach, hfits, by decide, (hreach.first_fit.2.2.2 1 hfits).2.2.2⟩

end Frames

end KernelFusion
