/-
Freeing undoes a request.

A request that is admitted gets a stretch that meets no registered frame, so registering it
replaces nothing. A release is a filter by starts, and different frames of a row have different
starts.
-/
import KernelFusion.Proofs.Memory.FirstFit
import Mathlib.Data.List.Nodup

namespace KernelFusion.Frames

open List

variable {frames : Frames} {f e : Frame} {size : UInt32} {s : ℕ} {freed : List Frame}

/-! ### Requests -/

/-- A request of at least one word whose frame does not run over the last word. There may be less
room than that behind the last frame, if a gap in front of it is long enough. -/
structure Admits (frames : Frames) (size : UInt32) : Prop where
  pos : 1 ≤ size
  exact : (frames.fit size).start.toNat + size.toNat < 2 ^ 32

lemma Admits.proper (h : frames.Admits size) : (frames.fit size).Proper where
  size_pos := UInt32.le_iff_toNat_le.1 h.pos
  stop_eq := by
    show ((frames.fit size).start + size).toNat = _
    rw [UInt32.toNat_add, Nat.mod_eq_of_lt h.exact]
    rfl

lemma release_register (hne : ∀ e ∈ frames, e.start ≠ f.start) :
    (frames.register f).release f.start = frames := by
  have hall : ∀ {l : Frames}, (∀ e ∈ l, e.start ≠ f.start) → l.release f.start = l := fun hl =>
    filter_eq_self.2 fun e he => decide_eq_true (hl e he)
  induction frames with
  | nil => simp [register, release]
  | cons e rest ih =>
    obtain ⟨he, hrest⟩ := forall_mem_cons.1 hne
    have hcons : ∀ l : Frames, release (e :: l) f.start = e :: l.release f.start := fun l =>
      filter_cons_of_pos (decide_eq_true he)
    have hself : ∀ l : Frames, release (f :: l) f.start = l.release f.start := fun l =>
      filter_cons_of_neg (by simp)
    rw [register]
    split
    · rw [hself, hall hne]
    · rw [if_neg (Ne.symm he), hcons, ih hrest]

/-! ### Releases -/

/-- Takes back several frames, one after the other. -/
def releaseAll (frames : Frames) (freed : List Frame) : Frames :=
  freed.foldl (fun frames f => frames.release f.start) frames

lemma releaseAll_eq (frames : Frames) (freed : List Frame) :
    frames.releaseAll freed = frames.filter fun e => ∀ f ∈ freed, e.start ≠ f.start := by
  unfold releaseAll
  induction freed generalizing frames with
  | nil => simp
  | cons f freed ih =>
    rw [foldl_cons, ih, release, filter_filter]
    congr 1
    funext e
    simp [Bool.and_comm]

lemma releaseAll_of_perm {freed' : List Frame} (hperm : freed.Perm freed') :
    frames.releaseAll freed = frames.releaseAll freed' := by
  rw [releaseAll_eq, releaseAll_eq]
  refine filter_congr fun e _ => ?_
  simp only [decide_eq_decide]
  exact ⟨fun h f hf => h f (hperm.mem_iff.2 hf), fun h f hf => h f (hperm.mem_iff.1 hf)⟩

lemma InRow.eq_of_start_eq (h : InRow s frames) (he : e ∈ frames) (hf : f ∈ frames)
    (heq : e.start = f.start) : e = f := by
  have hstarts : (frames.map Frame.start).Nodup :=
    pairwise_map.2 (h.pairwise.imp fun hlt => UInt32.ne_of_lt hlt.1)
  exact inj_on_of_nodup_map hstarts he hf heq

lemma InRow.mem_releaseAll (h : InRow s frames) (hfreed : freed ⊆ frames) :
    e ∈ frames.releaseAll freed ↔ e ∈ frames ∧ e ∉ freed := by
  rw [releaseAll_eq, mem_filter, decide_eq_true_iff]
  refine and_congr_right fun he => ⟨fun hne hmem => hne e hmem rfl, fun hmem f hf heq => ?_⟩
  rw [h.eq_of_start_eq he (hfreed hf) heq] at hmem
  exact hmem hf

lemma releaseAll_eq_nil (hall : frames ⊆ freed) : frames.releaseAll freed = [] := by
  rw [releaseAll_eq, filter_eq_nil_iff]
  intro e he hne
  exact decide_eq_true_iff.1 hne e (hall he) rfl

/-! ### Runs of the allocator -/

/-- What admitted requests and releases of any frames lead to. -/
inductive Attained : Frames → Prop
  | empty : Attained []
  | allocate {frames : Frames} {size : UInt32} :
    Attained frames → frames.Admits size → Attained (frames.allocate size).2
  | release {frames : Frames} (f : Frame) : Attained frames → Attained (frames.release f.start)

lemma Attained.inRow (h : Attained frames) : InRow 0 frames := by
  induction h with
  | empty => trivial
  | allocate _ hadmits ih => exact (ih.register_fit hadmits.proper).1
  | release f _ ih => exact ih.release f.start

/-- In every state that admitted requests and releases lead to: taking back the frame that an
admitted request got gives the frames before the request; taking back any frames leaves the other
ones, in whatever order they are taken back; and once all are taken back no memory is needed and
every request starts at word zero. -/
theorem Attained.release_undoes (h : Attained frames) :
    (∀ size, frames.Admits size →
      (frames.allocate size).2.release (frames.allocate size).1.start = frames) ∧
    (∀ freed : List Frame, freed ⊆ frames →
      (∀ e, e ∈ frames.releaseAll freed ↔ e ∈ frames ∧ e ∉ freed) ∧
      ∀ freed' : List Frame, freed.Perm freed' →
      frames.releaseAll freed' = frames.releaseAll freed) ∧
    ∀ freed : List Frame, frames ⊆ freed →
      (frames.releaseAll freed).required = 0 ∧
      ∀ size, ((frames.releaseAll freed).allocate size).1.start = 0 := by
  have hrow := h.inRow
  refine ⟨fun size hadmits => ?_, fun freed hfreed => ?_, fun freed hall => ?_⟩
  · exact release_register fun e he => hrow.start_ne_fit hadmits.proper he
  · exact ⟨fun e => hrow.mem_releaseAll hfreed, fun freed' hperm => (releaseAll_of_perm hperm).symm⟩
  · rw [releaseAll_eq_nil hall]
    exact ⟨rfl, fun _ => rfl⟩

/-- The last frame ends at the last word, so that a request of two words finds room only in front of
the first one. -/
theorem release_undoes_full :
    Attained [⟨2, 3, 5⟩, ⟨5, 4294967290, 4294967295⟩] ∧
    Admits [⟨2, 3, 5⟩, ⟨5, 4294967290, 4294967295⟩] 2 ∧
    allocate [⟨2, 3, 5⟩, ⟨5, 4294967290, 4294967295⟩] 2 =
      (⟨0, 2, 2⟩, [⟨0, 2, 2⟩, ⟨2, 3, 5⟩, ⟨5, 4294967290, 4294967295⟩]) ∧
    release [⟨0, 2, 2⟩, ⟨2, 3, 5⟩, ⟨5, 4294967290, 4294967295⟩] 0 =
      [⟨2, 3, 5⟩, ⟨5, 4294967290, 4294967295⟩] ∧
    (releaseAll [⟨2, 3, 5⟩, ⟨5, 4294967290, 4294967295⟩]
      [⟨5, 4294967290, 4294967295⟩, ⟨2, 3, 5⟩]).required = 0 := by
  have hone : Attained [⟨0, 2, 2⟩] := @Attained.allocate [] 2 .empty ⟨by decide, by decide⟩
  have htwo : Attained [⟨0, 2, 2⟩, ⟨2, 3, 5⟩] :=
    @Attained.allocate [⟨0, 2, 2⟩] 3 hone ⟨by decide, by decide⟩
  have hthree : Attained [⟨0, 2, 2⟩, ⟨2, 3, 5⟩, ⟨5, 4294967290, 4294967295⟩] :=
    @Attained.allocate [⟨0, 2, 2⟩, ⟨2, 3, 5⟩] 4294967290 htwo ⟨by decide, by decide⟩
  have hfull : Attained [⟨2, 3, 5⟩, ⟨5, 4294967290, 4294967295⟩] := hthree.release ⟨0, 2, 2⟩
  have hadmits : Admits [⟨2, 3, 5⟩, ⟨5, 4294967290, 4294967295⟩] 2 := ⟨by decide, by decide⟩
  obtain ⟨hback, -, hall⟩ := hfull.release_undoes
  exact ⟨hfull, hadmits, by decide, hback 2 hadmits, (hall _ (by decide)).1⟩

end KernelFusion.Frames
