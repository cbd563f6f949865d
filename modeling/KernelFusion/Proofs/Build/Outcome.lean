/-
What an action ends with.

An action ends with a result and a new state, or it fails and leaves a state behind. `Meets` speaks
about both ends at once, `Ends` relates the states before and after, with a relation of its own for
failures, and `Keeps` is the case of one relation for both.
-/
import KernelFusion.Fault
import Mathlib.Data.List.Forall2

namespace KernelFusion

open List

variable {σ α β : Type} {e : Fault} {R : σ → σ → Prop} {bs : List β} {k : α → EStateM Fault σ β}
  {a : α} {x : EStateM Fault σ α}

/-! ### Composition -/

section Equations

variable {x : EStateM Fault σ α} {k : α → EStateM Fault σ β} {s s' s'' : σ} {a : α} {b : β}
  {f : α → EStateM Fault σ PUnit} {l : List α}

lemma bind_of_ok (h : x s = .ok a s') : (x >>= k) s = k a s' := by
  show EStateM.bind x k s = _
  rw [EStateM.bind, h]

lemma bind_of_error (h : x s = .error e s') : (x >>= k) s = .error e s' := by
  show EStateM.bind x k s = _
  rw [EStateM.bind, h]

lemma bind_eq_ok :
    (x >>= k) s = .ok b s'' ↔ ∃ a s', x s = .ok a s' ∧ k a s' = .ok b s'' := by
  cases hx : x s with
  | ok a s' =>
    rw [bind_of_ok hx]
    constructor
    · intro h
      exact ⟨a, s', rfl, h⟩
    · rintro ⟨a, s', heq, h⟩
      cases heq
      exact h
  | error e s' =>
    rw [bind_of_error hx]
    simp

/-- What is seen of a result; of a fault nothing is. -/
def seen (see : α → σ → Option β) : EStateM.Result Fault σ α → Option β
  | .ok a s => see a s
  | .error _ _ => none

lemma exists_of_seen {see : α → σ → Option β} {r : EStateM.Result Fault σ α}
    (h : seen see r = some b) : ∃ a s, r = .ok a s ∧ see a s = some b := by
  cases r with
  | ok a s => exact ⟨a, s, rfl, h⟩
  | error e s => cases h

lemma eq_ok_of_toOption {ε : Type} {x : Except ε α} (h : x.toOption = some a) : x = .ok a := by
  cases x with
  | error e => cases h
  | ok a' => exact congrArg Except.ok (Option.some.inj h)

-- whether an action succeeds, and with what, can be computed

instance decidableExistsOk {q : α → σ → Prop} [∀ a s, Decidable (q a s)] (act : EStateM Fault σ α)
    (s₀ : σ) :
    Decidable (∃ a s, act s₀ = .ok a s ∧ q a s) :=
  decidable_of_iff (seen (fun a s => some (decide (q a s))) (act s₀) = some true) <| by
    constructor
    · intro h
      obtain ⟨a, s, hrun, hq⟩ := exists_of_seen h
      exact ⟨a, s, hrun, of_decide_eq_true (Option.some.inj hq)⟩
    · rintro ⟨a, s, hrun, hq⟩
      rw [hrun]
      exact congrArg some (decide_eq_true hq)

instance decidableExistsOkUnit {q : σ → Prop} [DecidablePred q] (act : EStateM Fault σ PUnit)
    (s₀ : σ) :
    Decidable (∃ s, act s₀ = .ok ⟨⟩ s ∧ q s) :=
  decidable_of_iff (∃ u s, act s₀ = .ok u s ∧ q s) ⟨fun h => h.elim fun _ h => h, fun h => ⟨⟨⟩, h⟩⟩

instance decidableExistsExceptOk {ε : Type} {q : α → Prop} [DecidablePred q] (x : Except ε α) :
    Decidable (∃ a, x = .ok a ∧ q a) :=
  decidable_of_iff (∃ a ∈ x.toOption, q a) <| by
    constructor
    · rintro ⟨a, ha, hq⟩
      exact ⟨a, eq_ok_of_toOption ha, hq⟩
    · rintro ⟨a, rfl, hq⟩
      exact ⟨a, rfl, hq⟩

lemma mapM_of_ok {f : α → EStateM Fault σ β} {g : α → β}
    (h : ∀ a ∈ l, f a s = .ok (g a) s) : l.mapM f s = .ok (l.map g) s := by
  induction l with
  | nil => rfl
  | cons a l ih =>
    have hrest := ih fun b hb => h b (mem_cons_of_mem _ hb)
    rw [mapM_cons, bind_of_ok (h a mem_cons_self), bind_of_ok hrest]
    rfl

lemma forM_concat_of_ok {s₁ s₂ : σ} (hrun : l.forM f s = .ok ⟨⟩ s₁)
    (ha : f a s₁ = .ok ⟨⟩ s₂) : (l ++ [a]).forM f s = .ok ⟨⟩ s₂ :=
  (congrFun forM_append s).trans ((bind_of_ok hrun).trans (bind_of_ok ha))

lemma forM_append_cons_eq_ok {before after : List α}
    (hrun : (before ++ a :: after).forM f s = .ok ⟨⟩ s') :
    ∃ s₁ s₂, before.forM f s = .ok ⟨⟩ s₁ ∧ f a s₁ = .ok ⟨⟩ s₂ ∧ after.forM f s₂ = .ok ⟨⟩ s' := by
  obtain ⟨⟨⟩, s₁, hbefore, hrun⟩ := bind_eq_ok.1 ((congrFun forM_append s).symm.trans hrun)
  obtain ⟨⟨⟩, s₂, ha, hafter⟩ := bind_eq_ok.1 hrun
  exact ⟨s₁, s₂, hbefore, ha, hafter⟩

lemma of_mapM_eq_ok [IsPreorder σ R] {Q : α → β → σ → Prop} {f : α → EStateM Fault σ β}
    (hrun : l.mapM f s = .ok bs s') (hstable : ∀ {a b s₁ s₂}, Q a b s₁ → R s₁ s₂ → Q a b s₂)
    (hstep : ∀ a ∈ l, ∀ b s₁ s₂, R s s₁ → f a s₁ = .ok b s₂ → R s₁ s₂ ∧ Q a b s₂) :
    R s s' ∧ Forall₂ (fun a b => Q a b s') l bs := by
  induction l generalizing s bs with
  | nil =>
    obtain ⟨rfl, rfl⟩ := EStateM.Result.ok.inj hrun
    exact ⟨refl_of R s, .nil⟩
  | cons a l ih =>
    rw [mapM_cons] at hrun
    obtain ⟨b, s₁, hb, hrun⟩ := bind_eq_ok.1 hrun
    obtain ⟨bs', s₂, hbs, hpure⟩ := bind_eq_ok.1 hrun
    cases hpure
    obtain ⟨hr₁, hq₁⟩ := hstep a mem_cons_self b s s₁ (refl_of R s) hb
    obtain ⟨hr₂, hrest⟩ := ih hbs fun c hc d s₃ s₄ hr => hstep c (mem_cons_of_mem _ hc) d s₃ s₄
      (trans_of R hr₁ hr)
    exact ⟨trans_of R hr₁ hr₂, .cons (hstable hq₁ hr₂) hrest⟩

end Equations

/-! ### Results without a state -/

namespace Except

variable {x : Except Fault α} {f : α → Except Fault β} {l : List α} {e : Fault}

lemma bind_eq_ok {b : β} : (x >>= f) = .ok b ↔ ∃ a, x = .ok a ∧ f a = .ok b := by
  cases x <;> simp [bind, Except.bind]

lemma bind_eq_error : (x >>= f) = .error e ↔ x = .error e ∨ ∃ a, x = .ok a ∧ f a = .error e := by
  cases x <;> simp [bind, Except.bind]

lemma of_mapM_eq_ok (h : l.mapM f = .ok bs) : Forall₂ (fun a b => f a = .ok b) l bs := by
  induction l generalizing bs with
  | nil =>
    cases h
    exact .nil
  | cons a l ih =>
    obtain ⟨b, hb, h⟩ := bind_eq_ok.1 (mapM_cons.symm.trans h)
    obtain ⟨rest, hrest, h⟩ := bind_eq_ok.1 h
    cases h
    exact .cons hb (ih hrest)

lemma of_mapM_eq_error (h : l.mapM f = .error e) : ∃ a ∈ l, f a = .error e := by
  induction l with
  | nil => cases h
  | cons a l ih =>
    rcases bind_eq_error.1 (mapM_cons.symm.trans h) with h | ⟨b, -, h⟩
    · exact ⟨a, mem_cons_self, h⟩
    · rcases bind_eq_error.1 h with h | ⟨rest, -, h⟩
      · obtain ⟨c, hc, hfc⟩ := ih h
        exact ⟨c, mem_cons_of_mem _ hc, hfc⟩
      · cases h

end Except

/-! ### Both ends of an action -/

/-- Started in `s`, the action ends with a result and a state that satisfy `done`, or it fails and
leaves a state that satisfies `failed`. -/
def Meets (act : EStateM Fault σ α) (s : σ) (done : α → σ → Prop) (failed : σ → Prop) : Prop :=
  match act s with
  | .ok a s' => done a s'
  | .error _ s' => failed s'

section Meets

variable {act : EStateM Fault σ α} {s s' : σ} {done : α → σ → Prop} {failed : σ → Prop} {a : α}
  {e : Fault}

lemma meets_of_ok (h : act s = .ok a s') (hd : done a s') :
    Meets act s done failed := by
  rw [Meets, h]
  exact hd

lemma meets_of_error (h : act s = .error e s') (hf : failed s') :
    Meets act s done failed := by
  rw [Meets, h]
  exact hf

lemma Meets.of_ok (h : Meets act s done failed) (hok : act s = .ok a s') :
    done a s' := by
  rw [Meets, hok] at h
  exact h

lemma Meets.of_error (h : Meets act s done failed) (herr : act s = .error e s') : failed s' := by
  rw [Meets, herr] at h
  exact h

lemma Meets.mono (h : Meets act s done failed) {done' : α → σ → Prop} {failed' : σ → Prop}
    (hd : ∀ a s', done a s' → done' a s') (hf : ∀ s', failed s' → failed' s') :
    Meets act s done' failed' := by
  cases hact : act s with
  | ok a s' => exact meets_of_ok hact (hd a s' (h.of_ok hact))
  | error e s' => exact meets_of_error hact (hf s' (h.of_error hact))

lemma Meets.bind {done' : β → σ → Prop}
    (h : Meets act s (fun a s' => Meets (k a) s' done' failed) failed) :
    Meets (act >>= k) s done' failed := by
  cases hact : act s with
  | ok a s' =>
    have hk := h.of_ok hact
    rw [Meets, bind_of_ok hact]
    exact hk
  | error e s' => exact meets_of_error (bind_of_error hact) (h.of_error hact)

/-- The loop rule: what holds of the elements done so far holds of all of them at the end. -/
lemma meets_forM {f : α → EStateM Fault σ PUnit} {l : List α} {P : List α → σ → Prop}
    (hstep : ∀ before a after s, l = before ++ a :: after → P before s →
      Meets (f a) s (fun _ s' => P (before ++ [a]) s') failed) (hstart : P [] s) :
    Meets (l.forM f) s (fun _ s' => P l s') failed := by
  -- induction on what is left to do; the invariant speaks about what is done
  have hall : ∀ after before s, l = before ++ after → P before s →
      Meets (after.forM f) s (fun _ s' => P l s') failed := by
    intro after
    induction after with
    | nil =>
      intro before s hl hp
      rw [append_nil] at hl
      exact meets_of_ok rfl (hl ▸ hp)
    | cons a after ih =>
      intro before s hl hp
      exact Meets.bind ((hstep before a after s hl hp).mono
        (fun _ s' => ih (before ++ [a]) s' (by rw [hl]; simp)) fun _ h => h)
  exact hall l [] s rfl hstart

end Meets

section Loops

variable {f : α → EStateM Fault σ PUnit} {l : List α} {s s' : σ} {P : List α → σ → Prop}

lemma forM_of_ok (hstep : ∀ before a after s, l = before ++ a :: after → P before s →
      ∃ s', f a s = .ok ⟨⟩ s' ∧ P (before ++ [a]) s') (hstart : P [] s) :
    ∃ s', l.forM f s = .ok ⟨⟩ s' ∧ P l s' := by
  have h : Meets (l.forM f) s (fun _ s' => P l s') fun _ => False := by
    refine meets_forM (fun before a after s hl hp => ?_) hstart
    obtain ⟨s', hs', hp'⟩ := hstep before a after s hl hp
    exact meets_of_ok hs' hp'
  cases hrun : l.forM f s with
  | ok _ s' => exact ⟨s', rfl, h.of_ok hrun⟩
  | error e s' => exact (h.of_error hrun).elim

lemma of_forM_eq_ok (hrun : l.forM f s = .ok ⟨⟩ s')
    (hstep : ∀ before a after s s', l = before ++ a :: after → P before s → f a s = .ok ⟨⟩ s' →
      P (before ++ [a]) s') (hstart : P [] s) : P l s' := by
  have h : Meets (l.forM f) s (fun _ s' => P l s') fun _ => True := by
    refine meets_forM (fun before a after s hl hp => ?_) hstart
    cases ha : f a s with
    | ok _ s' => exact meets_of_ok ha (hstep before a after s s' hl hp ha)
    | error e s' => exact meets_of_error ha trivial
  exact h.of_ok hrun

lemma of_forM_run_eq_ok (hrun : l.forM f s = .ok ⟨⟩ s')
    (hstep : ∀ before a after s₁ s₂, l = before ++ a :: after → before.forM f s = .ok ⟨⟩ s₁ →
      P before s₁ → f a s₁ = .ok ⟨⟩ s₂ → P (before ++ [a]) s₂) (hstart : P [] s) : P l s' := by
  have hboth : l.forM f s = .ok ⟨⟩ s' ∧ P l s' := by
    refine of_forM_eq_ok (P := fun before s₁ => before.forM f s = .ok ⟨⟩ s₁ ∧ P before s₁) hrun ?_
      ⟨rfl, hstart⟩
    rintro before a after s₁ s₂ hsplit ⟨hbefore, hp⟩ ha
    exact ⟨forM_concat_of_ok hbefore ha, hstep before a after s₁ s₂ hsplit hbefore hp ha⟩
  exact hboth.2

lemma rel_of_forM_eq_ok [IsPreorder σ R] (hrun : l.forM f s = .ok ⟨⟩ s')
    (hstep : ∀ a ∈ l, ∀ s₁ s₂, R s s₁ → f a s₁ = .ok ⟨⟩ s₂ → R s₁ s₂) : R s s' := by
  refine of_forM_eq_ok (P := fun _ => R s) hrun
    (fun before a after s₁ s₂ hl hr ha => ?_) (refl_of R s)
  exact trans_of R hr (hstep a (by simp [hl]) s₁ s₂ hr ha)

end Loops

/-! ### A relation of its own for failures -/

/-- The states before and after the action are related by `R` if it succeeds, and then the result
satisfies `P`; if it fails they are related by `F`. -/
structure Ends (R F : σ → σ → Prop) (act : EStateM Fault σ α) (s : σ)
    (P : α → σ → Prop) : Prop where
  meets : Meets act s (fun a s' => R s s' ∧ P a s') (F s)

section Ends

variable {R F : σ → σ → Prop} {s : σ} {P : α → σ → Prop} {Q : β → σ → Prop}

lemma ends_iff_exists {act : EStateM Fault σ α} :
    Ends R (fun _ _ => False) act s P ↔ ∃ a s', act s = .ok a s' ∧ R s s' ∧ P a s' := by
  constructor
  · intro h
    cases hact : act s with
    | ok a s' => exact ⟨a, s', rfl, h.meets.of_ok hact⟩
    | error e s' => exact (h.meets.of_error hact).elim
  · rintro ⟨a, s', hok, h⟩
    exact ⟨meets_of_ok hok h⟩

lemma Ends.mono (h : Ends R F x s P) {P' : α → σ → Prop}
    (hp : ∀ a s', R s s' → P a s' → P' a s') : Ends R F x s P' := by
  refine ⟨h.meets.mono ?_ fun s' h => h⟩
  rintro a s' ⟨hr, ha⟩
  exact ⟨hr, hp a s' hr ha⟩

lemma ends_throw (h : F s s) : Ends R F (throw e : EStateM Fault σ α) s P := ⟨h⟩

variable [IsPreorder σ R]

lemma ends_pure (h : P a s) : Ends R F (pure a) s P := ⟨⟨refl_of R s, h⟩⟩

lemma Ends.bind (hF : ∀ s₁ s₂ s₃, R s₁ s₂ → F s₂ s₃ → F s₁ s₃) (hx : Ends R F x s P)
    (hk : ∀ a s', R s s' → P a s' → Ends R F (k a) s' Q) : Ends R F (x >>= k) s Q := by
  refine ⟨Meets.bind (hx.meets.mono ?_ fun s' h => h)⟩
  rintro a s' ⟨hr, hp⟩
  refine (hk a s' hr hp).meets.mono ?_ fun s'' h => hF _ _ _ hr h
  rintro b s'' ⟨hr', hq⟩
  exact ⟨trans_of R hr hr', hq⟩

end Ends

/-! ### A relation that every step keeps -/

/-- The states before and after the action are related, however it ends, and a result satisfies
`P`. -/
abbrev Keeps (R : σ → σ → Prop) (act : EStateM Fault σ α) (s : σ) (P : α → σ → Prop) : Prop :=
  Ends R R act s P

section Keeps

variable {R : σ → σ → Prop} [IsPreorder σ R] {s : σ} {P : α → σ → Prop} {Q : β → σ → Prop}
  {act : EStateM Fault σ α} {l : List β}

lemma keeps_throw : Keeps R (throw e : EStateM Fault σ α) s P :=
  ends_throw (refl_of R s)

omit [IsPreorder σ R] in
lemma keeps_get_bind {k : σ → EStateM Fault σ α} (h : Keeps R (k s) s P) :
    Keeps R (get >>= k) s P := ⟨h.meets⟩

omit [IsPreorder σ R] in
lemma keeps_modify {f : σ → σ} {P : PUnit → σ → Prop} (hr : R s (f s)) (h : P ⟨⟩ (f s)) :
    Keeps R (modify f) s P := ⟨⟨hr, h⟩⟩

lemma Keeps.bind (hx : Keeps R x s P)
    (hk : ∀ a s', R s s' → P a s' → Keeps R (k a) s' Q) : Keeps R (x >>= k) s Q :=
  Ends.bind (fun _ _ _ => trans_of R) hx hk

omit [IsPreorder σ R] in
lemma Keeps.weaken {R' : σ → σ → Prop} (h : Keeps R act s P) (hr : ∀ s', R s s' → R' s s') :
    Keeps R' act s P :=
  ⟨h.meets.mono (fun _ s' ha => ⟨hr s' ha.1, ha.2⟩) hr⟩

lemma keeps_mapM (hstable : ∀ {a s₁ s₂}, P a s₁ → R s₁ s₂ → P a s₂) {f : β → EStateM Fault σ α}
    (hf : ∀ b ∈ l, ∀ s', R s s' → Keeps R (f b) s' P) :
    Keeps R (l.mapM f) s fun as s' => ∀ a ∈ as, P a s' := by
  induction l generalizing s with
  | nil => exact ends_pure (by simp)
  | cons b l ih =>
    rw [mapM_cons]
    refine Keeps.bind (hf b (by simp) s (refl_of R s)) fun a s₁ hr₁ ha => ?_
    have hrest := ih fun c hc s' hr => hf c (by simp [hc]) s' (trans_of R hr₁ hr)
    -- the first result has to survive the steps for the others
    refine Keeps.bind hrest fun as s₂ hr₂ has => ends_pure fun c hc => ?_
    rcases mem_cons.1 hc with rfl | hc
    · exact hstable ha hr₂
    · exact has c hc

lemma keeps_forM {f : β → EStateM Fault σ PUnit}
    (hf : ∀ b ∈ l, ∀ s', R s s' → Keeps R (f b) s' fun _ _ => True) :
    Keeps R (l.forM f) s fun _ _ => True := by
  induction l generalizing s with
  | nil => exact ends_pure trivial
  | cons b l ih =>
    refine Keeps.bind (hf b (by simp) s (refl_of R s)) fun _ s₁ hr₁ _ => ?_
    exact ih fun c hc s' hr => hf c (by simp [hc]) s' (trans_of R hr₁ hr)

end Keeps

end KernelFusion
