/-
Shortcuts of the operators.

An operator looks at constants before it records its operation, and at nothing else: neither the
types of the operands nor their shapes are compared. Which way it goes is seen from the graph
(`Graph.shortcut?`), and what it ends with follows from that (`arithmetic_eq`).
-/
import KernelFusion.Proofs.Number.Single
import KernelFusion.Proofs.Recording.Forms

namespace KernelFusion

open List Operation

/-- Are the words of the type numbers? -/
def Scalar.isNumber : Scalar → Bool
  | float | uint | int => true
  | bool | void => false

/-! ### What is recorded -/

namespace Operation

variable {op : Operation}

lemma overload?_of_numeric_two (h : op.overloads = numeric 2) (s t : Scalar) :
    op.overload? [s, t] = if s = t ∧ s.isNumber = true then some ⟨[s, s], s⟩ else none := by
  rw [overload?, h]
  cases s <;> cases t <;> rfl

lemma overload?_of_numeric_one (h : op.overloads = numeric 1) (t : Scalar) :
    op.overload? [t] = if t.isNumber = true then some ⟨[t], t⟩ else none := by
  rw [overload?, h]
  cases t <;> rfl

end Operation

namespace Arithmetic

lemma find_operation (f : Arithmetic) : ∃ op, find (Text.removeSpaces f.operation) = .ok op ∧
    op.overloads = numeric 2 := by
  cases f <;> exact ⟨_, by rfl, by rfl⟩

end Arithmetic

namespace Build

variable {g : Graph} {name : String} {op : Operation} {o : Overload} {ns : List NodeId}

lemma ne_blank_of_find (hop : find (Text.removeSpaces name) = .ok op) :
    Text.removeSpaces name ≠ "" := by
  intro hblank
  rw [hblank] at hop
  cases hop

lemma apply_of_overload (hg : g.recording) (hop : find (Text.removeSpaces name) = .ok op)
    (ho : op.overload? (ns.map fun n => (g.node n).type) = some o) :
    apply name ns g = .ok g.nodes.size
      (g.insert op o.output (g.argumentsFrom .input ns ++ g.commonShape ns)) := by
  have hresolve : resolve (Text.removeSpaces name) ns g = .ok (op, o.output) g := by
    rcases resolve_cases (Text.removeSpaces name) ns g with ⟨e, he⟩ | ⟨op', o', hop', ho', hok⟩
    · rw [resolve, bind_of_ok (rfl : (get : Build Graph) g = .ok g g), hop] at he
      simp only [ho] at he
      cases he
    · obtain rfl := Except.ok.inj (hop.symm.trans hop')
      cases ho.symm.trans ho'
      exact hok
  rw [apply, if_neg (ne_blank_of_find hop)]
  exact (bind_of_ok hresolve).trans (record_eq hg op o.output _)

lemma apply_of_no_overload (hop : find (Text.removeSpaces name) = .ok op)
    (ho : op.overload? (ns.map fun n => (g.node n).type) = none) :
    apply name ns g = .error (.operandTypes (ns.map fun n => (g.node n).type)
      (Text.removeSpaces name)) g := by
  have hresolve : resolve (Text.removeSpaces name) ns g =
      .error (.operandTypes (ns.map fun n => (g.node n).type) (Text.removeSpaces name)) g := by
    rw [resolve, bind_of_ok (rfl : (get : Build Graph) g = .ok g g), hop]
    simp only [ho]
    rfl
  rw [apply, if_neg (ne_blank_of_find hop)]
  exact bind_of_error hresolve

variable {a b : NodeId}

lemma apply_operation_eq (hg : g.recording) (hsame : (g.node a).type = (g.node b).type)
    (hnumber : (g.node a).type.isNumber)
    (f : Arithmetic) : ∃ op, apply f.operation [a, b] g = .ok g.nodes.size
      (g.insert op (g.node a).type (g.argumentsFrom .input [a, b] ++ g.commonShape [a, b])) := by
  obtain ⟨op, hop, hnumeric⟩ := f.find_operation
  have hover : op.overload? ([a, b].map fun n => (g.node n).type) =
      some ⟨[(g.node a).type, (g.node a).type], (g.node a).type⟩ := by
    rw [map_cons, map_cons, map_nil, overload?_of_numeric_two hnumeric, if_pos ⟨hsame, hnumber⟩]
  exact ⟨op, apply_of_overload hg hop hover⟩

lemma apply_operation_refused
    (h : ¬ ((g.node a).type = (g.node b).type ∧ (g.node a).type.isNumber)) (f : Arithmetic) :
    ∃ e, apply f.operation [a, b] g = .error e g := by
  obtain ⟨op, hop, hnumeric⟩ := f.find_operation
  refine ⟨_, apply_of_no_overload hop ?_⟩
  rw [map_cons, map_cons, map_nil, overload?_of_numeric_two hnumeric, if_neg h]

lemma find_neg : ∃ op, find (Text.removeSpaces "neg") = .ok op ∧
    op.overloads = numeric 1 := ⟨_, by rfl, by rfl⟩

lemma apply_neg_eq (hg : g.recording) (hnumber : (g.node b).type.isNumber) :
    ∃ op, apply "neg" [b] g = .ok g.nodes.size
      (g.insert op (g.node b).type (g.argumentsFrom .input [b] ++ g.commonShape [b])) := by
  obtain ⟨op, hop, hnumeric⟩ := find_neg
  have hover : op.overload? ([b].map fun n => (g.node n).type) =
      some ⟨[(g.node b).type], (g.node b).type⟩ := by
    rw [map_cons, map_nil, overload?_of_numeric_one hnumeric, if_pos hnumber]
  exact ⟨op, apply_of_overload hg hop hover⟩

lemma apply_neg_refused (h : ¬ (g.node b).type.isNumber) :
    ∃ e, apply "neg" [b] g = .error e g := by
  obtain ⟨op, hop, hnumeric⟩ := find_neg
  refine ⟨_, apply_of_no_overload hop ?_⟩
  rw [map_cons, map_nil, overload?_of_numeric_one hnumeric, if_neg h]

lemma constant_eq (hg : g.recording) {type : Scalar} (htype : type.isNumber)
    (w : UInt32) : ∃ op, constant type w g =
      .ok g.nodes.size (g.insertWith op type [] [w]) := by
  obtain ⟨op, hop, hyields⟩ : ∃ op, find (Text.removeSpaces "const") = .ok op ∧
      ∀ t : Scalar, t.isNumber → op.yields t :=
    ⟨_, by rfl, fun t ht => by
      cases t with
      | float => rfl
      | uint => rfl
      | int => rfl
      | bool => cases ht
      | void => cases ht⟩
  have hsource : source "const" [] type g = .ok g.nodes.size (g.insert op type []) := by
    rw [source, if_neg (ne_blank_of_find hop), hop]
    simp only [hyields type htype, if_true]
    exact record_eq hg op type []
  exact ⟨op, (bind_of_ok hsource).trans rfl⟩

end Build

/-! ### Which way an operator goes -/

/-- What an operator gives in place of its operation. -/
inductive Shortcut where
  | left
  | right
  | negation
  | constant (w : UInt32)
deriving DecidableEq

namespace Graph

/-- Is the node a constant that counts as the given number? -/
def isValue (g : Graph) (n : NodeId) (value : Float32) : Bool :=
  (g.node n).isConst &&
    (constantEquals (g.node n).type (g.node n).word value).toOption.getD false

/-- Two constants are computed at once. -/
def computed? (g : Graph) (f : Arithmetic) (a b : NodeId) : Option Shortcut :=
  if (g.node a).isConst && (g.node b).isConst then
    (f.evaluate (g.node a).type (g.node a).word (g.node b).word).map .constant
  else none

/-- The shortcut that an operator takes. -/
def shortcut? (g : Graph) (f : Arithmetic) (a b : NodeId) : Option Shortcut :=
  match f with
  | .add =>
    if g.isValue a 0 then some .right
    else if g.isValue b 0 then some .left
    else g.computed? .add a b
  | .sub =>
    if g.isValue a 0 then some .negation
    else if g.isValue b 0 then some .left
    else g.computed? .sub a b
  | .mul =>
    if (g.isValue a 0 || g.isValue b 0) && (g.node a).type.isNumber then some (.constant 0)
    else if g.isValue a 1 then some .right
    else if g.isValue b 1 then some .left
    else g.computed? .mul a b
  | .div =>
    if g.isValue a 0 then some (.constant 0)
    else if g.isValue b 1 then some .left
    else g.computed? .div a b

/-- If the node is a constant, then it is a number. -/
def IsNumeric (g : Graph) (n : NodeId) : Prop :=
  (g.node n).isConst → (g.node n).type.isNumber

/-- When an operator takes a shortcut. -/
inductive Shortens (g : Graph) (a b : NodeId) : Arithmetic → Shortcut → Prop where
  | addRight (h : g.isValue a 0) : Shortens g a b .add .right
  | addLeft (h : g.isValue b 0) : Shortens g a b .add .left
  | subNegation (h : g.isValue a 0) : Shortens g a b .sub .negation
  | subLeft (h : g.isValue b 0) : Shortens g a b .sub .left
  | mulZero (h : g.isValue a 0 ∨ g.isValue b 0)
      (ha : (g.node a).type.isNumber) : Shortens g a b .mul (.constant 0)
  | mulRight (h : g.isValue a 1) : Shortens g a b .mul .right
  | mulLeft (h : g.isValue b 1) : Shortens g a b .mul .left
  | divZero (h : g.isValue a 0) : Shortens g a b .div (.constant 0)
  | divLeft (h : g.isValue b 1) : Shortens g a b .div .left
  | computed {f : Arithmetic} {w : UInt32} (ha : (g.node a).isConst)
      (hb : (g.node b).isConst)
      (hw : f.evaluate (g.node a).type (g.node a).word (g.node b).word = some w) :
      Shortens g a b f (.constant w)

variable {g : Graph} {a b n : NodeId} {f : Arithmetic} {s : Shortcut} {value : Float32}

lemma shortens_of_computed? (hs : g.computed? f a b = some s) : g.Shortens a b f s := by
  rw [computed?] at hs
  split at hs
  · rename_i hboth
    obtain ⟨ha, hb⟩ := Bool.and_eq_true_iff.1 hboth
    obtain ⟨w, hw, rfl⟩ := Option.map_eq_some_iff.1 hs
    exact .computed ha hb hw
  · cases hs

/-- A shortcut is taken only where the constants at hand justify it. -/
lemma shortens_of_shortcut? (hs : g.shortcut? f a b = some s) : g.Shortens a b f s := by
  unfold shortcut? at hs
  cases f with
  | add =>
    dsimp only at hs
    split_ifs at hs with hzero hzero'
    · exact Option.some.inj hs ▸ .addRight hzero
    · exact Option.some.inj hs ▸ .addLeft hzero'
    · exact shortens_of_computed? hs
  | sub =>
    dsimp only at hs
    split_ifs at hs with hzero hzero'
    · exact Option.some.inj hs ▸ .subNegation hzero
    · exact Option.some.inj hs ▸ .subLeft hzero'
    · exact shortens_of_computed? hs
  | mul =>
    dsimp only at hs
    split_ifs at hs with hzero hone hone'
    · obtain ⟨hzero, hnumber⟩ := Bool.and_eq_true_iff.1 hzero
      exact Option.some.inj hs ▸ .mulZero (Bool.or_eq_true_iff.1 hzero) hnumber
    · exact Option.some.inj hs ▸ .mulRight hone
    · exact Option.some.inj hs ▸ .mulLeft hone'
    · exact shortens_of_computed? hs
  | div =>
    dsimp only at hs
    split_ifs at hs with hzero hone
    · exact Option.some.inj hs ▸ .divZero hzero
    · exact Option.some.inj hs ▸ .divLeft hone
    · exact shortens_of_computed? hs

lemma isConst_of_isValue (h : g.isValue n value) : (g.node n).isConst :=
  (Bool.and_eq_true_iff.1 h).1

lemma isValue_of_not_isConst (h : (g.node n).isConst = false) (value : Float32) :
    g.isValue n value = false := by
  rw [isValue, h, Bool.false_and]

lemma constantEquals_of_isValue (h : g.isValue n value) :
    constantEquals (g.node n).type (g.node n).word value = .ok true := by
  have hequals := (Bool.and_eq_true_iff.1 h).2
  cases hc : constantEquals (g.node n).type (g.node n).word value with
  | error e =>
    rw [hc] at hequals
    cases hequals
  | ok b =>
    rw [hc] at hequals
    exact congrArg Except.ok hequals

lemma isNumber_of_isValue (h : g.isValue n value) :
    (g.node n).type.isNumber := by
  have hequals := constantEquals_of_isValue h
  cases htype : (g.node n).type with
  | float | uint | int => rfl
  | bool | void =>
    rw [htype] at hequals
    cases hequals

end Graph

/-! ### Words of shortcuts -/

/-- The word that a shortcut gives for two words. -/
def Shortcut.wordOf (x y : UInt32) : Shortcut → UInt32
  | .left => x
  | .right => y
  | .negation => 0 - y
  | .constant w => w

lemma Arithmetic.evaluate_eq {type : Scalar} {f : Arithmetic} (htype : type.Integral)
    (hf : f ≠ .div) (x y : UInt32) : f.evaluate type x y = some (f.onWords x y) := by
  rcases htype with rfl | rfl
  · cases f with
    | div => exact absurd rfl hf
    | add | sub | mul => rfl
  · rfl

/-- On whole numbers a shortcut gives the word of the operation it replaces. -/
lemma Graph.Shortens.evaluate_eq {g : Graph} {f : Arithmetic} {s : Shortcut} {x y : UInt32}
    (h : g.Shortens a b f s) (ha : (g.node a).type.Integral) (hb : (g.node b).type.Integral)
    (hx : (g.node a).isConst → x = (g.node a).word)
    (hy : (g.node b).isConst → y = (g.node b).word) :
    f.evaluate (g.node a).type x y = some (s.wordOf x y) := by
  have hx₀ : g.isValue a 0 → x = 0 := fun h =>
    (hx (isConst_of_isValue h)).trans (eq_zero_of_constantEquals ha (constantEquals_of_isValue h))
  have hy₀ : g.isValue b 0 → y = 0 := fun h =>
    (hy (isConst_of_isValue h)).trans (eq_zero_of_constantEquals hb (constantEquals_of_isValue h))
  have hx₁ : g.isValue a 1 → x = 1 := fun h =>
    (hx (isConst_of_isValue h)).trans (eq_one_of_constantEquals ha (constantEquals_of_isValue h))
  have hy₁ : g.isValue b 1 → y = 1 := fun h =>
    (hy (isConst_of_isValue h)).trans (eq_one_of_constantEquals hb (constantEquals_of_isValue h))
  cases h with
  | addRight h => simp [Arithmetic.evaluate_eq ha, hx₀ h, Arithmetic.onWords, Shortcut.wordOf]
  | addLeft h => simp [Arithmetic.evaluate_eq ha, hy₀ h, Arithmetic.onWords, Shortcut.wordOf]
  | subNegation h => simp [Arithmetic.evaluate_eq ha, hx₀ h, Arithmetic.onWords, Shortcut.wordOf]
  | subLeft h => simp [Arithmetic.evaluate_eq ha, hy₀ h, Arithmetic.onWords, Shortcut.wordOf]
  | mulZero h _ =>
    rcases h with h | h
    · simp [Arithmetic.evaluate_eq ha, hx₀ h, Arithmetic.onWords, Shortcut.wordOf]
    · simp [Arithmetic.evaluate_eq ha, hy₀ h, Arithmetic.onWords, Shortcut.wordOf]
  | mulRight h => simp [Arithmetic.evaluate_eq ha, hx₁ h, Arithmetic.onWords, Shortcut.wordOf]
  | mulLeft h => simp [Arithmetic.evaluate_eq ha, hy₁ h, Arithmetic.onWords, Shortcut.wordOf]
  | divZero h =>
    have hint : Int32.toUInt32 0 = 0 := by decide
    rcases ha with htype | htype <;>
      simp [htype, hx₀ h, Arithmetic.evaluate, Arithmetic.onWords, Shortcut.wordOf, hint]
  | divLeft h =>
    rcases ha with htype | htype <;>
      simp [htype, hy₁ h, Arithmetic.evaluate, Arithmetic.onWords, Shortcut.wordOf]
  | computed hca hcb hw => rw [hx hca, hy hcb, hw, Shortcut.wordOf]

namespace Build

variable {g : Graph} {a b n : NodeId}

/-- Takes a shortcut, or records the operation. -/
def take (f : Arithmetic) (type : Scalar) (a b : NodeId) : Option Shortcut → Build NodeId
  | some .left => pure a
  | some .right => pure b
  | some .negation => apply "neg" [b]
  | some (.constant w) => constant type w
  | none => apply f.operation [a, b]

/-- The action ends with a given result, unless it fails and changes nothing, for which there is a
reason. -/
def Gives (p : Prop) (act : Build α) (g : Graph) (r : EStateM.Result Fault Graph α) : Prop :=
  act g = r ∨ p ∧ ∃ e, act g = .error e g

lemma foldOrApply_eq (f : Arithmetic) :
    foldOrApply f a b g = take f (g.node a).type a b (g.computed? f a b) g := by
  unfold foldOrApply Graph.computed?
  rw [bind_of_ok (rfl : (get : Build Graph) g = .ok g g)]
  split
  · cases f.evaluate (g.node a).type (g.node a).word (g.node b).word <;> rfl
  · rfl

lemma zero?_eq (type : Scalar) :
    zero? type = if type.isNumber = true then some (constant type 0) else none := by
  cases type <;> rfl

section Reason

variable {p : Prop}

lemma gives_isConstant (hp : ¬ g.IsNumeric n → p) (value : Float32) :
    Gives p (isConstant n value) g (.ok (g.isValue n value) g) := by
  unfold Gives isConstant Graph.isValue
  rw [bind_of_ok (rfl : (get : Build Graph) g = .ok g g)]
  cases hconst : (g.node n).isConst with
  | false => exact .inl rfl
  | true =>
    cases htype : (g.node n).type with
    | float | uint | int => exact .inl rfl
    | bool | void =>
      refine .inr ⟨hp fun hnumeric => ?_, _, rfl⟩
      have hnumber := hnumeric hconst
      rw [htype] at hnumber
      cases hnumber

lemma Gives.bind {x : Build α} {k : α → Build β} {c : α} {r : EStateM.Result Fault Graph β}
    (hx : Gives p x g (.ok c g)) (hk : Gives p (k c) g r) : Gives p (x >>= k) g r := by
  rcases hx with hx | ⟨hp, e, he⟩
  · unfold Gives
    rw [bind_of_ok hx]
    exact hk
  · exact .inr ⟨hp, e, bind_of_error he⟩

variable (ha : ¬ g.IsNumeric a → p) (hb : ¬ g.IsNumeric b → p)

include ha hb

/-- The left operand is compared with the neutral number before the right one. -/
lemma gives_pastNeutral (f : Arithmetic) (neutral : Float32) {front : Build NodeId} {s : Shortcut}
    (hfront : front = take f (g.node a).type a b (some s)) :
    Gives p (pastNeutral f neutral front a b) g (take f (g.node a).type a b
      (if g.isValue a neutral then some s else if g.isValue b neutral then some .left
        else g.computed? f a b) g) := by
  refine (gives_isConstant ha neutral).bind ?_
  split
  · exact .inl (congrFun hfront g)
  · refine (gives_isConstant hb neutral).bind ?_
    split
    · exact .inl rfl
    · exact .inl (foldOrApply_eq f)

lemma gives_eitherZero : Gives p (eitherZero a b) g (.ok (g.isValue a 0 || g.isValue b 0) g) := by
  refine (gives_isConstant ha 0).bind ?_
  cases g.isValue a 0 with
  | true => exact .inl rfl
  | false => exact gives_isConstant hb 0

lemma gives_mul : Gives p (mul a b) g (take .mul (g.node a).type a b (g.shortcut? .mul a b) g) := by
  unfold mul Graph.shortcut?
  refine (gives_eitherZero ha hb).bind ?_
  dsimp only
  cases hzero : g.isValue a 0 || g.isValue b 0 with
  | false =>
    rw [if_neg Bool.false_ne_true, Bool.false_and, if_neg Bool.false_ne_true]
    exact gives_pastNeutral ha hb .mul 1 rfl
  | true =>
    rw [if_pos rfl, Gives, bind_of_ok (rfl : (get : Build Graph) g = .ok g g), zero?_eq,
      Bool.true_and]
    split
    · exact .inl rfl
    · exact gives_pastNeutral ha hb .mul 1 rfl

lemma gives_div : Gives p (div a b) g (take .div (g.node a).type a b (g.shortcut? .div a b) g) := by
  unfold div Graph.shortcut?
  refine (gives_isConstant ha 0).bind ?_
  dsimp only
  cases hzero : g.isValue a 0 with
  | false =>
    rw [if_neg Bool.false_ne_true, if_neg Bool.false_ne_true]
    refine (gives_isConstant hb 1).bind ?_
    split
    · exact .inl rfl
    · exact .inl (foldOrApply_eq .div)
  | true =>
    rw [if_pos rfl, if_pos rfl, Gives, bind_of_ok (rfl : (get : Build Graph) g = .ok g g), zero?_eq,
      if_pos (Graph.isNumber_of_isValue hzero)]
    exact .inl rfl

lemma gives_arithmetic (f : Arithmetic) :
    Gives p (arithmetic f a b) g (take f (g.node a).type a b (g.shortcut? f a b) g) := by
  cases f with
  | add => exact gives_pastNeutral ha hb .add 0 rfl
  | sub => exact gives_pastNeutral ha hb .sub 0 rfl
  | mul => exact gives_mul ha hb
  | div => exact gives_div ha hb

end Reason

lemma arithmetic_eq (ha : g.IsNumeric a) (hb : g.IsNumeric b) (f : Arithmetic) :
    arithmetic f a b g = take f (g.node a).type a b (g.shortcut? f a b) g :=
  (gives_arithmetic (fun h => h ha) (fun h => h hb) f).resolve_right And.left

/-- The rule for `arithmetic`: one premise for each shortcut, one for the operation. -/
lemma keeps_arithmetic_of {R : Graph → Graph → Prop} [IsPreorder Graph R]
    {P : NodeId → Graph → Prop} {f : Arithmetic} (hleft : g.Shortens a b f .left → P a g)
    (hright : g.Shortens a b f .right → P b g)
    (hnegation : g.Shortens a b f .negation → Keeps R (apply "neg" [b]) g P)
    (hconstant : ∀ w, g.Shortens a b f (.constant w) → Keeps R (constant (g.node a).type w) g P)
    (hoperation : Keeps R (apply f.operation [a, b]) g P) : Keeps R (arithmetic f a b) g P := by
  have htake : Keeps R (take f (g.node a).type a b (g.shortcut? f a b)) g P := by
    cases hs : g.shortcut? f a b with
    | none => exact hoperation
    | some s =>
      have h := Graph.shortens_of_shortcut? hs
      cases s with
      | left => exact ends_pure (hleft h)
      | right => exact ends_pure (hright h)
      | negation => exact hnegation h
      | constant w => exact hconstant w h
  rcases gives_arithmetic (fun _ => trivial) (fun _ => trivial) f with heq | ⟨-, e, he⟩
  · refine ⟨?_⟩
    rw [Meets, heq]
    exact htake.meets
  · exact ⟨meets_of_error he (refl_of R g)⟩

lemma exists_arithmetic (hg : g.recording) (hsame : (g.node a).type = (g.node b).type)
    (hnumber : (g.node a).type.isNumber) (f : Arithmetic) :
    ∃ n g', arithmetic f a b g = .ok n g' ∧ (g'.node n).type = (g.node a).type := by
  rw [arithmetic_eq (fun _ => hnumber) fun _ => hsame ▸ hnumber]
  cases g.shortcut? f a b with
  | none =>
    obtain ⟨op, hok⟩ := apply_operation_eq hg hsame hnumber f
    exact ⟨_, _, hok, by rw [Graph.node_insert_self]⟩
  | some s =>
    cases s with
    | left => exact ⟨a, g, rfl, rfl⟩
    | right => exact ⟨b, g, rfl, hsame.symm⟩
    | negation =>
      obtain ⟨op, hok⟩ := apply_neg_eq hg (hsame ▸ hnumber)
      exact ⟨_, _, hok, by rw [Graph.node_insert_self, hsame]⟩
    | constant w =>
      obtain ⟨op, hok⟩ := constant_eq hg hnumber w
      exact ⟨_, _, hok, by rw [Graph.node_insertWith_self]⟩

end Build

end KernelFusion
