/-
The texts of loads and stores.

Both languages know the operands of an access by their positions: memory, index, value in a kernel,
but memory, value, index in a shader. A load has no value and is right in both; a shader stores the
index where the value says.
-/
import KernelFusion.Proofs.Emit.Declarations
import KernelFusion.Proofs.Kernel.Lowering

namespace KernelFusion

open List

open Operation (declaration readAs asWord operand)

/-- The text accesses memory at an address: without a value it reads what is there into a variable,
and a value is stored there. -/
def AccessesAt (memory address : String) (value : Option String) (text : String) : Prop :=
  match value with
  | none => ∃ type var,
      text = declaration type var ++ readAs type (memory ++ "[" ++ address ++ "]") ++ ";"
  | some value => ∃ type, text = memory ++ "[" ++ address ++ "] = " ++ asWord type value ++ ";"

/-- The text of a store tells its address. -/
lemma AccessesAt.address_inj {memory address address' value value' text : String}
    (h : AccessesAt memory address (some value) text)
    (h' : AccessesAt memory address' (some value') text)
    (haddress : ']' ∉ address.toList) (haddress' : ']' ∉ address'.toList) : address = address' := by
  obtain ⟨type, rfl⟩ := h
  obtain ⟨type', htext⟩ := h'
  have hlist := congrArg String.toList htext
  simp only [String.toList_append, append_assoc] at hlist
  have hbehind := append_cancel_left (append_cancel_left hlist)
  -- the address ends at the first closing bracket
  have htake : ∀ (a : String) (rest : List Char), ']' ∉ a.toList →
      (a.toList ++ ("] = ".toList ++ rest)).takeWhile (· ≠ ']') = a.toList := by
    intro a rest ha
    have hpos : ∀ c ∈ a.toList, decide (c ≠ ']') := fun c hc =>
      decide_eq_true fun he => ha (he ▸ hc)
    rw [takeWhile_append_of_pos hpos]
    exact append_nil _
  have hcut := congrArg (takeWhile (· ≠ ']')) hbehind
  rw [htake address _ haddress, htake address' _ haddress'] at hcut
  exact String.toList_inj.1 hcut

namespace Graph

variable {g : Graph} {l : List NodeId} {n memory index : NodeId} {value : Option NodeId}
  {k : Kernel} {type : Scalar}

/-- A load has a memory and an index, a store has a value besides. -/
structure IsAccess (g : Graph) (n memory index : NodeId) (value : Option NodeId) : Prop where
  accesses : (g.node n).op.kind.accesses
  name : (g.node n).op.name = if value.isSome then "store" else "load"
  memory : ((g.node n).arguments .memory).map g.source = [memory]
  index : ((g.node n).arguments .index).map g.source = [index]
  value : ((g.node n).arguments .input).map g.source = value.toList

instance : Decidable (g.IsAccess n memory index value) :=
  decidable_of_iff ((g.node n).op.kind.accesses ∧
      (g.node n).op.name = (if value.isSome then "store" else "load") ∧
      ((g.node n).arguments .memory).map g.source = [memory] ∧
      ((g.node n).arguments .index).map g.source = [index] ∧
      ((g.node n).arguments .input).map g.source = value.toList)
    ⟨fun ⟨ha, hn, hm, hi, hv⟩ => ⟨ha, hn, hm, hi, hv⟩,
      fun ⟨ha, hn, hm, hi, hv⟩ => ⟨ha, hn, hm, hi, hv⟩⟩

namespace IsAccess

variable (h : g.IsAccess n memory index value)

include h

lemma texts_operands : (g.operands g.names k n).texts =
    [g.valueName g.names memory, g.valueName g.names index]
      ++ (value.map (g.valueOperand g.names k)).toList := by
  rw [operands, map_append, h.memory, h.index, h.value]
  cases value <;> rfl

/-- The line of an access reads or writes its slot at its index. -/
lemma accessesAt_line (k : Kernel) (htype : (g.node n).op.resultType (g.inputTypes n) = .ok type) :
    ∃ line, g.lineOf g.names k n = .ok line ∧
      AccessesAt "mem" ("off[" ++ toString (slotOf k.memory memory) ++ "] + " ++
      g.valueName g.names index)
        (value.map (g.valueOperand g.names k)) line.code := by
  have hok : ∃ line, g.lineOf g.names k n = .ok line := by
    rw [lineOf, types_operands, htype]
    exact ⟨_, rfl⟩
  obtain ⟨line, hline⟩ := hok
  obtain ⟨type', hparts⟩ := lineOf_eq_ok hline
  have haddress : g.address k n (g.operands g.names k n).texts
      = "off[" ++ toString (slotOf k.memory memory) ++ "] + " ++ g.valueName g.names index := by
    rw [address, h.memory, h.texts_operands]
    rfl
  have hbuffer : "mem[" = "mem" ++ "[" := by decide
  refine ⟨line, hline, ?_⟩
  cases value with
  | none =>
    obtain ⟨hleft, hexpr, hright⟩ := hparts.of_load h.name h.accesses
    refine ⟨type', g.names.of n, ?_⟩
    rw [Line.code, hleft, hexpr, hright, haddress, hbuffer]
  | some x =>
    have hname : (g.node n).op.name = "store" := h.name
    have hcontrol : (g.node n).op.isControl = false := by rw [Operation.isControl, hname]; decide
    have hstore := hparts.of_access hcontrol h.accesses
    have hvalue : operand (g.operands g.names k n).texts 2 = g.valueOperand g.names k x := by
      rw [h.texts_operands]
      rfl
    rw [accessParts, if_neg (by rw [hname]; decide), if_pos hname, haddress, hvalue] at hstore
    simp only [Prod.mk.injEq] at hstore
    obtain ⟨⟨hleft, hexpr, hright⟩, -⟩ := hstore
    refine ⟨(g.operands g.names k n).types.headD .void, ?_⟩
    rw [Line.code, hleft, hexpr, hright, hbuffer, String.empty_append]

/-- A shader's store takes the value for the address and the index for the value. -/
lemma accessesAt_shaderStatement (htype : (g.node n).op.resultType (g.inputTypes n) = .ok type) :
    ∃ text, g.shaderStatement g.names n = .ok text ∧
      AccessesAt (g.valueName g.names memory) (g.valueName g.names (value.getD index))
        (value.map fun _ => g.valueName g.names index) text := by
  have htypes : (((g.node n).arguments .input).map g.source).map (fun m => (g.node m).type)
      = g.inputTypes n := by
    rw [map_map]
    rfl
  rw [shaderStatement, htypes, h.memory, h.index, h.value, if_neg (by simp),
    Operation.statement, htype]
  cases value with
  | none =>
    have hname : (g.node n).op.name = "load" := h.name
    simp only [hname]
    exact ⟨_, rfl, type, g.names.of n, rfl⟩
  | some x =>
    have hname : (g.node n).op.name = "store" := h.name
    simp only [hname]
    exact ⟨_, rfl, _, rfl⟩

lemma accessesAt_iff (hl : g.Lists l)
    (htype : (g.node n).op.resultType (g.inputTypes n) = .ok type) :
    ∃ text, g.shaderStatement g.names n = .ok text ∧
      (AccessesAt (g.valueName g.names memory) (g.valueName g.names index)
      (value.map (g.valueName g.names))
          text ↔ ∀ x ∈ value, g.valueName g.names x = g.valueName g.names index) := by
  obtain ⟨text, htext, hwritten⟩ := h.accessesAt_shaderStatement htype
  refine ⟨text, htext, ?_⟩
  have hbracket : ∀ m, ']' ∉ (g.valueName g.names m).toList := fun m hmem =>
    absurd (hl.isOperandChar_of_mem_valueName hmem) (by decide)
  cases value with
  | none => exact ⟨fun _ x hx => absurd hx (Option.not_mem_none x), fun _ => hwritten⟩
  | some x =>
    refine ⟨fun hright y hy => ?_, fun hsame => ?_⟩
    · obtain rfl := Option.mem_some.1 hy
      exact hwritten.address_inj hright (hbracket _) (hbracket _)
    · have hx : g.valueName g.names x = g.valueName g.names index := hsame x rfl
      simp only [Option.map_some, Option.getD_some, hx] at hwritten ⊢
      exact hwritten

end IsAccess

lemma lowers_squareOfLoad : ∃ p s f, Lowers (squareOfLoad .float) .multi .clamp [4] p s f ∧
    f.IsAccess 6 5 14 (some 4) ∧ (f.node 6).op.resultType (f.inputTypes 6) = .ok .void ∧
    f.valueName f.names 4 = "var4_6" ∧ f.valueName f.names 14 = "var4_10" := by
  decide +kernel

/-- A kernel writes every access with its index as the address and its value as what is stored. A
shader does so if and only if there is no value or the value has the text of the index. -/
theorem access_texts_iff {steps : List Step} {kernelMode : KernelMode} {tensorMode : TensorMode}
    {outputs : List NodeId} {p s f : Graph} (h : Lowers steps kernelMode tensorMode outputs p s f)
    (haccess : f.IsAccess n memory index value) (k : Kernel)
    (htype : (f.node n).op.resultType (f.inputTypes n) = .ok type) :
    ∃ line text, f.lineOf f.names k n = .ok line ∧ f.shaderStatement f.names n = .ok text ∧
      AccessesAt "mem" ("off[" ++ toString (slotOf k.memory memory) ++ "] + " ++
      f.valueName f.names index)
        (value.map (f.valueOperand f.names k)) line.code ∧
      (AccessesAt (f.valueName f.names memory) (f.valueName f.names index)
      (value.map (f.valueName f.names))
          text ↔ ∀ x ∈ value, f.valueName f.names x = f.valueName f.names index) := by
  obtain ⟨line, hline, hkernel⟩ := haccess.accessesAt_line k htype
  obtain ⟨text, htext, hshader⟩ := haccess.accessesAt_iff h.lists htype
  exact ⟨line, text, hline, htext, hkernel, hshader⟩

theorem access_texts_squareOfLoad : ∃ p s f, Lowers (squareOfLoad .float) .multi .clamp [4] p s f ∧
    f.IsAccess 6 5 14 (some 4) ∧ ∀ k : Kernel, ∃ line text,
      f.lineOf f.names k 6 = .ok line ∧ f.shaderStatement f.names 6 = .ok text ∧
      AccessesAt "mem" ("off[" ++ toString (slotOf k.memory 5) ++ "] + " ++ "var4_10")
        (some (f.valueOperand f.names k 4)) line.code ∧
      ¬ AccessesAt (f.valueName f.names 5) "var4_10" (some "var4_6") text := by
  obtain ⟨p, s, f, hlowers, haccess, htype, hvalue, hindex⟩ := lowers_squareOfLoad
  refine ⟨p, s, f, hlowers, haccess, fun k => ?_⟩
  obtain ⟨line, text, hline, htext, hkernel, hshader⟩ := access_texts_iff hlowers haccess k htype
  rw [Option.map_some, hindex] at hkernel hshader
  rw [hvalue] at hshader
  refine ⟨line, text, hline, htext, hkernel, fun hright => ?_⟩
  have hsame := hshader.1 hright 4 rfl
  rw [hvalue] at hsame
  exact absurd hsame (by decide)

/-- A shader stores an index where the value says. -/
theorem not_forall_access_texts : ¬ ∀ (steps : List Step) (kernelMode : KernelMode)
    (tensorMode : TensorMode) (outputs : List NodeId) (p s f : Graph) (n memory index : NodeId)
    (value : Option NodeId) (text : String), Lowers steps kernelMode tensorMode outputs p s f →
    f.IsAccess n memory index value → f.shaderStatement f.names n = .ok text →
    AccessesAt (f.valueName f.names memory) (f.valueName f.names index)
    (value.map (f.valueName f.names))
      text := by
  intro hall
  obtain ⟨p, s, f, hlowers, haccess, htype, hvalue, hindex⟩ := lowers_squareOfLoad
  obtain ⟨text, htext, hshader⟩ := haccess.accessesAt_iff hlowers.lists htype
  have hsame := hshader.1 (hall _ _ _ _ p s f _ _ _ _ text hlowers haccess htext) 4 rfl
  rw [hvalue, hindex] at hsame
  exact absurd hsame (by decide)

end Graph

end KernelFusion
