/-
Coordinates and addresses in any box.

On integers none of the operators fails, and what is recorded has the values of the same
computation on words (`computing`). In a box whose elements can be numbered, the coordinates are
those of the element that the thread number counts, and their address is this number again.
-/
import KernelFusion.Proofs.Pass.Locations

namespace KernelFusion

open List RowMajor

/-- The clamping function is the usual one. -/
def Setting.Clamps (σ : Setting) : Prop :=
  ∀ x y z, signed (σ.compute "clamp" .int [] [x, y, z]) = min (max (signed x) (signed y)) (signed z)

/-- The operators on integers and the usual clamping function; what is left open in other clusters
is given. -/
def Setting.clamping (outer : NodeId → UInt32) : Setting where
  outer := outer
  compute name type words operands :=
    match operands with
    | [x, y, z] =>
      let low := if signed x < signed y then y else x
      if signed z < signed low then z else low
    | _ => Setting.plain.compute name type words operands
  access _ _ _ := 0
  arithmetic := Setting.plain.arithmetic
  neg := Setting.plain.neg
  clamp := by
    intro x y z hy hz
    simp [Int.not_lt.2 hy, Int.not_lt.2 hz]

lemma Setting.clamps_clamping (outer : NodeId → UInt32) : (Setting.clamping outer).Clamps := by
  intro x y z
  show signed (if signed z < signed (if signed x < signed y then y else x) then z
    else if signed x < signed y then y else x) = _
  split_ifs <;> omega

namespace Graph

variable {σ : Setting} {g : Graph} {k : ClusterId} {p : Option Position} {n : NodeId} {x : UInt32}

/-! ### Values in a growing graph -/

/-- Nodes of the cluster can be recorded, and arguments come from labels of the graph. -/
structure OpenAt (g : Graph) (k : ClusterId) : Prop where
  recording : g.recording
  current : g.current = some k
  inside : ∀ n, ∀ a ∈ (g.node n).args, a.source < g.labels.size

/-- The node is a signed integer of the given value. -/
structure Evaluates (σ : Setting) (g : Graph) (k : ClusterId) (p : Option Position) (n : NodeId)
    (i : Int) : Prop where
  named : g.Named n
  type : (g.node n).type = .int
  value : ∃ w, g.Yields σ k p n w ∧ signed w = i

namespace Recorded

variable (h : g.Recorded)

include h

lemma openAt_within (k : ClusterId) : (g.within k).OpenAt k := by
  refine ⟨h.recording, rfl, fun n a ha => ?_⟩
  have hn : n < g.nodes.size := by
    by_contra hge
    have hnone : ((g.within k).node n).args = [] := by
      show (g.node n).args = []
      rw [node_eq_default (Nat.not_lt.1 hge)]
      rfl
    rw [hnone] at ha
    exact not_mem_nil ha
  show a.source < g.labels.size
  rw [h.labelled.size]
  exact Nat.lt_trans (h.earlier n a ha) hn

lemma named_within (hn : n < g.nodes.size) (k : ClusterId) : (g.within k).Named n := by
  have hlabel : g.label n = n := h.labelled.label n hn
  refine ⟨?_, ?_⟩
  · show g.label n < g.labels.size
    rwa [hlabel, h.labelled.size]
  · show g.target (g.label n) = n
    rw [hlabel, h.labelled.target n hn]

lemma evaluates_constant (hn : n < g.nodes.size) (htype : (g.node n).type = .int)
    (hconst : (g.node n).isConst) :
    (g.within k).Evaluates σ k p n (signed (g.node n).word) :=
  ⟨h.named_within hn k, htype, _, .constant hn (Node.valueKind_of_isConst hconst), rfl⟩

lemma evaluates_outside (hn : n < g.nodes.size) (htype : (g.node n).type = .int)
    (hkind : (g.node n).op.valueKind ≠ .word ∧ (g.node n).op.valueKind ≠ .coordinate) :
    (g.within k).Evaluates σ k p n (signed (σ.outer n)) := by
  have hcluster : ((g.within k).node n).cluster ≠ some k := by
    show (g.node n).cluster ≠ some k
    rw [h.cluster n]
    exact (Option.some_ne_none k).symm
  exact ⟨h.named_within hn k, htype, _, .outside hn hkind.1 hkind.2 hcluster, rfl⟩

end Recorded

/-! ### Recording that succeeds -/

/-- The node is a signed integer, and it has the value from now on. -/
structure Computes (σ : Setting) (k : ClusterId) (p : Option Position) (n : NodeId) (x : UInt32)
    (g : Graph) : Prop where
  recording : g.recording
  type : (g.node n).type = .int
  bears : ∀ f, Bears σ default f k p n x g

lemma Evaluates.computes {i : Int} (hg : g.OpenAt k) (h : g.Evaluates σ k p n i) :
    Computes σ k p n (word i) g := by
  obtain ⟨w, hyields, rfl⟩ := h.value
  rw [word_signed]
  refine ⟨hg.recording, h.type, fun f => ⟨Nat.zero_le _, hyields.lt_size, hg.current, ?_, h.named,
    not_movedIn_of_le (Nat.zero_le _), fun hf => ?_⟩⟩
  · rw [h.type]
    exact .inl rfl
  · exact hyields.evolves hf (fun _ _ => not_accessIn_of_le (Nat.zero_le _))
      (fun _ _ _ => not_movedIn_of_le (Nat.zero_le _)) fun _ => hg.inside

lemma Computes.evaluates (h : Computes σ k p n x g) : g.Evaluates σ k p n (signed x) :=
  ⟨(h.bears g).named, h.type, x, (h.bears g).yields (Evolves.refl _ _ g), rfl⟩

lemma Computes.isSigned (h : Computes σ k p n x g) : IsSigned n g := ⟨(h.bears g).lt, h.type⟩

end Graph

namespace Build

open KernelFusion.Graph

variable {σ : Setting} {g g' : Graph} {k : ClusterId} {p : Option Position} {n m l : NodeId}
  {x y z : UInt32}

lemma ends_computes {act : Build NodeId} (hg : g.recording)
    (hact : ∃ o g', act g = .ok o g' ∧ (g'.node o).type = .int)
    (hbears : ∀ f, Keeps (Records default) act g fun o => Bears σ default f k p o x) :
    Ends (Records default) (fun _ _ => False) act g fun o => Computes σ k p o x := by
  obtain ⟨o, g', hok, htype⟩ := hact
  have hrecords := ((hbears g).meets.of_ok hok).1
  exact ends_iff_exists.2 ⟨o, g', hok, hrecords, hrecords.evolves.recording.trans hg, htype,
    fun f => ((hbears f).meets.of_ok hok).2⟩

lemma exists_arithmetic_int (hn : Computes σ k p n x g) (hm : Computes σ k p m y g)
    (f : Arithmetic) :
    ∃ o g', arithmetic f n m g = .ok o g' ∧ (g'.node o).type = .int := by
  obtain ⟨o, g', hok, htype⟩ := exists_arithmetic hn.recording (hn.type.trans hm.type.symm)
    (by rw [hn.type]; rfl) f
  exact ⟨o, g', hok, htype.trans hn.type⟩

lemma exists_clamp_int (hn : Computes σ k p n x g) (hm : Computes σ k p m y g)
    (hl : Computes σ k p l z g) :
    ∃ o g', apply "clamp" [n, m, l] g = .ok o g' ∧ (g'.node o).type = .int := by
  obtain ⟨op, hop, hover⟩ : ∃ op, Operation.find (Text.removeSpaces "clamp") = .ok op ∧
      op.overload? [.int, .int, .int] = some ⟨[.int, .int, .int], .int⟩ := ⟨_, by rfl, by rfl⟩
  have htypes : op.overload? ([n, m, l].map fun n => (g.node n).type) =
      some ⟨[.int, .int, .int], .int⟩ := by
    rw [map_cons, map_cons, map_cons, map_nil, hn.type, hm.type, hl.type, hover]
  exact ⟨_, _, apply_of_overload hn.recording hop htypes, by rw [node_insert_self]⟩

lemma exists_integer (hg : g.recording) (i : Int) :
    ∃ o g', integer i g = .ok o g' ∧ (g'.node o).type = .int := by
  obtain ⟨op, hok⟩ := constant_eq hg (rfl : Scalar.isNumber .int) (word i)
  exact ⟨_, _, hok, by rw [node_insertWith_self]⟩

lemma computing (σ : Setting) (k : ClusterId) (p : Option Position) :
    Reckoning (Records default) (fun _ _ => False) (Computes σ k p) IsSigned
      fun x y z => σ.compute "clamp" .int [] [x, y, z] where
  after _ _ _ _ h := h
  stable h hg := ⟨hg.evolves.recording.trans h.recording,
    (hg.evolves.type _ (h.bears default).lt).trans h.type, fun f => (h.bears f).stable hg⟩
  signed h hg := h.stable hg
  integer {n x g} h i := by
    have hends : Ends (Records default) (fun _ _ => False) (integer i) g
        fun o => Computes σ k p o (word i) :=
      ends_computes h.recording (exists_integer h.recording i) fun f =>
        ((bearing σ default f k p).integer (h.bears f) i).mono fun _ _ _ ho => ho.1
    exact hends.mono fun _ _ _ ho => ⟨ho, ho.isSigned⟩
  add hn hm := ends_computes hn.recording (exists_arithmetic_int hn hm .add) fun f =>
    (bearing σ default f k p).add (hn.bears f) (hm.bears f)
  sub hn hm := ends_computes hn.recording (exists_arithmetic_int hn hm .sub) fun f =>
    (bearing σ default f k p).sub (hn.bears f) (hm.bears f)
  mul hn hm := ends_computes hn.recording (exists_arithmetic_int hn hm .mul) fun f =>
    (bearing σ default f k p).mul (hn.bears f) (hm.bears f)
  div hs hn hm := ends_computes hn.recording (exists_arithmetic_int hn hm .div) fun f =>
    (bearing σ default f k p).div hs (hn.bears f) (hm.bears f)
  clamp hs hn hm hl := ends_computes hn.recording (exists_clamp_int hn hm hl) fun f =>
    (bearing σ default f k p).clamp hs (hn.bears f) (hm.bears f) (hl.bears f)

/-! ### Boxes whose elements can be numbered -/

lemma evaluates_of_computes {i : Nat} (hi : i < 2 ^ 31) (h : Computes σ k p n (UInt32.ofNat i) g) :
    g.Evaluates σ k p n i :=
  signed_ofNat hi ▸ h.evaluates

lemma computes_of_evaluates {i : Nat} (hg : g.OpenAt k) (hi : i < 2 ^ 31)
    (h : g.Evaluates σ k p n i) :
    Computes σ k p n (UInt32.ofNat i) g :=
  word_natCast hi ▸ h.computes hg

section Boxes

variable {ds is : List Nat} {t : Nat} {thread : NodeId} {sizes : List NodeId} {mode : TensorMode}
  {size? : Nat → Option NodeId} {indices : List (Int × NodeId)} {coordinates : List NodeId}

/-- Coordinates are recorded, and they evaluate to those of the thread's element. -/
lemma exists_coordinatesOf (hg : g.OpenAt k)
    (hsizes : Forall₂ (fun n (d : Nat) => g.Evaluates σ k p n d) sizes ds) (hpos : ∀ d ∈ ds, 1 ≤ d)
    (hprod : ds.prod < 2 ^ 31) (hthread : g.Evaluates σ k p thread t)
    (ht : t < ds.prod) : ∃ cs g', coordinatesOf thread sizes g = .ok cs g' ∧ Records default g g' ∧
      Forall₂ (fun c (i : Nat) => Computes σ k p c (UInt32.ofNat i) g') cs
        (RowMajor.coordinates ds t) := by
  have hbears : BearAll (Computes σ k p) sizes (ds.map UInt32.ofNat) g := by
    refine forall₂_map_right_iff.2 ?_
    have hsmall : ∀ d ∈ ds, d < 2 ^ 31 := fun d => lt_of_mem hpos hprod
    clear hpos hprod ht
    induction hsizes with
    | nil => exact .nil
    | cons hn _ ih =>
      rw [forall_mem_cons] at hsmall
      exact .cons (computes_of_evaluates hg hsmall.1 hn) (ih hsmall.2)
  have hcomputes := computes_of_evaluates hg (Nat.lt_trans ht hprod) hthread
  obtain ⟨cs, g', hok, hrecords, hcs⟩ := ends_iff_exists.1
    ((computing σ k p).ends_coordinatesOf hcomputes.isSigned hcomputes hbears)
  rw [Address.coordinates_ofNat hpos hprod ht] at hcs
  exact ⟨cs, g', hok, hrecords, forall₂_map_right_iff.1 hcs⟩

lemma exists_flatIndex (hmode : mode = .unchecked ∨ mode = .clamp) (hds : ds ≠ [])
    (hlength : is.length = ds.length) {x : Nat → UInt32}
    (hsize : ∀ i d, ds[i]? = some d → Computes σ k p ((size? i).getD 0) (UInt32.ofNat d) g)
    (hindex : ∀ i < ds.length, Computes σ k p (indexNode indices coordinates i) (x i) g)
    (his : ∀ i d c, ds[i]? = some d → is[i]? = some c →
      Address.index (fun x y z => σ.compute "clamp" .int [] [x, y, z]) mode (UInt32.ofNat d) (x i) =
        UInt32.ofNat c) :
    ∃ n g', flatIndex mode ds.length size? indices coordinates g = .ok n g' ∧
      Computes σ k p n (UInt32.ofNat (number ds is)) g' := by
  have hpos : 0 < ds.length := length_pos_of_ne_nil hds
  have hsizes : ∀ i < ds.length, Computes σ k p ((size? i).getD 0)
    (UInt32.ofNat (ds.getD i 0)) g := by
    intro i hi
    rw [getD_eq_getElem?_getD, getElem?_eq_getElem hi]
    exact hsize i _ (getElem?_eq_getElem hi)
  obtain ⟨n, g', hok, -, hn⟩ := ends_iff_exists.1 ((computing σ k p).ends_flatIndex
    (hmode.imp id .inl) (d := fun i => UInt32.ofNat (ds.getD i 0)) (x := x) hsizes
    (fun _ => hsizes 0 hpos) fun i hi => hindex i (by omega))
  refine ⟨n, g', hok, ?_⟩
  have hd : ∀ i d, ds[i]? = some d → UInt32.ofNat (ds.getD i 0) = UInt32.ofNat d := fun i d hi => by
    rw [getD_eq_getElem?_getD, hi, Option.getD_some]
  rwa [Address.flat_ofNat hds hlength hd fun i c hc => ?_] at hn
  have hi : i < ds.length := hlength ▸ (List.getElem?_eq_some_iff.1 hc).1
  have hget := getElem?_eq_getElem hi
  rw [hd i _ hget]
  exact his i _ c hget hc

/-- For every box whose elements can be numbered by words, whichever sizes are constants, and for
every thread number in it: recording coordinates succeeds, and they have the values of the one
element of this number. Recording the address of these coordinates in memory of such sizes succeeds
too, with and without clamping, and its value is the thread number. -/
theorem coordinatesOf_rowMajor (hg : g.OpenAt k) (hds : ds ≠ [])
    (hsizes : Forall₂ (fun n (d : Nat) => g.Evaluates σ k p n d) sizes ds) (hpos : ∀ d ∈ ds, 1 ≤ d)
    (hprod : ds.prod < 2 ^ 31) (hthread : g.Evaluates σ k p thread t)
    (ht : t < ds.prod) : ∃ cs g' is, coordinatesOf thread sizes g = .ok cs g' ∧
      Forall₂ (fun c (i : Nat) => g'.Evaluates σ k p c i) cs is ∧
      (∀ js, RowMajor.IsElement ds t js ↔ js = is) ∧
      ∀ mode, mode = .unchecked ∨ mode = .clamp → ∀ size? indices coordinates,
        (∀ i (d : Nat), ds[i]? = some d → g.Evaluates σ k p ((size? i).getD 0) d) →
        (∀ i c, cs[i]? = some c → indexNode indices coordinates i = c) →
        ∃ n g'', flatIndex mode ds.length size? indices coordinates g' = .ok n g'' ∧
          g''.Evaluates σ k p n t := by
  obtain ⟨cs, g', hok, hrecords, hcs⟩ := exists_coordinatesOf hg hsizes hpos hprod hthread ht
  have hsmall : ∀ i ∈ coordinates ds t, i < 2 ^ 31 := fun i hi =>
    Nat.lt_of_le_of_lt (le_of_mem_coordinates hi) (Nat.lt_trans ht hprod)
  refine ⟨cs, g', coordinates ds t, hok, ?_, fun js => isElement_iff hpos ht, ?_⟩
  · refine forall₂_iff_get.2 ⟨hcs.length_eq, fun i hi hi' => ?_⟩
    exact evaluates_of_computes (hsmall _ (get_mem ..)) (hcs.get hi hi')
  intro mode hmode size? indices coordinates hmemory hindices
  have hindex : ∀ i < ds.length, Computes σ k p (indexNode indices coordinates i)
      (UInt32.ofNat ((RowMajor.coordinates ds t).getD i 0)) g' := by
    intro i hi
    have hi' : i < (RowMajor.coordinates ds t).length := by rwa [RowMajor.length_coordinates]
    have hlt : i < cs.length := hcs.length_eq ▸ hi'
    rw [hindices i _ (getElem?_eq_getElem hlt), getD_eq_getElem?_getD, getElem?_eq_getElem hi']
    exact hcs.get hlt hi'
  obtain ⟨n, g'', hflat, hn⟩ := exists_flatIndex hmode hds (length_coordinates ds t)
    (fun i d hi => (computing σ k p).stable (computes_of_evaluates hg
      (lt_of_mem hpos hprod (mem_of_getElem? hi)) (hmemory i d hi)) hrecords) hindex
    fun i d c hd hc => by
      have hmem := mem_of_getElem? hd
      rw [getD_eq_getElem?_getD, hc, Option.getD_some]
      exact Address.index_ofNat (fun _ _ _ => σ.clamp) mode
        (coordinate_lt hd (hpos d hmem) hc) (lt_of_mem hpos hprod hmem)
  rw [number_coordinates, Nat.mod_eq_of_lt ht] at hn
  exact ⟨n, g'', hflat, evaluates_of_computes (Nat.lt_trans ht hprod) hn⟩

/-- A constant and two thread numbers of some other kernel. -/
def threadOfBox : List Step :=
  [ .act (.constant .int 2 (.sizes [])) (some "rows"),
    .act (.threadIndex (.extent (.tensors ["rows"]))) (some "columns"),
    .act (.threadIndex (.extent (.tensors ["rows"]))) (some "thread") ]

/-- The box has three columns, and the thread has the number four. -/
def boxSetting : Setting := .clamping fun n => if n = 1 then 3 else 4

lemma evaluates_threadOfBox : Forall₂
    (fun n (d : Nat) => ((Script.scene threadOfBox).graph.within 0).Evaluates boxSetting 0 none n d)
    [0, 1, 2] [2, 3, 4] := by
  have h := (Script.recorded (l := threadOfBox) (by decide +kernel)).graph
  have hrows : ((Script.scene threadOfBox).graph.within 0).Evaluates boxSetting 0 none
    0 (2 : Nat) :=
    h.evaluates_constant (by decide +kernel) (by decide +kernel) (by decide +kernel)
  have hcolumns : ((Script.scene threadOfBox).graph.within 0).Evaluates boxSetting 0 none
    1 (3 : Nat) :=
    h.evaluates_outside (by decide +kernel) (by decide +kernel) (by decide +kernel)
  have hthread : ((Script.scene threadOfBox).graph.within 0).Evaluates boxSetting 0 none
    2 (4 : Nat) :=
    h.evaluates_outside (by decide +kernel) (by decide +kernel) (by decide +kernel)
  exact .cons hrows (.cons hcolumns (.cons hthread .nil))

theorem coordinatesOf_threadOfBox :
    ∃ cs g', coordinatesOf 2 [0, 1] ((Script.scene threadOfBox).graph.within 0) = .ok cs g' ∧
      Forall₂ (fun c (i : Nat) => g'.Evaluates boxSetting 0 none c i) cs [1, 1] := by
  have h := (Script.recorded (l := threadOfBox) (by decide +kernel)).graph
  have hvalues := evaluates_threadOfBox
  simp only [forall₂_cons] at hvalues
  obtain ⟨hrows, hcolumns, hthread, -⟩ := hvalues
  obtain ⟨cs, g', is, hok, hcs, his, -⟩ := coordinatesOf_rowMajor (h.openAt_within 0)
    (cons_ne_nil _ _) (.cons hrows (.cons hcolumns .nil)) (by decide) (by decide)
    hthread (by decide)
  obtain rfl := (his [1, 1]).1 ⟨by decide, by decide⟩
  exact ⟨cs, g', hok, hcs⟩

/-- In clamp mode, recording the address of any indices in memory of any such sizes succeeds,
whether the indices are explicit or coordinates, and the address lies in the memory. -/
theorem flatIndex_clamp_lt (hclamp : σ.Clamps) (hg : g.OpenAt k) (hds : ds ≠ [])
    (hpos : ∀ d ∈ ds, 1 ≤ d) (hprod : ds.prod < 2 ^ 31)
    (hsize : ∀ i (d : Nat), ds[i]? = some d → g.Evaluates σ k p ((size? i).getD 0) d)
    (hindex : ∀ i < ds.length, ∃ v, g.Evaluates σ k p (indexNode indices coordinates i) v) :
    ∃ n g' f, flatIndex .clamp ds.length size? indices coordinates g = .ok n g' ∧
      g'.Evaluates σ k p n f ∧ 0 ≤ f ∧ f < ds.prod := by
  have hsmall : ∀ {d}, d ∈ ds → d < 2 ^ 31 := lt_of_mem hpos hprod
  choose! v hv using hindex
  -- the indices become the coordinates of some element
  have hclamped : ∀ i, ∃ c, ∀ d, ds[i]? = some d → c < d ∧
      Address.index (fun x y z => σ.compute "clamp" .int [] [x, y, z]) .clamp (UInt32.ofNat d)
        (word (v i)) = UInt32.ofNat c := by
    intro i
    cases hd : ds[i]? with
    | none => exact ⟨0, fun d h => by cases h⟩
    | some d =>
      have hmem := mem_of_getElem? hd
      obtain ⟨c, hc, hindex⟩ := Address.exists_index_clamp hclamp (hpos d hmem)
        (hsmall hmem) (word (v i))
      exact ⟨c, fun d' h => Option.some.inj h ▸ ⟨hc, hindex⟩⟩
  choose c hc using hclamped
  have hlt : Forall₂ (· < ·) ((range ds.length).map c) ds := by
    refine forall₂_iff_get.2 ⟨by simp, fun i hi hi' => ?_⟩
    simpa using (hc i _ (getElem?_eq_getElem hi')).1
  obtain ⟨n, g', hok, hn⟩ := exists_flatIndex (Or.inr rfl) hds hlt.length_eq
    (fun i d hi => computes_of_evaluates hg (hsmall (mem_of_getElem? hi)) (hsize i d hi))
    (fun i hi => (hv i hi).computes hg) fun i d c' hd hc' => by
      have hi := (List.getElem?_eq_some_iff.1 hd).1
      rw [getElem?_map, getElem?_range hi, Option.map_some] at hc'
      rw [(hc i d hd).2, Option.some.inj hc']
  have hnumber := number_lt hlt
  exact ⟨n, g', _, hok, evaluates_of_computes (Nat.lt_trans hnumber hprod) hn, Int.natCast_nonneg _,
    Int.ofNat_lt.2 hnumber⟩

/-- The thread number is no index of a row, and none of a column. -/
theorem flatIndex_clamp_threadOfBox : ∃ n g' f, flatIndex .clamp 2 (fun i => [0, 1][i]?)
    [(0, 2)] [0, 2]
      ((Script.scene threadOfBox).graph.within 0) = .ok n g' ∧
    g'.Evaluates boxSetting 0 none n f ∧ 0 ≤ f ∧ f < 6 := by
  have h := (Script.recorded (l := threadOfBox) (by decide +kernel)).graph
  have hvalues := evaluates_threadOfBox
  simp only [forall₂_cons] at hvalues
  obtain ⟨hrows, hcolumns, hthread, -⟩ := hvalues
  have hsize : ∀ i d : Nat, [2, 3][i]? = some d →
      ((Script.scene threadOfBox).graph.within 0).Evaluates boxSetting 0 none
      (([0, 1][i]?).getD 0) d := by
    intro i d hi
    rcases i with _ | _ | i
    · exact Option.some.inj hi ▸ hrows
    · exact Option.some.inj hi ▸ hcolumns
    · cases hi
  refine flatIndex_clamp_lt (Setting.clamps_clamping _) (h.openAt_within 0) (cons_ne_nil _ _)
    (by decide) (by decide) hsize fun i hi => ?_
  rcases i with _ | _ | i
  · exact ⟨4, hthread⟩
  · exact ⟨4, hthread⟩
  · exact absurd hi (by simp)

end Boxes

end Build

end KernelFusion
