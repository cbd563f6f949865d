/-
Passes neither open nor close a graph.

Recording nodes, moving the cursor and changing arguments leave alone whether the graph records,
also where they fail, in every graph whatever has been done to it.
-/
import KernelFusion.Program
import KernelFusion.Proofs.Build.Reckoning

namespace KernelFusion

/-- Either both graphs record or none. -/
def Graph.SameContext (g g' : Graph) : Prop := g'.recording = g.recording

instance : IsPreorder Graph Graph.SameContext where
  refl _ := rfl
  trans _ _ _ h h' := Eq.trans h' h

/-- The action leaves open whether the graph records, however it ends. -/
def Steady {α : Type} (act : Build α) : Prop := ∀ g, Keeps Graph.SameContext act g fun _ _ => True

/-! ### Composition -/

section Composition

variable {α β : Type} {act : Build α}

lemma Steady.bind {k : α → Build β} (h : Steady act) (hk : ∀ a, Steady (k a)) :
    Steady (act >>= k) :=
  fun g => (h g).bind fun a g' _ _ => hk a g'

namespace Build

lemma steady_pure (a : α) : Steady (pure a) := fun _ => ends_pure trivial

lemma steady_throw (e : Fault) : Steady (throw e : Build α) := fun _ => keeps_throw

lemma steady_get_bind {k : Graph → Build α} (h : ∀ g, Steady (k g)) : Steady (get >>= k) :=
  fun g => keeps_get_bind (h g g)

lemma steady_modify {f : Graph → Graph} (h : ∀ g, (f g).recording = g.recording) :
    Steady (modify f : Build PUnit) :=
  fun g => keeps_modify (h g) trivial

lemma steady_mapM {f : β → Build α} (h : ∀ b, Steady (f b)) (l : List β) : Steady (l.mapM f) :=
  fun _ => (keeps_mapM (fun _ _ => trivial) fun b _ g' _ => h b g').mono fun _ _ _ _ => trivial

lemma steady_forM {f : β → Build PUnit} (h : ∀ b, Steady (f b)) (l : List β) : Steady (l.forM f) :=
  fun _ => keeps_forM fun b _ g' _ => h b g'

lemma steady_placed (h : Steady act) (p : Graph.Place) (n : NodeId) (inCluster : Bool) :
    Steady (placed p n inCluster act) := by
  intro g
  have henter : (g.enter p n inCluster).recording = g.recording := by cases p <;> rfl
  have hmeets := (h (g.enter p n inCluster)).meets
  have hplaced := placed_eq p n inCluster act g
  cases hact : act (g.enter p n inCluster) with
  | ok a g' =>
    rw [hact] at hplaced
    exact ⟨meets_of_ok hplaced ⟨(hmeets.of_ok hact).1.trans henter, trivial⟩⟩
  | error e g' =>
    rw [hact] at hplaced
    exact ⟨meets_of_error hplaced ((hmeets.of_error hact).trans henter)⟩

lemma steady_of_cases
    (h : ∀ g, (∃ e, act g = .error e g) ∨ ∃ a g', act g = .ok a g' ∧ g'.recording = g.recording) :
    Steady act := by
  intro g
  rcases h g with ⟨e, he⟩ | ⟨a, g', hok, hsame⟩
  · exact ⟨meets_of_error he rfl⟩
  · exact ⟨meets_of_ok hok ⟨hsame, trivial⟩⟩

end Build

end Composition

namespace Build

/-! ### Recording -/

lemma steady_record (op : Operation) (type : Scalar) (args : List Argument) :
    Steady (record op type args) := by
  refine steady_of_cases fun g => (record_cases g op type args).imp id ?_
  rintro ⟨-, hok⟩
  exact ⟨_, _, hok, rfl⟩

lemma steady_apply (name : String) (operands : List NodeId) : Steady (apply name operands) := by
  refine steady_of_cases fun g => (apply_cases g name operands).imp id ?_
  rintro ⟨-, op, o, -, -, hok⟩
  exact ⟨_, _, hok, rfl⟩

lemma steady_access (name : String) (memory : NodeId) (indices operands : List NodeId) :
    Steady (access name memory indices operands) := by
  refine steady_of_cases fun g => (access_cases g name memory indices operands).imp id ?_
  rintro ⟨-, op, o, -, -, -, hok⟩
  exact ⟨_, _, hok, rfl⟩

lemma steady_source (name : String) (shape : List Argument) (type : Scalar) :
    Steady (source name shape type) := by
  refine steady_of_cases fun g => (source_cases g name shape type).imp id ?_
  rintro ⟨-, op, -, -, hok⟩
  exact ⟨_, _, hok, rfl⟩

lemma steady_sourceWith (name : String) (shape : List Argument) (type : Scalar)
    (data : List UInt32) :
    Steady (sourceWith name shape type data) := by
  refine steady_of_cases fun g => (sourceWith_cases g name shape type data).imp id ?_
  rintro ⟨-, op, -, hok⟩
  exact ⟨_, _, hok, rfl⟩

lemma steady_copyNode (n : NodeId) (args : List Argument) : Steady (copyNode n args) := by
  refine steady_get_bind fun g => (steady_record _ _ _).bind fun c => ?_
  refine Steady.bind (steady_modify ?_) fun _ => steady_pure c
  exact fun _ => rfl

lemma steady_shapeArguments (n : NodeId) : Steady (shapeArguments n) :=
  steady_get_bind fun _ => steady_pure _

lemma recorder_sameContext : Recorder Graph.SameContext fun _ _ => True where
  stable _ _ := trivial
  constant _ _ _ := steady_sourceWith _ _ _ _ _
  apply _ _ _ := steady_apply _ _ _

/-! ### Recomputing -/

lemma steady_copiedArguments (copies : Copies) (n : NodeId) :
    Steady (copiedArguments copies n) := by
  refine steady_get_bind fun g => steady_mapM (fun a => ?_) _
  split
  · split
    · exact steady_pure _
    · exact steady_throw _
  · exact steady_pure _

lemma steady_copyNodes (copies : Copies) (ns : List NodeId) : Steady (copyNodes copies ns) := by
  induction ns generalizing copies with
  | nil => exact steady_pure _
  | cons n ns ih =>
    exact (steady_copiedArguments copies n).bind fun args =>
      (steady_copyNode n args).bind fun c => ih _

lemma steady_useCopy (copies : Copies) (n : NodeId) (position : Nat) :
    Steady (useCopy copies n position) := by
  refine steady_modify fun g => ?_
  split
  · split <;> rfl
  · rfl

lemma steady_recompute : Steady recompute := by
  refine steady_get_bind fun g => steady_forM (fun k => steady_get_bind fun g => ?_) _
  split
  · split
    · exact steady_pure _
    · refine (steady_placed (steady_get_bind fun _ => steady_copyNodes _ _) _ _ _).bind
        fun copies => ?_
      refine steady_forM ?_ _
      rintro ⟨n, i⟩
      exact steady_useCopy copies n i
  · exact steady_pure _

/-! ### Passing values through memory -/

lemma steady_spillMemory (e : Export) (head : NodeId) : Steady (spillMemory e head) := by
  refine steady_placed ?_ _ _ _
  refine (steady_shapeArguments _).bind fun shape => steady_get_bind fun g => ?_
  refine (steady_source _ _ _).bind fun m => ?_
  -- the role of the value is looked up in the graph that is changed
  intro g
  refine keeps_get_bind ?_
  dsimp only
  split
  · exact ⟨⟨rfl, trivial⟩⟩
  · exact ends_pure trivial

lemma steady_loadFor (m user : NodeId) (position : Nat) : Steady (loadFor m user position) := by
  refine steady_placed ((steady_access _ _ _ _).bind fun l => ?_) _ _ _
  refine steady_modify ?_
  exact fun _ => rfl

lemma steady_spillUse (m : NodeId) (u : Use) : Steady (spillUse m u) := by
  unfold spillUse
  split
  · refine steady_modify ?_
    exact fun _ => rfl
  · exact steady_loadFor m u.user u.position

lemma steady_spillStore (e : Export) (m : NodeId) : Steady (spillStore e m) := by
  refine steady_placed ((steady_access _ _ _ _).bind fun s => ?_) _ _ _
  refine steady_modify ?_
  exact fun _ => rfl

lemma steady_spillExport (e : Export) : Steady (spillExport e) := by
  refine steady_get_bind fun g => ?_
  split
  · refine (steady_spillMemory e _).bind fun m => ?_
    exact (steady_forM (steady_spillUse m) _).bind fun _ => steady_spillStore e m
  · refine Steady.bind (steady_modify ?_) fun _ => steady_throw _
    exact fun _ => rfl

lemma steady_loadDirect (n : NodeId) : Steady (loadDirect n) := by
  refine steady_get_bind fun g => steady_forM ?_ _
  rintro ⟨a, i⟩
  dsimp only
  split
  · exact steady_loadFor _ n i
  · exact steady_pure _

lemma steady_spill : Steady spill := by
  refine steady_get_bind fun g => (steady_forM steady_spillExport _).bind fun _ => ?_
  exact steady_get_bind fun g => steady_forM steady_loadDirect _

/-! ### Flat addresses -/

lemma steady_replaceCoordinates (coordinates : List NodeId) (found : List (NodeId × Int)) :
    Steady (replaceCoordinates coordinates found) := by
  induction found with
  | nil => exact steady_pure _
  | cons q rest ih =>
    obtain ⟨n, dim⟩ := q
    unfold replaceCoordinates
    split
    · exact steady_throw _
    · refine Steady.bind (steady_modify ?_) fun _ => ih
      exact fun _ => rfl

lemma recording_foldl_remove {β : Type} (f : β → NodeId) (l : List β) (g : Graph) :
    (l.foldl (fun g b => g.remove (f b)) g).recording = g.recording := by
  induction l generalizing g with
  | nil => rfl
  | cons b l ih => exact ih _

lemma steady_linearCoordinates (k : ClusterId) (head : NodeId) (sizes : List NodeId) :
    Steady (linearCoordinates k head sizes) := by
  have hthread : Steady (do
      let thread ← threadIndex (← shapeArguments head)
      return (thread, ← coordinatesOf thread sizes) : Build (NodeId × List NodeId)) := by
    refine (steady_shapeArguments head).bind fun shape =>
      (steady_source _ _ _).bind fun thread => ?_
    exact Steady.bind (fun _ => recorder_sameContext.keeps_coordinatesOf _ _) fun _ => steady_pure _
  refine (steady_placed hthread _ _ _).bind ?_
  rintro ⟨thread, coordinates⟩
  refine steady_get_bind fun g => (steady_replaceCoordinates _ _).bind fun _ => ?_
  refine Steady.bind (steady_modify ?_) fun _ => steady_pure _
  exact recording_foldl_remove Prod.fst _

lemma steady_multiCoordinates (k : ClusterId) (rank : Nat) : Steady (multiCoordinates k rank) := by
  refine steady_get_bind fun g => ?_
  split
  · exact steady_throw _
  · refine steady_mapM (fun i => ?_) _
    split
    · exact steady_pure _
    · refine steady_get_bind fun g => ?_
      split
      · exact steady_placed ((steady_shapeArguments _).bind fun _ =>
          steady_sourceWith _ _ _ _) _ _ _
      · exact steady_pure _

lemma steady_flattenAccess (thread : Option NodeId) (coordinates : List NodeId) (n : NodeId) :
    Steady (flattenAccess thread coordinates n) := by
  refine steady_placed (steady_get_bind fun g => ?_) _ _ _
  dsimp only
  split
  · refine steady_modify ?_
    exact fun _ => rfl
  · refine Steady.bind (fun _ => recorder_sameContext.keeps_flatIndex _ _ _ _ _) fun flat =>
      steady_modify ?_
    exact fun _ => rfl

lemma steady_flattenCluster (k : ClusterId) : Steady (flattenCluster k) := by
  have haccesses : ∀ q : Option NodeId × List NodeId, Steady (do
      let g ← get
      ((g.run k).filter fun n => (g.node n).op.kind.accesses).forM (flattenAccess q.1 q.2)) :=
    fun q => steady_get_bind fun g => steady_forM (steady_flattenAccess q.1 q.2) _
  refine steady_get_bind fun g => ?_
  dsimp only
  split
  · exact steady_pure _
  · split
    · exact steady_pure _
    · split
      · exact (steady_linearCoordinates _ _ _).bind fun q => (steady_pure _).bind haccesses
      · exact (steady_multiCoordinates _ _).bind fun c => (steady_pure _).bind haccesses
      · exact (steady_multiCoordinates _ _).bind fun c => (steady_pure _).bind haccesses
      · exact (steady_throw _).bind haccesses

lemma steady_flatten : Steady flatten :=
  steady_get_bind fun _ => steady_forM steady_flattenCluster _

/-! ### All passes -/

lemma recording_clusterize (g : Graph) : g.clusterize.recording = g.recording := by
  have hstep : ∀ (s : Graph.Sweep) (n : NodeId),
    (s.step n).graph.recording = s.graph.recording := by
    intro s n
    rw [Graph.Sweep.step]
    dsimp only
    split <;> rfl
  have hall : ∀ (l : List NodeId) (s : Graph.Sweep),
      (l.foldl Graph.Sweep.step s).graph.recording = s.graph.recording := by
    intro l
    induction l with
    | nil => exact fun _ => rfl
    | cons n l ih => exact fun s => (ih _).trans (hstep s n)
  exact hall g.order { graph := g }

lemma steady_setOutputs (outputs : List NodeId) : Steady (setOutputs outputs) := by
  refine steady_modify fun g => ?_
  induction outputs.zipIdx generalizing g with
  | nil => rfl
  | cons q rest ih => exact ih _

lemma steady_kernels : Steady kernels := by
  refine steady_get_bind fun g => ?_
  split
  · exact steady_pure _
  · exact steady_throw _

/-- The action closes the graph if it succeeds, and otherwise leaves open whether it records. -/
def Closes {α : Type} (act : Build α) : Prop :=
  ∀ g, Meets act g (fun _ g' => g'.recording = false) g.SameContext

lemma closes_bind {α β : Type} {act : Build α} {k : α → Build β} (h : Steady act)
    (hk : ∀ a, Closes (k a)) : Closes (act >>= k) := by
  refine fun g => Meets.bind ((h g).meets.mono ?_ fun _ h => h)
  rintro a g' ⟨hsame, -⟩
  exact (hk a g').mono (fun _ _ h => h) fun g'' h => trans_of Graph.SameContext hsame h

lemma closes_transform (outputs : List NodeId) : Closes (transform outputs) := by
  refine closes_bind (steady_setOutputs outputs) fun _ => closes_bind (steady_modify ?_) fun _ => ?_
  · exact fun _ => rfl
  refine closes_bind (steady_modify recording_clusterize) fun _ => ?_
  refine closes_bind steady_recompute fun _ => ?_
  refine closes_bind (steady_modify fun g => recording_foldl_remove id _ g) fun _ => ?_
  refine closes_bind steady_spill fun _ => closes_bind steady_flatten fun _ => ?_
  exact closes_bind steady_kernels fun _ _ => rfl

end Build

end KernelFusion
