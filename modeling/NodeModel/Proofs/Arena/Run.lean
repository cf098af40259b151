import NodeModel.Proofs.Arena.CloneRun

/-! Runs: any operations in any order, from the empty arena on. An operation that fails leaves the
arena as it is. -/
namespace NodeModel.Arena

inductive Operation where
  | construct (cls : String) (arguments : List (Option Value))
  | set (id : NodeId) (field : String) (value : Value)
  | clone (id : NodeId) (copier : Copier)

def apply (arena : Arena) : Operation → Arena
  | .construct cls arguments =>
    match arena.construct cls arguments with
    | .ok (_,grown) => grown
    | .error _ => arena
  | .set id field value =>
    match arena.set id field value with
    | .ok changed => changed
    | .error _ => arena
  | .clone id copier => (arena.clone copier id).arena

def run (arena : Arena) (operations : List Operation) : Arena := operations.foldl apply arena

@[simp] theorem apply_model (arena : Arena) (operation : Operation) :
    (arena.apply operation).model = arena.model := by
  cases operation with
  | construct cls arguments =>
    simp only [apply]
    split
    next done =>
      obtain ⟨_,_,_,_,_,_,rfl⟩ := construct_eq_ok_iff.mp done
      rfl
    next => rfl
  | set id field value =>
    simp only [apply]
    split
    next done =>
      obtain ⟨_,_,_,_,_,_,_,_,rfl⟩ := set_eq_ok_iff.mp done
      rfl
    next => rfl
  | clone id copier => rfl

@[simp] theorem run_model (arena : Arena) (operations : List Operation) :
    (arena.run operations).model = arena.model := by
  induction operations generalizing arena with
  | nil => rfl
  | cons operation operations ih => exact (ih _).trans (apply_model arena operation)

def Operation.Respects (held : String → ExternalRef → Prop) : Operation → Prop
  | .clone _ copier => ∀ name ref new, held name ref → copier.Returns ref new → held name new
  | _ => True

theorem Operation.respects_all (operation : Operation) : operation.Respects fun _ _ => True := by
  cases operation with
  | clone => exact fun _ _ _ _ _ => trivial
  | _ => trivial

variable {model : Model} {held : String → ExternalRef → Prop}

theorem apply_valid {arena : Arena} (consistent : arena.model.Consistent)
    (weaker : ∀ name ref, name = ref.type → held name ref)
    (valid : AllValid arena.model held arena.nodes) {operation : Operation}
    (respects : operation.Respects held) :
    AllValid (arena.apply operation).model held (arena.apply operation).nodes := by
  cases operation with
  | construct cls arguments =>
    simp only [apply]
    split
    next done => exact construct_valid consistent weaker valid done
    next => exact valid
  | set id field value =>
    simp only [apply]
    split
    next done => exact set_valid consistent weaker valid done
    next => exact valid
  | clone id copier =>
    by_cases inArena : id < arena.size
    · obtain ⟨copy,after,_,same,cloned⟩ := clone_existing consistent valid copier inArena
      simp only [apply,same]
      exact cloned.valid consistent respects valid (List.forall_mem_singleton.mpr inArena)
    · have same := clone_missing copier (Nat.not_lt.mp inArena)
      simpa only [apply,same] using valid

theorem run_valid {arena : Arena} (consistent : arena.model.Consistent)
    (weaker : ∀ name ref, name = ref.type → held name ref)
    (valid : AllValid arena.model held arena.nodes) {operations : List Operation}
    (respects : ∀ operation ∈ operations, operation.Respects held) :
    AllValid (arena.run operations).model held (arena.run operations).nodes := by
  induction operations generalizing arena with
  | nil => exact valid
  | cons operation operations ih =>
    refine ih ((apply_model arena operation).symm ▸ consistent)
      (apply_valid consistent weaker valid (respects operation List.mem_cons_self)) ?_
    exact fun other member => respects other (List.mem_cons_of_mem _ member)

/-- The arenas that come up over a model in runs of the operations allowed. -/
def Reached (model : Model) (allowed : Operation → Prop) (arena : Arena) : Prop :=
  ∃ operations : List Operation, (∀ operation ∈ operations, allowed operation) ∧
    (empty model).run operations = arena

theorem Reached.valid {allowed : Operation → Prop} {arena : Arena}
    (reached : Reached model allowed arena) (consistent : model.Consistent)
    (weaker : ∀ name ref, name = ref.type → held name ref)
    (respects : ∀ operation, allowed operation → operation.Respects held) :
    AllValid model held arena.nodes := by
  obtain ⟨operations,each,rfl⟩ := reached
  have start : AllValid (empty model).model held (empty model).nodes := by
    intro id node found
    simp [empty] at found
  have valid := run_valid (show (empty model).model.Consistent from consistent) weaker start
    fun operation member => respects operation (each operation member)
  rwa [run_model] at valid

/-- Without a condition on the copiers nothing is known of external values, but all else is. -/
theorem Reached.valid_any {allowed : Operation → Prop} {arena : Arena}
    (reached : Reached model allowed arena) (consistent : model.Consistent) :
    AllValid model (fun _ _ => True) arena.nodes :=
  reached.valid consistent (fun _ _ _ => trivial) fun operation _ => operation.respects_all

/-- Two classes with owned, shared, reset and external fields. -/
def sample : Schema where
  externals := ["Type"]
  nodes := [
    { name := "Item", fields := [{ name := "label", kind := .primitive .text }] },
    { name := "Group"
      superclass := some "Item"
      fields := [
        { name := "members", kind := .list "Item" },
        { name := "first", kind := .single "Item", policy := { optional := true } },
        { name := "parent"
          kind := .single "Group"
          policy := { bound := false, copyMode := some .share } },
        { name := "stamp"
          kind := .primitive .integer
          policy := { bound := false, copyMode := some .reset } },
        { name := "type"
          kind := .primitive (.external "Type")
          policy := { copyMode := some .external } }] }]

def sampleModel : Model := sample.resolvedModel ⟨["Type"]⟩

theorem sample_resolved : sample.resolveWith ⟨["Type"]⟩ = .ok sampleModel := rfl

/-- A group that lists one item twice and is its own parent. The two operations on node 7 fail. -/
def sampleRun : List Operation :=
  [.construct "Item" [some (.text "a")],
   .construct "Group" [some (.text "b"),some (.list [0,0]),none,some (.external ⟨"Type",7⟩)],
   .set 1 "parent" (.node 1),
   .set 7 "stamp" (.integer 3),
   .clone 7 fun _ ref => ref,
   .clone 1 fun _ ref => ref]

def sampleArena : Arena := (empty sampleModel).run sampleRun

theorem sampleArena_reached {allowed : Operation → Prop}
    (each : ∀ operation ∈ sampleRun, allowed operation) :
    Reached sampleModel allowed sampleArena := ⟨sampleRun,each,rfl⟩

end NodeModel.Arena
