import NodeModel.Arena.Basic

/-! Walks along children. Shared nodes are visited once per path; an edge back to a node of the
current path is passed over. A walk keeps a stack of steps and one mark per node. -/
namespace NodeModel.Arena

inductive Step where
  | enter (id : NodeId)
  | leave (id : NodeId)
deriving DecidableEq, Repr

/-- One mark per node, set while the node is on the current path. -/
abbrev Marks (arena : Arena) := Vector Bool arena.size

namespace Marks

variable {arena : Arena} (marks : Marks arena) (id : NodeId)

def contains : Bool := marks[id]?.getD false

def mark : Marks arena := marks.setIfInBounds id true

def clear : Marks arena := marks.setIfInBounds id false

/-- The steps into those children that are not on the path. -/
def ahead (children : List NodeId) : List Step :=
  (children.filter fun child => !marks.contains child).map .enter

/-- The number of nodes off the path. -/
def free : Nat := marks.count false

theorem clear_mark : (marks.mark id).clear id = marks.clear id :=
  Vector.setIfInBounds_setIfInBounds true

variable {marks id}

theorem ahead_skip (present : marks.contains id = true) (children : List NodeId) :
    marks.ahead (id :: children) = marks.ahead children := by
  simp [ahead, present]

theorem ahead_enter (absent : marks.contains id = false) (children : List NodeId) :
    marks.ahead (id :: children) = .enter id :: marks.ahead children := by
  simp [ahead, absent]

theorem clear_eq_self (absent : marks.contains id = false) : marks.clear id = marks := by
  apply Vector.ext
  intro place bound
  rw [clear, Vector.getElem_setIfInBounds bound]
  split
  next same =>
    subst same
    simpa [contains, bound] using absent.symm
  next => rfl

theorem free_clear (inside : id < arena.size) :
    (marks.clear id).free = (marks.mark id).free + 1 := by
  have one : marks.clear id = (marks.mark id).set id false inside := by
    apply Vector.ext
    intro place bound
    by_cases same : id = place <;>
      simp [clear, mark, Vector.getElem_setIfInBounds bound, same]
  have marked : (marks.mark id)[id] = true := by simp [mark]
  rw [free, one, Vector.count_set inside, marked]
  rfl

end Marks

/-- The number of edges that leave the first `count` nodes. -/
def edgeCount (arena : Arena) : Nat → Nat
  | 0 => 0
  | count + 1 => arena.edgeCount count + ((arena.children count).toOption.getD []).length

/-- The steps that a visit can take while `free` nodes are off the path, the visited one among
them. -/
def visitBound (degree : Nat) : Nat → Nat
  | 0 => 2
  | free + 1 => 2 + degree * visitBound degree free

/-- The steps that a stack can take. Once a step and all it leads to is done, its node is off the
path. -/
def stepBound (arena : Arena) (marks : Marks arena) : List Step → Nat
  | [] => 0
  | .leave id :: stack => 1 + stepBound arena (marks.clear id) stack
  | .enter id :: stack =>
    visitBound (arena.edgeCount arena.size) (marks.clear id).free +
      stepBound arena (marks.clear id) stack

variable {arena : Arena} {id : NodeId} {children : List NodeId}

theorem length_le_edgeCount (given : arena.children id = .ok children) {count : Nat}
    (below : id < count) : children.length ≤ arena.edgeCount count := by
  induction count with
  | zero => exact absurd below (Nat.not_lt_zero id)
  | succ count ih =>
    rw [edgeCount]
    rcases Nat.lt_succ_iff_lt_or_eq.mp below with earlier | last
    · exact Nat.le_trans (ih earlier) (Nat.le_add_right ..)
    · rw [← last, given]
      exact Nat.le_add_left ..

theorem lt_size_of_children (given : arena.children id = .ok children) : id < arena.size := by
  apply Nat.lt_of_not_le
  intro outside
  have absent : arena.nodes[id]? = none := Array.getElem?_eq_none outside
  simp [Arena.children, node, absent, bind, Except.bind] at given

theorem stepBound_ahead (marks : Marks arena) (children : List NodeId) (stack : List Step) :
    arena.stepBound marks (marks.ahead children ++ stack) ≤
      children.length * visitBound (arena.edgeCount arena.size) marks.free +
        arena.stepBound marks stack := by
  induction children with
  | nil => simp [Marks.ahead]
  | cons child children ih =>
    rw [List.length_cons, Nat.succ_mul]
    cases passed : marks.contains child with
    | true =>
      rw [Marks.ahead_skip passed]
      omega
    | false =>
      rw [Marks.ahead_enter passed, List.cons_append, stepBound, Marks.clear_eq_self passed]
      omega

theorem stepBound_enter (marks : Marks arena) (stack : List Step)
    (given : arena.children id = .ok children) :
    arena.stepBound (marks.mark id) ((marks.mark id).ahead children ++ .leave id :: stack) <
      arena.stepBound marks (.enter id :: stack) := by
  have inside := lt_size_of_children given
  have most := Nat.mul_le_mul_right (visitBound (arena.edgeCount arena.size) (marks.mark id).free)
    (length_le_edgeCount given inside)
  have below := stepBound_ahead (marks.mark id) children (.leave id :: stack)
  rw [stepBound, Marks.clear_mark] at below
  rw [stepBound, Marks.free_clear inside, visitBound]
  omega

/-- Takes one step after the other off the stack. -/
def walkOn (arena : Arena) (marks : Marks arena) (visited : Array NodeId) :
    List Step → Except Fault (Array NodeId)
  | [] => .ok visited
  | .leave id :: stack => arena.walkOn (marks.clear id) visited stack
  | .enter id :: stack =>
    match _given : arena.children id with
    | .error fault => .error fault
    | .ok children =>
      let marks := marks.mark id
      arena.walkOn marks (visited.push id) (marks.ahead children ++ .leave id :: stack)
termination_by stack => arena.stepBound marks stack
decreasing_by
  · rw [stepBound]
    exact Nat.lt_add_of_pos_left Nat.one_pos
  · exact stepBound_enter _ _ _given

/-- The nodes from `root` down, each before its children. -/
def walk (arena : Arena) (root : NodeId) : Except Fault (List NodeId) :=
  (arena.walkOn (.replicate arena.size false) #[] [.enter root]).map (·.toList)

end NodeModel.Arena
