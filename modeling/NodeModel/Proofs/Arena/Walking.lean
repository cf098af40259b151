import Mathlib.Data.List.Perm.Subperm
import NodeModel.Arena.Walk

/-! The stack of a walk against the recursive pre-order. A child is tested when it is pushed; the
marks are the same again when its turn comes, as whatever is entered in between is left. -/
namespace NodeModel.Arena

/-- The pre-order below a path: each of the given nodes that is not on the path, followed by the
pre-order of its children below the path that it extends. -/
inductive Visits (arena : Arena) : List NodeId → List NodeId → List NodeId → Prop where
  | none {path : List NodeId} : Visits arena path [] []
  | skip {path ids visited : List NodeId} {id : NodeId} (back : id ∈ path)
      (rest : Visits arena path ids visited) : Visits arena path (id :: ids) visited
  | enter {path ids children below visited : List NodeId} {id : NodeId} (ahead : id ∉ path)
      (given : arena.children id = .ok children) (down : Visits arena (id :: path) children below)
      (rest : Visits arena path ids visited) :
      Visits arena path (id :: ids) (id :: below ++ visited)

variable {arena : Arena} {path : List NodeId} {marks : Marks arena}

def Marks.Agree (marks : Marks arena) (path : List NodeId) : Prop :=
  ∀ id, marks.contains id = true ↔ id ∈ path

namespace Marks

theorem agree_replicate : Agree (.replicate arena.size false) [] := by
  intro id
  simp only [contains,Vector.getElem?_replicate,List.not_mem_nil,iff_false]
  split <;> simp

theorem Agree.mark (agree : marks.Agree path) {id : NodeId} (inside : id < arena.size) :
    (marks.mark id).Agree (id :: path) := by
  intro other
  rw [List.mem_cons,← agree other,contains,Marks.mark,Vector.getElem?_setIfInBounds]
  by_cases same : other = id
  · simp [same,inside]
  · simp [same,Ne.symm same,contains]

theorem Agree.contains_eq_false (agree : marks.Agree path) {id : NodeId} (ahead : id ∉ path) :
    marks.contains id = false := by
  simpa [← agree id] using ahead

end Marks

theorem walkOn_enter {id : NodeId} {children : List NodeId}
    (given : arena.children id = .ok children) (visited : Array NodeId) (stack : List Step) :
    arena.walkOn marks visited (.enter id :: stack) =
      arena.walkOn (marks.mark id) (visited.push id)
        ((marks.mark id).ahead children ++ .leave id :: stack) := by
  rw [walkOn]
  split
  next failed => simp [given] at failed
  next same =>
    obtain rfl := Except.ok.inj (given.symm.trans same)
    rfl

/-- The steps into some nodes make their pre-order and leave marks and stack as they were. -/
theorem walkOn_visits {ids visited : List NodeId} (visits : arena.Visits path ids visited)
    (agree : marks.Agree path) (before : Array NodeId) (stack : List Step) :
    arena.walkOn marks before (marks.ahead ids ++ stack) =
      arena.walkOn marks (before ++ visited.toArray) stack := by
  induction visits generalizing marks before stack with
  | none => simp [Marks.ahead]
  | @skip _ _ _ id back rest ih => rw [Marks.ahead_skip ((agree id).mpr back),ih agree]
  | @enter path ids children below visited id ahead given down rest ihDown ihRest =>
    have inside := lt_size_of_children given
    have clear := agree.contains_eq_false ahead
    rw [Marks.ahead_enter clear,List.cons_append,walkOn_enter given,
      ihDown (agree.mark inside),walkOn,Marks.clear_mark,Marks.clear_eq_self clear,ihRest agree]
    simp

theorem walk_eq_of_visits {root : NodeId} {visited : List NodeId}
    (visits : arena.Visits [] [root] visited) : arena.walk root = .ok visited := by
  have start : Marks.Agree (.replicate arena.size false) [] := Marks.agree_replicate
  have run := walkOn_visits visits start #[] []
  rw [Marks.ahead_enter (start.contains_eq_false List.not_mem_nil),walkOn] at run
  have root_only : arena.walkOn (.replicate arena.size false) #[] [.enter root] =
      .ok visited.toArray := by simpa [Marks.ahead] using run
  rw [walk,root_only]
  rfl

def Closed (arena : Arena) : Prop :=
  ∀ id < arena.size, ∃ children, arena.children id = .ok children ∧
    ∀ child ∈ children, child < arena.size

/-- A path without repetitions is no longer than the arena. -/
theorem length_le_size (distinct : path.Nodup) (inside : ∀ id ∈ path, id < arena.size) :
    path.length ≤ arena.size := by
  have subset : path ⊆ List.range arena.size := fun id member =>
    List.mem_range.mpr (inside id member)
  simpa using (distinct.subperm subset).length_le

/-- Below any path the pre-order exists, by induction on the room that the path leaves. -/
theorem exists_visits (closed : arena.Closed) (distinct : path.Nodup)
    (inside : ∀ id ∈ path, id < arena.size) (ids : List NodeId)
    (inside' : ∀ id ∈ ids, id < arena.size) :
    ∃ visited, arena.Visits path ids visited ∧ ∀ seen ∈ visited, seen < arena.size := by
  induction room : arena.size - path.length using Nat.strongRecOn
    generalizing path ids with
  | ind room ihPath =>
    induction ids with
    | nil => exact ⟨[],.none,by simp⟩
    | cons id ids ih =>
      obtain ⟨here,later⟩ := List.forall_mem_cons.mp inside'
      obtain ⟨visited,rest,seen⟩ := ih later
      by_cases back : id ∈ path
      · exact ⟨visited,.skip back rest,seen⟩
      · obtain ⟨children,given,below⟩ := closed id here
        have longer : (id :: path).Nodup := List.nodup_cons.mpr ⟨back,distinct⟩
        have within : ∀ other ∈ id :: path, other < arena.size :=
          List.forall_mem_cons.mpr ⟨here,inside⟩
        have fits := length_le_size longer within
        rw [List.length_cons] at fits
        obtain ⟨down,visits,seen'⟩ := ihPath (arena.size - (path.length + 1)) (by omega) longer
          within children below (by simp)
        refine ⟨id :: down ++ visited,.enter back given visits rest,?_⟩
        simp only [List.cons_append,List.forall_mem_cons,List.forall_mem_append]
        exact ⟨here,seen',seen⟩

theorem exists_walk (closed : arena.Closed) {root : NodeId} (inside : root < arena.size) :
    ∃ visited, arena.Visits [] [root] visited ∧ ∀ seen ∈ visited, seen < arena.size :=
  exists_visits closed .nil (by simp) [root] (by simpa using inside)

end NodeModel.Arena
