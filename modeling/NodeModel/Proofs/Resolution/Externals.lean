import Mathlib.Data.List.Sort
import Mathlib.Data.String.Basic
import NodeModel.Schema.External

/-! Sets of names hold what was put into them, in order and once each. So they are equal as soon as
the same names were put in, in whatever order and however often. -/
namespace NodeModel.NameSet

theorem mem_place (name other : String) (names : List String) :
    other ∈ place name names ↔ other = name ∨ other ∈ names := by
  induction names with
  | nil => simp [place]
  | cons first rest ih =>
    rw [place]
    split_ifs with before same
    · simp
    · subst same
      simp
    · simp only [List.mem_cons,ih]
      tauto

theorem place_sorted (name : String) {names : List String} (sorted : names.Pairwise (· < ·)) :
    (place name names).Pairwise (· < ·) := by
  induction names with
  | nil => simp [place]
  | cons first rest ih =>
    have ⟨least,later⟩ := List.pairwise_cons.mp sorted
    rw [place]
    split_ifs with before same
    · refine List.pairwise_cons.mpr ⟨?_,sorted⟩
      intro other member
      rcases List.mem_cons.mp member with rfl | inside
      · exact before
      · exact lt_trans before (least other inside)
    · exact sorted
    · refine List.pairwise_cons.mpr ⟨?_,ih later⟩
      intro other member
      rcases (mem_place name other rest).mp member with rfl | inside
      · exact lt_of_le_of_ne (not_lt.mp before) (Ne.symm same)
      · exact least other inside

theorem mem_insertMany (set : NameSet) (names : List String) (name : String) :
    name ∈ (set.insertMany names).names ↔ name ∈ set.names ∨ name ∈ names := by
  induction names generalizing set with
  | nil => simp [insertMany]
  | cons first rest ih =>
    have step := ih (set.insert first)
    simp only [insertMany,List.foldl_cons,insert,mem_place,List.mem_cons] at step ⊢
    rw [step]
    tauto

theorem insertMany_sorted {set : NameSet} (names : List String)
    (sorted : set.names.Pairwise (· < ·)) : (set.insertMany names).names.Pairwise (· < ·) := by
  induction names generalizing set with
  | nil => exact sorted
  | cons first rest ih =>
    have placed : (set.insert first).names.Pairwise (· < ·) := place_sorted first sorted
    exact ih placed

theorem insertMany_append (set : NameSet) (names more : List String) :
    set.insertMany (names ++ more) = (set.insertMany names).insertMany more := by
  simp [insertMany]

@[simp]
theorem mem_ofList (names : List String) (name : String) :
    name ∈ (ofList names).names ↔ name ∈ names := by
  simp [ofList,mem_insertMany]

theorem ofList_sorted (names : List String) : (ofList names).names.Pairwise (· < ·) :=
  insertMany_sorted names (by simp)

theorem ofList_congr {names more : List String} (same : ∀ name, name ∈ names ↔ name ∈ more) :
    ofList names = ofList more := by
  have members : ∀ name, name ∈ (ofList names).names ↔ name ∈ (ofList more).names := by
    simpa using same
  exact congrArg NameSet.mk ((ofList_sorted names).eq_of_mem_iff (ofList_sorted more) members)

end NodeModel.NameSet
