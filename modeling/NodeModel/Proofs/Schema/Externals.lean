import Mathlib.Data.List.Basic
import NodeModel.Schema.External

/-! External names and what they do to a schema. Names are merged in order and once each, in
whatever groups they come; telling externals apart again under more names gives what these names
alone would have given. -/
namespace NodeModel

variable {names more : List String}

theorem mergeNames_append (names first second : List String) :
    mergeNames names (first ++ second) = mergeNames (mergeNames names first) second :=
  List.foldl_append

theorem mergeNames_known {name : String} (known : name ∈ names) (more : List String) :
    mergeNames names (name :: more) = mergeNames names more := by
  simp [mergeNames,known]

theorem mergeNames_fresh {name : String} (fresh : name ∉ names) (more : List String) :
    mergeNames names (name :: more) = mergeNames (names ++ [name]) more := by
  simp [mergeNames,fresh]

theorem mem_mergeNames {name : String} :
    name ∈ mergeNames names more ↔ name ∈ names ∨ name ∈ more := by
  induction more generalizing names with
  | nil => simp [mergeNames]
  | cons first more ih =>
    by_cases known : first ∈ names
    · rw [mergeNames_known known,ih,List.mem_cons]
      constructor
      · rintro (held | later)
        · exact .inl held
        · exact .inr (.inr later)
      · rintro (held | rfl | later)
        · exact .inl held
        · exact .inl known
        · exact .inr later
    · rw [mergeNames_fresh known,ih]
      simp [or_assoc]

theorem subset_mergeNames_left (names more : List String) : names ⊆ mergeNames names more :=
  fun _ member => mem_mergeNames.mpr (.inl member)

theorem subset_mergeNames_right (names more : List String) : more ⊆ mergeNames names more :=
  fun _ member => mem_mergeNames.mpr (.inr member)

theorem mergeNames_assoc (names first second : List String) :
    mergeNames names (mergeNames first second) = mergeNames (mergeNames names first) second := by
  induction second generalizing first with
  | nil => rfl
  | cons name second ih =>
    by_cases known : name ∈ first
    · rw [mergeNames_known known,mergeNames_known (subset_mergeNames_right names first known),ih]
    · rw [mergeNames_fresh known,ih,mergeNames_append,← mergeNames_append _ [name] second,
        List.singleton_append]

/-- Of distinct names, those that are not there yet are added at the end. -/
theorem mergeNames_eq_filter (names : List String) (distinct : more.Nodup) :
    mergeNames names more = names ++ more.filter (!names.contains ·) := by
  induction more generalizing names with
  | nil => simp [mergeNames]
  | cons name more ih =>
    obtain ⟨once,distinct⟩ := List.nodup_cons.mp distinct
    by_cases known : name ∈ names
    · rw [mergeNames_known known,ih names distinct,List.filter_cons_of_neg (by simpa using known)]
    · have others : more.filter (!(names ++ [name]).contains ·) =
          more.filter (!names.contains ·) := by
        refine List.filter_congr fun other inside => ?_
        have apart : other ≠ name := fun same => once (same ▸ inside)
        simp [apart]
      rw [mergeNames_fresh known,ih _ distinct,others,List.filter_cons_of_pos (by simpa using known),
        List.append_assoc,List.singleton_append]

theorem FieldKind.tagged_tagged (wider : names ⊆ more) (kind : FieldKind) :
    (kind.tagged names).tagged more = kind.tagged more := by
  cases kind with
  | single target =>
    by_cases listed : target ∈ names
    · simp [tagged,listed,wider listed]
    · simp [tagged,listed]
  | list => rfl
  | primitive => rfl

theorem NodeDecl.tagged_tagged (wider : names ⊆ more) (node : NodeDecl) :
    (node.tagged names).tagged more = node.tagged more := by
  have field (field : FieldDecl) :
      (field.tagged names).tagged more = field.tagged more := by
    simp [FieldDecl.tagged,FieldKind.tagged_tagged wider]
  simp [tagged,field]

/-- Nodes whose externals have been told apart under fewer names are as good as new. -/
theorem map_tagged_tagged (wider : names ⊆ more) (nodes : List NodeDecl) :
    (nodes.map (·.tagged names)).map (·.tagged more) = nodes.map (·.tagged more) := by
  simp [NodeDecl.tagged_tagged wider]

theorem Schema.tagged_tagged (schema : Schema) : schema.tagged.tagged = schema.tagged := by
  simp only [tagged,map_tagged_tagged (List.Subset.refl schema.externals)]

end NodeModel
