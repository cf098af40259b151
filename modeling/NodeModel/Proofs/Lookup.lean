import Mathlib.Data.List.Nodup

/-! Look-ups by a key. What has a key alone in a list is what a search for the key finds. -/
namespace NodeModel

variable {α κ ν : Type} [BEq κ] [LawfulBEq κ]

theorem find?_of_mem (key : α → κ) {items : List α} {item : α} (member : item ∈ items)
    (only : ∀ other ∈ items, key other = key item → other = item) :
    items.find? (key · == key item) = some item := by
  obtain ⟨other,found⟩ := Option.isSome_iff_exists.mp
    (List.find?_isSome.mpr ⟨item,member,by simp⟩ : (items.find? (key · == key item)).isSome = true)
  have same := only other (List.mem_of_find?_eq_some found) (by simpa using List.find?_some found)
  rw [found,same]

section Tables

variable (key : α → κ) (value : α → ν)

theorem lookup_of_mem {items : List α} {item : α} (member : item ∈ items)
    (agree : ∀ other ∈ items, key other = key item → value other = value item) :
    (items.map fun other => (key other,value other)).lookup (key item) = some (value item) := by
  induction items with
  | nil => simp at member
  | cons first rest ih =>
    rw [List.map_cons,List.lookup_cons]
    by_cases same : key first = key item
    · simp [same,agree first List.mem_cons_self same]
    · have later : item ∈ rest :=
        (List.mem_cons.mp member).resolve_left fun here => same (here ▸ rfl)
      simp only [beq_false_of_ne (Ne.symm same)]
      exact ih later fun other inside => agree other (List.mem_cons_of_mem _ inside)

theorem lookup_of_not_mem {items : List α} {wanted : κ} (absent : ∀ item ∈ items, key item ≠ wanted) :
    (items.map fun item => (key item,value item)).lookup wanted = none := by
  rw [List.lookup_eq_none_iff]
  intro entry inside
  obtain ⟨item,member,rfl⟩ := List.mem_map.mp inside
  exact bne_iff_ne.mpr (Ne.symm (absent item member))

end Tables

theorem lookup_of_getElem? {entries : List (κ × ν)} (distinct : (entries.map (·.1)).Nodup)
    {position : Nat} {key : κ} {entry : ν} (found : entries[position]? = some (key,entry)) :
    entries.lookup key = some entry := by
  have member := List.mem_of_getElem? found
  have agree : ∀ other ∈ entries, other.1 = key → other.2 = entry := by
    intro other inside same
    rw [List.inj_on_of_nodup_map distinct inside member same]
  have table := lookup_of_mem Prod.fst Prod.snd member agree
  rwa [List.map_id'] at table

theorem lookup_zip_absent {keys : List κ} {key : κ} (absent : key ∉ keys) (results : List ν) :
    (keys.zip results).lookup key = none := by
  refine List.lookup_eq_none_iff.mpr fun entry inside => bne_iff_ne.mpr ?_
  rintro rfl
  exact absent (List.of_mem_zip inside).1

end NodeModel
