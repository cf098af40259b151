import Mathlib.Data.List.Basic

/-! Computations that may fail. What is known of an outcome is known of the steps that led to it. -/
namespace NodeModel

variable {ε ε' α β : Type}

theorem bind_eq_ok_iff {action : Except ε α} {next : α → Except ε β} {result : β} :
    action >>= next = .ok result ↔ ∃ value, action = .ok value ∧ next value = .ok result := by
  cases action <;> simp [bind,Except.bind]

theorem mapError_eq_ok_iff {action : Except ε α} {f : ε → ε'} {value : α} :
    action.mapError f = .ok value ↔ action = .ok value := by
  cases action <;> simp [Except.mapError]

theorem mapError_eq_error_iff {action : Except ε α} {f : ε → ε'} {problem : ε'} :
    action.mapError f = .error problem ↔ ∃ cause, action = .error cause ∧ f cause = problem := by
  cases action <;> simp [Except.mapError]

/-- Checks succeed together if each of them does. -/
theorem forM_eq_ok_iff (check : α → Except ε PUnit) (items : List α) :
    items.forM check = .ok () ↔ ∀ item ∈ items, check item = .ok () := by
  induction items with
  | nil => simp [pure,Except.pure]
  | cons item items ih =>
    rw [List.forM,List.forall_mem_cons,← ih]
    cases check item <;> simp [bind,Except.bind]

theorem mapM_ok {action : α → Except ε β} {P : β → Prop} (items : List α)
    (each : ∀ item ∈ items, ∃ result, action item = .ok result ∧ P result) :
    ∃ results, items.mapM action = .ok results ∧ ∀ result ∈ results, P result := by
  induction items with
  | nil => exact ⟨[],rfl,by simp⟩
  | cons item items ih =>
    obtain ⟨first,given,holds⟩ := each item List.mem_cons_self
    obtain ⟨rest,given',holds'⟩ := ih fun other member => each other (List.mem_cons_of_mem _ member)
    refine ⟨first :: rest,?_,List.forall_mem_cons.mpr ⟨holds,holds'⟩⟩
    rw [List.mapM_cons,given,given']
    rfl

end NodeModel
