import NodeModel.Proofs.Source.Meaning

/-! Fuel only bounds how deep clones are nested: what a clone yields with some fuel, it yields with
more. -/
namespace NodeModel.Source

open Arena (Copier)

variable {α β : Type} {before after : Memory}

/-- Whatever the first action yields, the second one yields. -/
def Below (small large : Action α) : Prop :=
  ∀ ⦃before result after⦄, Yields small before result after → Yields large before result after

theorem Below.refl (action : Action α) : Below action action := fun _ _ _ yields => yields

theorem Yields.bind_inv {action : Action α} {next : α → Action β} {second : β}
    (yields : Yields (action >>= next) before second after) :
    ∃ first middle, Yields action before first middle ∧
      Yields (next first) middle second after := by
  unfold Yields at yields ⊢
  rw [StateT.run_bind] at yields
  obtain ⟨⟨first,middle⟩,run,rest⟩ := Option.bind_eq_some_iff.mp yields
  exact ⟨first,middle,run,rest⟩

theorem Below.bind {small large : Action α} {next next' : α → Action β}
    (first : Below small large) (rest : ∀ result, Below (next result) (next' result)) :
    Below (small >>= next) (large >>= next') := by
  intro before result after yields
  obtain ⟨_,_,left,right⟩ := yields.bind_inv
  exact (first left).bind (rest _ right)

theorem Below.mapM {small large : α → Action β} (each : ∀ item, Below (small item) (large item))
    (items : List α) : Below (items.mapM small) (items.mapM large) := by
  induction items with
  | nil => exact .refl _
  | cons item items ih =>
    rw [List.mapM_cons,List.mapM_cons]
    exact (each item).bind fun _ => ih.bind fun _ => .refl _

structure Context.Below (small large : Context) : Prop where
  leaves : small.leaves = large.leaves
  copier : small.copier = large.copier
  again : ∀ object, Source.Below (small.again object) (large.again object)

variable {small large : Context}

theorem Method.act_below (context : small.Below large) (method : Method) (data : Data) :
    Below (method.act small data) (method.act large data) := by
  unfold Method.act
  split
  next => exact .refl _
  next => exact .refl _
  next id =>
    have behind : small.behind id = large.behind id := by
      unfold Context.behind
      rw [context.leaves]
    rw [behind]
    exact (Below.refl _).bind fun object => (context.again object).bind fun _ => .refl _
  next => exact .refl _

theorem Function.act_below (context : small.Below large) (function : Function) (data : Data) :
    Below (function.act small data) (function.act large data) := by
  unfold Function.act
  rw [context.copier]
  exact .refl _

theorem Expr.act_below (context : small.Below large) (expr : Expr) (scope : Scope) :
    Below (expr.act small scope) (expr.act large scope) := by
  induction expr generalizing scope with
  | call receiver method ih =>
    rw [Expr.act,Expr.act]
    exact (ih scope).bind fun data => method.act_below context data
  | apply function argument ih =>
    rw [Expr.act,Expr.act]
    exact (ih scope).bind fun data => function.act_below context data
  | map receiver name body ih within =>
    rw [Expr.act,Expr.act]
    refine (ih scope).bind fun data => ?_
    split
    next => exact .refl _
    next held => exact (within (scope.bind name held)).bind fun _ => .refl _
    next items =>
      exact (Below.mapM (fun item => within (scope.bind name item)) items).bind fun _ => .refl _
    next => exact .refl _
  | mapCell cell name body ih within =>
    rw [Expr.act,Expr.act]
    refine (ih scope).bind fun data => ?_
    split
    next => exact .refl _
    next held => exact (within (scope.bind name held)).bind fun _ => .refl _
    next => exact .refl _
  | block name value body ih within =>
    rw [Expr.act,Expr.act]
    exact (ih scope).bind fun data => within (scope.bind name data)
  | unwrapOr value fallback ih =>
    rw [Expr.act,Expr.act]
    exact (ih scope).bind fun _ => .refl _
  | _ =>
    rw [Expr.act,Expr.act]
    exact .refl _

theorem SourceFile.clone_below (file : SourceFile) (copier : Copier) {fuel more : Nat}
    (enough : fuel ≤ more) (object : Object) :
    Below (file.clone copier fuel object) (file.clone copier more object) := by
  induction fuel generalizing more object with
  | zero =>
    intro before result after yields
    cases yields
  | succ fuel ih =>
    obtain ⟨more,rfl⟩ := Nat.exists_eq_add_one.mpr (Nat.zero_lt_of_lt enough)
    have context : Context.Below ⟨file.leaves,copier,file.clone copier fuel⟩
        ⟨file.leaves,copier,file.clone copier more⟩ :=
      ⟨rfl,rfl,fun object => ih (Nat.le_of_succ_le_succ enough) object⟩
    rw [SourceFile.clone,SourceFile.clone]
    refine (Below.refl _).bind fun item => Below.bind ?_ fun _ => .refl _
    refine Below.mapM (fun entry => ?_) _
    exact (entry.2.act_below context _).bind fun _ => .refl _

theorem Yields.unique {action : Action α} {result result' : α} {after' : Memory}
    (yields : Yields action before result after) (yields' : Yields action before result' after') :
    result = result' ∧ after = after' :=
  Prod.mk.inj (Option.some.inj (yields.symm.trans yields'))

/-- With whatever fuel a clone comes to its end, it comes to the same. -/
theorem SourceFile.clone_unique {file : SourceFile} {copier : Copier} {fuel fuel' : Nat}
    {object clone clone' : Object} {after' : Memory}
    (yields : Yields (file.clone copier fuel object) before clone after)
    (yields' : Yields (file.clone copier fuel' object) before clone' after') :
    clone = clone' ∧ after = after' :=
  (file.clone_below copier (Nat.le_max_left fuel fuel') object yields).unique
    (file.clone_below copier (Nat.le_max_right fuel fuel') object yields')

end NodeModel.Source
