import NodeModel.Proofs.Arena.Cloning

/-! Sources and clones, node by node. A clone and its source are counterparts, and so are the
children that counterparts own, in order; counterparts mirror each other, and every node that a
clone adds is one. -/
namespace NodeModel.Arena

variable {copies : ExternalRef → ExternalRef → Prop} {nodes before after : Array Node}

/-- Below `id` and `copy`, the two nodes stand in the same place. -/
inductive Counterpart (nodes : Array Node) (id copy : NodeId) : NodeId → NodeId → Prop where
  | root : Counterpart nodes id copy id copy
  | child {x y child clone : NodeId} {source node : Node} (pair : Counterpart nodes id copy x y)
      (atSource : nodes[x]? = some source) (atCopy : nodes[y]? = some node)
      (inside : (child,clone) ∈ source.owned.zip node.owned) :
      Counterpart nodes id copy child clone

theorem Counterpart.mono {id copy x y : NodeId} (kept : Keeps before after)
    (pair : Counterpart before id copy x y) : Counterpart after id copy x y := by
  induction pair with
  | root => exact .root
  | child _ atSource atCopy inside ih =>
    exact .child ih (kept _ _ atSource) (kept _ _ atCopy) inside

theorem Counterpart.of_child {id copy child clone x y : NodeId} {source node : Node}
    (atSource : nodes[id]? = some source) (atCopy : nodes[copy]? = some node)
    (inside : (child,clone) ∈ source.owned.zip node.owned)
    (pair : Counterpart nodes child clone x y) : Counterpart nodes id copy x y := by
  induction pair with
  | root => exact .child .root atSource atCopy inside
  | child _ atSource' atCopy' inside' ih => exact .child ih atSource' atCopy' inside'

/-- Every node that cloning adds is the counterpart of some source. -/
theorem Clones.counterpart {ids clones : List NodeId} (run : Clones copies before ids after clones)
    {new : NodeId} (fresh : before.size ≤ new) (inArena : new < after.size) :
    ∃ id copy source, (id,copy) ∈ ids.zip clones ∧ Counterpart after id copy source new := by
  induction run with
  | done => exact absurd inArena (Nat.not_lt.mpr fresh)
  | @next before inner after id source copy rest clones found children mirrors later below ahead =>
    have kept : Keeps inner after := (Keeps.push inner copy).trans later.keeps
    have atSource : after[id]? = some source := kept id source (children.keeps id source found)
    have atCopy : after[inner.size]? = some copy := later.keeps _ _ Array.getElem?_push_size
    rcases Nat.lt_trichotomy new inner.size with smaller | same | larger
    · obtain ⟨child,clone,source',inside,pair⟩ := below fresh smaller
      exact ⟨id,inner.size,source',List.mem_cons_self,
        .of_child atSource atCopy inside (pair.mono kept)⟩
    · subst same
      exact ⟨id,inner.size,id,List.mem_cons_self,.root⟩
    · have next : (inner.push copy).size ≤ new := by
        rw [Array.size_push]
        exact larger
      obtain ⟨id',copy',source',inside,pair⟩ := ahead next inArena
      exact ⟨id',copy',source',List.mem_cons_of_mem _ inside,pair⟩

inductive Mirrored (copies : ExternalRef → ExternalRef → Prop) (nodes : Array Node) :
    NodeId → NodeId → Prop where
  | intro {id clone : NodeId} {source copy : Node} (atSource : nodes[id]? = some source)
      (atCopy : nodes[clone]? = some copy)
      (mirrors : Mirrors (fun _ _ => True) copies source copy)
      (owned : ∀ x y, (x,y) ∈ source.owned.zip copy.owned → Mirrored copies nodes x y) :
      Mirrored copies nodes id clone

theorem Mirrored.mono {id clone : NodeId} (kept : Keeps before after)
    (mirrored : Mirrored copies before id clone) : Mirrored copies after id clone := by
  induction mirrored with
  | intro atSource atCopy mirrors _ ih =>
    exact .intro (kept _ _ atSource) (kept _ _ atCopy) mirrors ih

theorem Clones.mirrored {ids clones : List NodeId} (run : Clones copies before ids after clones) :
    ∀ x y, (x,y) ∈ ids.zip clones → Mirrored copies after x y := by
  induction run with
  | done => simp
  | @next before inner after id source copy rest clones found children mirrors later below ahead =>
    have kept : Keeps inner after := (Keeps.push inner copy).trans later.keeps
    intro x y member
    rcases List.mem_cons.mp member with same | member
    · cases same
      exact .intro (kept id source (children.keeps id source found))
        (later.keeps _ _ Array.getElem?_push_size) mirrors
        fun child clone inside => (below child clone inside).mono kept
    · exact ahead x y member

theorem Counterpart.mirrored {id copy x y : NodeId} (mirrored : Mirrored copies nodes id copy)
    (pair : Counterpart nodes id copy x y) : Mirrored copies nodes x y := by
  induction pair with
  | root => exact mirrored
  | child _ atSource atCopy inside ih =>
    cases ih with
    | intro atSource' atCopy' _ owned =>
      cases Option.some.inj (atSource.symm.trans atSource')
      cases Option.some.inj (atCopy.symm.trans atCopy')
      exact owned _ _ inside

theorem Counterpart.le {model : Model} {held : String → ExternalRef → Prop}
    (valid : AllValid model held nodes) {id copy x y : NodeId}
    (pair : Counterpart nodes id copy x y) : x ≤ id := by
  induction pair with
  | root => exact Nat.le_refl _
  | child _ atSource _ inside ih =>
    have smaller := ((valid _ _ atSource).owned_lt (List.of_mem_zip inside).1).1
    exact Nat.le_trans (Nat.le_of_lt smaller) ih

end NodeModel.Arena
