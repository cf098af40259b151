import Mathlib.Data.Set.Card
import NodeModel.Proofs.Arena.Safety

/-! Routes along children, and which of them a walk takes: those that come to no node twice. Each
step of a route says which edge it takes, so parallel edges make different routes. -/
namespace NodeModel.Arena

/-- A route: at each step the position of an edge among the children, and where it leads. -/
abbrev Route := List (Nat × NodeId)

namespace Route

def nodes (route : Route) : List NodeId := route.map (·.2)

def arrival : NodeId → Route → NodeId
  | start, [] => start
  | _, (_,next) :: route => arrival next route

def shift : Route → Route
  | [] => []
  | (position,id) :: route => (position + 1,id) :: route

end Route

inductive Follows (arena : Arena) : NodeId → Route → Prop where
  | stay {id : NodeId} : Follows arena id []
  | go {id next : NodeId} {children : List NodeId} {position : Nat} {route : Route}
      (given : arena.children id = .ok children) (edge : children[position]? = some next)
      (rest : Follows arena next route) : Follows arena id ((position,next) :: route)

structure SimpleRoute (arena : Arena) (start finish : NodeId) (route : Route) : Prop where
  follows : arena.Follows start route
  distinct : (start :: route.nodes).Nodup
  arrives : route.arrival start = finish

def Child (arena : Arena) (id child : NodeId) : Prop :=
  ∃ children, arena.children id = .ok children ∧ child ∈ children

variable {arena : Arena} {path : List NodeId}

/-- A route that takes one of the given nodes first and comes neither to the path nor to any node
twice. -/
def Picks (arena : Arena) (path ids : List NodeId) : Route → Prop
  | [] => False
  | (position,next) :: route =>
    ids[position]? = some next ∧ arena.Follows next route ∧ (next :: Route.nodes route).Nodup ∧
      (next :: Route.nodes route).Disjoint path

theorem Route.shift_injective : Function.Injective Route.shift := by
  intro first second same
  cases first <;> cases second <;> simp_all [Route.shift,Prod.ext_iff]

theorem Route.arrival_shift (start : NodeId) (route : Route) :
    route.shift.arrival start = route.arrival start := by
  cases route <;> rfl

theorem picks_succ {id next : NodeId} {ids : List NodeId} {position : Nat} {route : Route} :
    arena.Picks path (id :: ids) ((position + 1,next) :: route) ↔
      arena.Picks path ids ((position,next) :: route) := by
  simp only [Picks,List.getElem?_cons_succ]

theorem Picks.cases {ids : List NodeId} {route : Route} (picked : arena.Picks path ids route) :
    (∃ next rest, route = (0,next) :: rest) ∨
      ∃ position next rest, route = (position + 1,next) :: rest := by
  obtain _ | ⟨⟨_ | position,next⟩,rest⟩ := route
  · exact picked.elim
  · exact .inl ⟨next,rest,rfl⟩
  · exact .inr ⟨position,next,rest,rfl⟩

/-- The routes that pass the first of some nodes over. -/
theorem mem_map_shift (id : NodeId) {ids : List NodeId} {routes : List Route}
    (all : ∀ route, route ∈ routes ↔ arena.Picks path ids route) (route : Route) :
    route ∈ routes.map Route.shift ↔
      arena.Picks path (id :: ids) route ∧
        ∃ position next rest, route = (position + 1,next) :: rest := by
  simp only [List.mem_map,all]
  constructor
  · rintro ⟨other,picked,rfl⟩
    obtain _ | ⟨⟨position,next⟩,rest⟩ := other
    · exact picked.elim
    · exact ⟨picks_succ.mpr picked,position,next,rest,rfl⟩
  · rintro ⟨picked,position,next,rest,rfl⟩
    exact ⟨(position,next) :: rest,picks_succ.mp picked,rfl⟩

theorem follows_cons {id next : NodeId} {children : List NodeId}
    (given : arena.children id = .ok children) {position : Nat} {route : Route} :
    arena.Follows id ((position,next) :: route) ↔
      children[position]? = some next ∧ arena.Follows next route := by
  constructor
  · intro follows
    cases follows with
    | go given' edge rest =>
      obtain rfl := Except.ok.inj (given.symm.trans given')
      exact ⟨edge,rest⟩
  · rintro ⟨edge,rest⟩
    exact .go given edge rest

/-- The routes that take the first of some nodes: they end there or go on below it. -/
theorem picks_zero {id next : NodeId} {ids children : List NodeId} (ahead : id ∉ path)
    (given : arena.children id = .ok children) {route : Route} :
    arena.Picks path (id :: ids) ((0,next) :: route) ↔
      next = id ∧ (route = [] ∨ arena.Picks (id :: path) children route) := by
  have first : (id :: ids)[0]? = some next ↔ next = id := by simp [eq_comm]
  simp only [Picks,first]
  refine and_congr_right fun same => ?_
  subst same
  obtain _ | ⟨⟨position,child⟩,rest⟩ := route
  · simp [Route.nodes,Follows.stay,ahead]
  · have nodes : Route.nodes ((position,child) :: rest) = child :: Route.nodes rest := rfl
    rw [follows_cons given,nodes,List.nodup_cons,List.disjoint_cons_left]
    simp only [List.disjoint_cons_right,reduceCtorEq,false_or]
    tauto

/-- The routes that take the first of some nodes. -/
theorem mem_map_cons {id : NodeId} {children : List NodeId} (ids : List NodeId) (ahead : id ∉ path)
    (given : arena.children id = .ok children) {lower : List Route}
    (all : ∀ route, route ∈ lower ↔ arena.Picks (id :: path) children route) (route : Route) :
    route ∈ ([] :: lower).map ((0,id) :: ·) ↔
      arena.Picks path (id :: ids) route ∧ ∃ next rest, route = (0,next) :: rest := by
  simp only [List.mem_map,List.mem_cons,all]
  constructor
  · rintro ⟨rest,below,rfl⟩
    exact ⟨(picks_zero ahead given).mpr ⟨rfl,below⟩,id,rest,rfl⟩
  · rintro ⟨picked,next,rest,rfl⟩
    obtain ⟨rfl,below⟩ := (picks_zero ahead given).mp picked
    exact ⟨rest,below,rfl⟩

/-- A pre-order lists the ends of the routes that start among its nodes, each route once. -/
theorem exists_routes {ids visited : List NodeId} (visits : arena.Visits path ids visited) :
    ∃ routes : List Route, routes.Nodup ∧ (∀ route, route ∈ routes ↔ arena.Picks path ids route) ∧
      ∀ start, routes.map (Route.arrival start) = visited := by
  induction visits with
  | none =>
    refine ⟨[],.nil,fun route => ?_,fun _ => rfl⟩
    obtain _ | ⟨⟨position,next⟩,rest⟩ := route <;> simp [Picks]
  | @skip path ids visited id back rest ih =>
    obtain ⟨routes,distinct,all,arrivals⟩ := ih
    refine ⟨routes.map Route.shift,distinct.map Route.shift_injective,fun route => ?_,
      fun start => ?_⟩
    · rw [mem_map_shift id all,and_iff_left_iff_imp]
      intro picked
      obtain ⟨next,rest,rfl⟩ | later := picked.cases
      · obtain ⟨first,_,_,away⟩ := picked
        obtain rfl : id = next := by simpa using first
        exact absurd back (List.disjoint_cons_left.mp away).1
      · exact later
    · simp only [List.map_map,Function.comp_def,Route.arrival_shift,arrivals]
  | @enter path ids children below visited id ahead given down rest ihDown ihRest =>
    obtain ⟨lower,distinct,all,arrivals⟩ := ihDown
    obtain ⟨routes,distinct',all',arrivals'⟩ := ihRest
    have fresh : ([] :: lower).Nodup := List.nodup_cons.mpr ⟨(all []).mp,distinct⟩
    refine ⟨([] :: lower).map ((0,id) :: ·) ++ routes.map Route.shift,?_,fun route => ?_,
      fun start => ?_⟩
    · refine (fresh.map fun _ _ => List.cons_inj_right _ |>.mp).append
        (distinct'.map Route.shift_injective) ?_
      intro route left right
      obtain ⟨_,_,_,rfl⟩ := (mem_map_cons ids ahead given all route).mp left
      obtain ⟨_,_,_,_,same⟩ := (mem_map_shift id all' _).mp right
      simp at same
    · rw [List.mem_append,mem_map_cons ids ahead given all,mem_map_shift id all',← and_or_left,
        and_iff_left_iff_imp]
      exact Picks.cases
    · simp only [List.cons_append,List.map_cons,List.map_append,List.map_map,Function.comp_def,
        Route.arrival,Route.arrival_shift,arrivals,arrivals']

variable {root : NodeId} {visited : List NodeId}

theorem exists_simpleRoutes (visits : arena.Visits [] [root] visited) :
    ∃ routes : List Route, routes.Nodup ∧
      (∀ route, route ∈ routes ↔ arena.SimpleRoute root (route.arrival root) route) ∧
      routes.map (Route.arrival root) = visited := by
  cases visits with
  | skip back => simp at back
  | enter ahead given down rest =>
    cases rest
    obtain ⟨lower,distinct,all,arrivals⟩ := exists_routes down
    refine ⟨[] :: lower,List.nodup_cons.mpr ⟨(all []).mp,distinct⟩,fun route => ?_,?_⟩
    · have picked : arena.Picks [] [root] ((0,root) :: route) ↔ _ := picks_zero ahead given
      constructor
      · intro inside
        obtain ⟨_,follows,distinct,_⟩ :=
          picked.mpr ⟨rfl,(List.mem_cons.mp inside).imp_right (all route).mp⟩
        exact ⟨follows,distinct,rfl⟩
      · rintro ⟨follows,distinct,_⟩
        have below := (picked.mp ⟨rfl,follows,distinct,List.disjoint_nil_right _⟩).2
        exact List.mem_cons.mpr (below.imp_right (all route).mpr)
    · simp [Route.arrival,arrivals]

/-- A node is visited once for each simple route to it. -/
theorem encard_simpleRoutes (visits : arena.Visits [] [root] visited) (id : NodeId) :
    {route | arena.SimpleRoute root id route}.encard = visited.count id := by
  obtain ⟨routes,distinct,all,rfl⟩ := exists_simpleRoutes visits
  have these : {route | arena.SimpleRoute root id route} =
      ((routes.filter (Route.arrival root · == id)).toFinset : Set Route) := by
    ext route
    simp only [Set.mem_ofPred_eq,List.coe_toFinset,List.mem_filter,all,beq_iff_eq]
    constructor
    · intro simple
      exact ⟨⟨simple.follows,simple.distinct,rfl⟩,simple.arrives⟩
    · rintro ⟨simple,rfl⟩
      exact simple
  rw [these,Set.encard_coe_eq_coe_finsetCard,List.toFinset_card_of_nodup (distinct.filter _),
    List.count_eq_countP,List.countP_map,List.countP_eq_length_filter]
  rfl

theorem Follows.reaches {start : NodeId} {route : Route} (follows : arena.Follows start route) :
    Relation.ReflTransGen arena.Child start (route.arrival start) := by
  induction follows with
  | stay => exact .refl
  | go given edge rest ih => exact .head ⟨_,given,List.mem_of_getElem? edge⟩ ih

/-- From any node that a simple route comes to, what is left of it is a simple route. -/
theorem SimpleRoute.from_mem {start finish : NodeId} {route : Route}
    (simple : arena.SimpleRoute start finish route) {id : NodeId}
    (inside : id ∈ start :: route.nodes) : ∃ rest, arena.SimpleRoute id finish rest := by
  induction route generalizing start with
  | nil =>
    obtain rfl : id = start := by simpa [Route.nodes] using inside
    exact ⟨[],simple⟩
  | cons step route ih =>
    obtain ⟨position,next⟩ := step
    obtain rfl | later := List.mem_cons.mp inside
    · exact ⟨_,simple⟩
    · cases simple.follows with
      | go _ _ rest => exact ih ⟨rest,(List.nodup_cons.mp simple.distinct).2,simple.arrives⟩ later

/-- What can be reached at all can be reached by a simple route: a route that would come back to
its start is cut short there. -/
theorem exists_simpleRoute {start finish : NodeId}
    (reaches : Relation.ReflTransGen arena.Child start finish) :
    ∃ route, arena.SimpleRoute start finish route := by
  induction reaches using Relation.ReflTransGen.head_induction_on with
  | refl => exact ⟨[],.stay,by simp [Route.nodes],rfl⟩
  | @head start next edge _ ih =>
    obtain ⟨children,given,inside⟩ := edge
    obtain ⟨position,edge⟩ := List.getElem?_of_mem inside
    obtain ⟨route,simple⟩ := ih
    by_cases back : start ∈ next :: route.nodes
    · exact simple.from_mem back
    · exact ⟨(position,next) :: route,.go given edge simple.follows,
        List.nodup_cons.mpr ⟨back,simple.distinct⟩,simple.arrives⟩

theorem mem_visited_iff (visits : arena.Visits [] [root] visited) (id : NodeId) :
    id ∈ visited ↔ Relation.ReflTransGen arena.Child root id := by
  obtain ⟨routes,_,all,rfl⟩ := exists_simpleRoutes visits
  rw [List.mem_map]
  constructor
  · rintro ⟨route,inside,rfl⟩
    exact ((all route).mp inside).follows.reaches
  · intro reaches
    obtain ⟨route,simple⟩ := exists_simpleRoute reaches
    exact ⟨route,(all route).mpr ⟨simple.follows,simple.distinct,rfl⟩,simple.arrives⟩

/-- A walk from an existing node comes to an end. It takes the recursive pre-order, visits each node
once for every simple route to it, and misses no node that can be reached. -/
theorem walk_visits_simpleRoutes {schema : Schema} {externals : NameSet} {model : Model}
    {arena : Arena} (resolved : schema.resolveWith externals = .ok model)
    (reached : Reached model (fun _ => True) arena) {root : NodeId} (inside : root < arena.size) :
    ∃ visited, arena.walk root = .ok visited ∧ arena.Visits [] [root] visited ∧
      (∀ id, {route | arena.SimpleRoute root id route}.encard = visited.count id) ∧
      ∀ id, id ∈ visited ↔ Relation.ReflTransGen arena.Child root id := by
  have consistent := Schema.consistent_of_resolved resolved
  obtain ⟨visited,visits,_⟩ := exists_walk (closed consistent (reached.valid_any consistent)) inside
  exact ⟨visited,walk_eq_of_visits visits,visits,encard_simpleRoutes visits,mem_visited_iff visits⟩

/-- The edge from the group back to itself is passed over; its two edges to one item are not. -/
theorem walk_visits_simpleRoutes_sample :
    Reached sampleModel (fun _ => True) sampleArena ∧ 1 < sampleArena.size ∧
      sampleArena.walk 1 = .ok [1,0,0] ∧
      {route | sampleArena.SimpleRoute 1 0 route}.encard = 2 := by
  have reached : Reached sampleModel (fun _ => True) sampleArena :=
    sampleArena_reached fun _ _ => trivial
  have inside : 1 < sampleArena.size := by decide
  have item : sampleArena.children 0 = .ok [] := rfl
  have group : sampleArena.children 1 = .ok [0,0,1] := rfl
  have walked : sampleArena.walk 1 = .ok [1,0,0] :=
    walk_eq_of_visits (.enter (by simp) group (.enter (by simp) item .none
      (.enter (by simp) item .none (.skip (by simp) .none))) .none)
  obtain ⟨visited,given,_,routes,_⟩ := walk_visits_simpleRoutes sample_resolved reached inside
  obtain rfl := Except.ok.inj (walked.symm.trans given)
  exact ⟨reached,inside,walked,routes 0⟩

end NodeModel.Arena
