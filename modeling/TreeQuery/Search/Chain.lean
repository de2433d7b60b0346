import TreeQuery.Search.Walk

/-!
# Searching along a chain of tests

A search looks for the nodes that end a chain: each stage walks below the node that the stage before
it found. It keeps one paused walk for every stage that is under way, on a stack whose top is
searching below the latest find of the level underneath. A node that is reached along two chains is
found twice.

Main statement: `cost_next` bounds what is left of a search after each find.
-/

namespace TreeQuery

/-- One stage of a chain: how deep it looks, and the test that ends it. -/
structure Stage where
  depth : Option Nat
  test : Test

/-- A stage that is under way: its test, the stages behind it, and its paused walk. -/
structure Level where
  test : Test
  rest : List Stage
  walk : Walk

/-- A paused search: its levels, the innermost first. -/
abbrev Search := List Level

namespace Search

/-- Begin a stage below a node. -/
def enter (tree : Tree) (node : NodeId) (stage : Stage) (rest : List Stage) : Level :=
  ⟨stage.test, rest, .start tree node stage.depth⟩

/-- The search below a node along a chain that begins with the given stage. -/
def start (tree : Tree) (node : NodeId) (stage : Stage) (rest : List Stage) : Search :=
  [enter tree node stage rest]

/-- The most steps that can come of a find, when these stages follow it. -/
def findCost (tree : Tree) : List Stage → NodeId → Nat
  | [], _ => 0
  | stage :: rest, node =>
    1 + (Walk.start tree node stage.depth).cost tree (findCost tree rest)

/-- The most steps that a search can still take. -/
def cost (tree : Tree) (search : Search) : Nat :=
  (search.map fun level => 1 + level.walk.cost tree (findCost tree level.rest)).foldr (· + ·) 0

/-- The next node that ends the chain, and the search after it. Nothing behind that node is tested. -/
def next (tree : Tree) (search : Search) (run : Run) : Option (NodeId × Search) × Run :=
  match search with
  | [] => (none, run)
  | level :: below =>
    match _h : level.walk.next tree level.test run with
    | (none, run) => next tree below run
    | (some (node, walk), run) =>
      let paused := { level with walk } :: below
      match _hrest : level.rest with
      | [] => (some (node, paused), run)
      | stage :: rest => next tree (enter tree node stage rest :: paused) run
termination_by cost tree search
decreasing_by
  · simp only [cost, List.map_cons, List.foldr_cons]
    omega
  · have hpaid := Walk.cost_next (findCost tree level.rest) (congrArg Prod.fst _h)
    have hfind : findCost tree level.rest node =
        1 + (Walk.start tree node stage.depth).cost tree (findCost tree rest) := by
      rw [_hrest, findCost]
    simp only [cost, enter, List.map_cons, List.foldr_cons]
    omega

/-- What finding the next node does, find by find of the innermost level. -/
theorem next_cons (tree : Tree) (level : Level) (below : Search) (run : Run) :
    next tree (level :: below) run =
      match level.walk.next tree level.test run with
      | (none, run) => next tree below run
      | (some (node, walk), run) =>
        match level.rest with
        | [] => (some (node, { level with walk } :: below), run)
        | stage :: rest => next tree (enter tree node stage rest :: { level with walk } :: below) run := by
  rw [next]
  rcases level.walk.next tree level.test run with ⟨_ | ⟨node, walk⟩, run'⟩
  · rfl
  · dsimp only
    split <;> simp_all

/-- A find leaves fewer steps to take. -/
theorem cost_next {tree : Tree} {search after : Search} {node : NodeId} {run : Run}
    (h : (search.next tree run).1 = some (node, after)) : after.cost tree < search.cost tree := by
  fun_induction next tree search run with
  | case1 => simp at h
  | case2 run level below run' hwalk ih =>
    have := ih h
    simp only [cost, List.map_cons, List.foldr_cons] at this ⊢
    omega
  | case3 run level below found walk run' hwalk paused hrest =>
    simp only [Option.some.injEq, Prod.mk.injEq] at h
    obtain ⟨rfl, rfl⟩ := h
    have := Walk.cost_next (findCost tree level.rest) (congrArg Prod.fst hwalk)
    simp only [paused, cost, List.map_cons, List.foldr_cons]
    omega
  | case4 run level below found walk run' hwalk paused stage rest hrest ih =>
    have := ih h
    have hpaid := Walk.cost_next (findCost tree level.rest) (congrArg Prod.fst hwalk)
    have hfind : findCost tree level.rest found =
        1 + (Walk.start tree found stage.depth).cost tree (findCost tree rest) := by
      rw [hrest, findCost]
    simp only [paused, cost, enter, List.map_cons, List.foldr_cons] at this ⊢
    omega

/-- All nodes that a search finds, in order. -/
def collect (tree : Tree) (search : Search) (run : Run) : List NodeId × Run :=
  match _h : search.next tree run with
  | (none, run) => ([], run)
  | (some (node, after), run) =>
    let (nodes, run) := collect tree after run
    (node :: nodes, run)
termination_by search.cost tree
decreasing_by exact cost_next (congrArg Prod.fst _h)

/-- What collecting does, find by find. -/
theorem collect_eq (tree : Tree) (search : Search) (run : Run) :
    search.collect tree run =
      match search.next tree run with
      | (none, run) => ([], run)
      | (some (node, after), run) =>
        (node :: (collect tree after run).1, (collect tree after run).2) := by
  rw [collect]
  rcases search.next tree run with ⟨_ | ⟨node, after⟩, run'⟩ <;> rfl

/-- The next nodes that a search finds, as many as asked for, and the search after them. -/
def take (tree : Tree) : Nat → Search → Run → List NodeId × Search × Run
  | 0, search, run => ([], search, run)
  | count + 1, search, run =>
    match search.next tree run with
    | (none, run) => ([], [], run)
    | (some (node, after), run) =>
      let (nodes, search, run) := take tree count after run
      (node :: nodes, search, run)

end Search

end TreeQuery
