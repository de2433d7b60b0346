import TreeQuery.Search.Run

/-!
# Walking below a node

A walk goes through the descendants of a node in preorder, down to a bounded depth, and can be paused
after every node. It is a stack of frames: the children of one node that are still to come, and how
many levels, counted from those children, the walk may go down.

A walk without a bound of its own gets the `horizon` of the tree. A path without a cycle is shorter
than the arena, so below a node of a tree the horizon cuts nothing off. Where links make a cycle,
the horizon lies deeper than any walk gets, and makes the walk a finite thing all the same.

Main statements: `cost_advance` bounds what is left of a walk after one step, and `cost_next` after
the search for the next node that passes a test.
-/

namespace TreeQuery

/-- The levels that a walk without a bound may go down. -/
def Tree.horizon (tree : Tree) : Nat := tree.size + (1 <<< 62)

/-- The children of one node that a walk has still to visit, and the levels it may go down, counted
from them. -/
structure Frame where
  pending : List NodeId
  bound : Nat

/-- A paused walk: its frames, the innermost first. -/
abbrev Walk := List Frame

namespace Walk

/-- The walk below a node, down to a depth. The depth 0 leaves nothing to visit. -/
def start (tree : Tree) (node : NodeId) (depth : Option Nat) : Walk :=
  if depth = some 0 then [] else [⟨tree.children node, depth.getD tree.horizon⟩]

/-- The next node of a walk, and the walk after it. The children of that node come first, if the
bound lets the walk reach them. -/
def advance (tree : Tree) : Walk → Option (NodeId × Walk)
  | [] => none
  | ⟨[], _⟩ :: below => advance tree below
  | ⟨node :: pending, bound⟩ :: below =>
    let below := ⟨pending, bound⟩ :: below
    some (node, if 1 < bound then ⟨tree.children node, bound - 1⟩ :: below else below)

/-- The most steps that can come of visiting a node, where each node on the way costs `extra` on top. -/
def visitCost (tree : Tree) (extra : NodeId → Nat) : Nat → NodeId → Nat
  | 0, node => 1 + extra node
  | bound + 1, node =>
    2 + extra node + ((tree.children node).map (visitCost tree extra bound)).foldr (· + ·) 0

/-- The most steps that a walk can still take. -/
def cost (tree : Tree) (extra : NodeId → Nat) (walk : Walk) : Nat :=
  (walk.map fun frame =>
    1 + (frame.pending.map (visitCost tree extra frame.bound)).foldr (· + ·) 0).foldr (· + ·) 0

/-- One step pays for itself and for what the node costs on top. -/
theorem cost_advance {tree : Tree} (extra : NodeId → Nat) {walk after : Walk} {node : NodeId}
    (h : walk.advance tree = some (node, after)) :
    after.cost tree extra + 1 + extra node ≤ walk.cost tree extra := by
  induction walk with
  | nil => simp [advance] at h
  | cons frame below ih =>
    obtain ⟨pending, bound⟩ := frame
    cases pending with
    | nil =>
      have := ih (by simpa [advance] using h)
      simp only [cost, List.map_cons, List.foldr_cons] at this ⊢
      omega
    | cons child pending =>
      simp only [advance, Option.some.injEq, Prod.mk.injEq] at h
      obtain ⟨rfl, rfl⟩ := h
      cases bound with
      | zero => simp [cost, visitCost]; omega
      | succ bound =>
        split
        · simp [cost, visitCost]; omega
        · simp [cost, visitCost]; omega

/-- The next node of a walk that passes a test, and the walk after it. Every node up to that one is
tested, in the order of the walk, and none behind it. -/
def next (tree : Tree) (test : Test) (walk : Walk) (run : Run) : Option (NodeId × Walk) × Run :=
  match _h : walk.advance tree with
  | none => (none, run)
  | some (node, after) =>
    match test node run with
    | (true, run) => (some (node, after), run)
    | (false, run) => next tree test after run
termination_by walk.cost tree fun _ => 0
decreasing_by
  have := cost_advance (fun _ => 0) _h
  omega

/-- What finding the next node does, step by step. -/
theorem next_eq (tree : Tree) (test : Test) (walk : Walk) (run : Run) :
    walk.next tree test run =
      match walk.advance tree with
      | none => (none, run)
      | some (node, after) =>
        match test node run with
        | (true, run) => (some (node, after), run)
        | (false, run) => next tree test after run := by
  rw [next]
  cases walk.advance tree with
  | none => rfl
  | some found => rfl

/-- Finding the next node pays for itself and for what that node costs on top. -/
theorem cost_next {tree : Tree} {test : Test} (extra : NodeId → Nat) {walk after : Walk}
    {node : NodeId} {run : Run} (h : (walk.next tree test run).1 = some (node, after)) :
    after.cost tree extra + 1 + extra node ≤ walk.cost tree extra := by
  fun_induction next tree test walk run with
  | case1 => simp at h
  | case2 walk run found rest hadvance run' htest =>
    simp only [Option.some.injEq, Prod.mk.injEq] at h
    obtain ⟨rfl, rfl⟩ := h
    exact cost_advance extra hadvance
  | case3 walk run found rest hadvance run' htest ih =>
    have := cost_advance extra hadvance
    have := ih h
    omega

/-- All nodes of a walk that pass a test, in order. -/
def collect (tree : Tree) (test : Test) (walk : Walk) (run : Run) : List NodeId × Run :=
  match _h : walk.next tree test run with
  | (none, run) => ([], run)
  | (some (node, after), run) =>
    let (nodes, run) := collect tree test after run
    (node :: nodes, run)
termination_by walk.cost tree fun _ => 0
decreasing_by
  have := cost_next (fun _ => 0) (congrArg Prod.fst _h)
  omega

/-- What collecting does, find by find. -/
theorem collect_eq (tree : Tree) (test : Test) (walk : Walk) (run : Run) :
    walk.collect tree test run =
      match walk.next tree test run with
      | (none, run) => ([], run)
      | (some (node, after), run) =>
        (node :: (collect tree test after run).1, (collect tree test after run).2) := by
  rw [collect]
  rcases walk.next tree test run with ⟨_ | ⟨node, after⟩, run'⟩ <;> rfl

/-- The next nodes of a walk that pass a test, as many as asked for, and the walk after them. The
walk does not move on from the last of them. -/
def take (tree : Tree) (test : Test) : Nat → Walk → Run → List NodeId × Walk × Run
  | 0, walk, run => ([], walk, run)
  | count + 1, walk, run =>
    match walk.next tree test run with
    | (none, run) => ([], [], run)
    | (some (node, after), run) =>
      let (nodes, walk, run) := take tree test count after run
      (node :: nodes, walk, run)

end Walk

end TreeQuery
