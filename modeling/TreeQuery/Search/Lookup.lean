import TreeQuery.Search.Predicate

/-!
# Looking nodes up without selector text

A lookup goes through the descendants of a node, down to a level, and keeps those that pass one
predicate. Level 1 looks at the children alone, level 0 at nothing, and no level at everything.
-/

namespace TreeQuery.Tree

/-- All descendants that pass a predicate, in order. -/
def nodesBy (tree : Tree) (node : NodeId) (predicate : Predicate) (level : Option Nat) (run : Run) :
    List NodeId × Run :=
  (Walk.start tree node level).collect tree (predicate.test tree 0) run

/-- The first descendant that passes a predicate. -/
def firstNodeBy (tree : Tree) (node : NodeId) (predicate : Predicate) (level : Option Nat)
    (run : Run) : Option NodeId × Run :=
  match (Walk.start tree node level).next tree (predicate.test tree 0) run with
  | (found, run) => (found.map Prod.fst, run)

/-- The run in which a fresh predicate is asked. -/
def freshRun (predicate : Predicate) : Run := .ofFlags predicate.flags

/-- All elements below a node with a class token. -/
def elementsByClass (tree : Tree) (node : NodeId) (name : String) (level : Option Nat) : List NodeId :=
  (tree.nodesBy node (.hasClass name) level (freshRun (.hasClass name))).1

/-- The first element below a node with a class token. -/
def firstElementByClass (tree : Tree) (node : NodeId) (name : String) (level : Option Nat) :
    Option NodeId :=
  (tree.firstNodeBy node (.hasClass name) level (freshRun (.hasClass name))).1

/-- All elements below a node with a tag, up to the case of ASCII letters. -/
def elementsByTag (tree : Tree) (node : NodeId) (tag : String) (level : Option Nat) : List NodeId :=
  (tree.nodesBy node (.ofTag tag) level (freshRun (.ofTag tag))).1

/-- The first element below a node with a tag, up to the case of ASCII letters. -/
def firstElementByTag (tree : Tree) (node : NodeId) (tag : String) (level : Option Nat) :
    Option NodeId :=
  (tree.firstNodeBy node (.ofTag tag) level (freshRun (.ofTag tag))).1

/-- The first element below a node with an `id`. -/
def elementById (tree : Tree) (node : NodeId) (value : String) (level : Option Nat) : Option NodeId :=
  (tree.firstNodeBy node (.id value) level (freshRun (.id value))).1

end TreeQuery.Tree
