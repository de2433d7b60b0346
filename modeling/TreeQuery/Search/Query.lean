import TreeQuery.Search.Predicate
import TreeQuery.Selector.Compile

/-!
# Queries

A query compiles what it is given for a selector and searches below one node with it, in a run of
its own that starts with the flags of the selector. It fails only where compilation does.

Along a chain of parts the finds below one match come together, before those below the next match;
a node below two matches is found twice.
-/

namespace TreeQuery

namespace Selector

/-- The run that a selector starts with. -/
def freshRun (selector : Selector) : Run := .ofFlags selector.flags

/-- All nodes that a fresh selector finds below a node. -/
def findAll (selector : Selector) (tree : Tree) (node : NodeId) : List NodeId × Run :=
  (selector.search tree 0 node).collect tree selector.freshRun

/-- The first node that a fresh selector finds below a node. Nothing behind it is tested. -/
def findFirst (selector : Selector) (tree : Tree) (node : NodeId) : Option NodeId × Run :=
  match (selector.search tree 0 node).next tree selector.freshRun with
  | (found, run) => (found.map Prod.fst, run)

/-- The first nodes that a fresh selector finds below a node, as many as asked for. -/
def findSome (selector : Selector) (tree : Tree) (node : NodeId) (count : Nat) : List NodeId × Run :=
  match (selector.search tree 0 node).take tree count selector.freshRun with
  | (nodes, _, run) => (nodes, run)

end Selector

/-- The answer of a fresh predicate on a node. -/
def Predicate.answer (predicate : Predicate) (tree : Tree) (node : NodeId) : Bool × Run :=
  predicate.test tree 0 node (.ofFlags predicate.flags)

namespace Tree

/-- All nodes below a node that a selector finds. -/
def selectAll (tree : Tree) (node : NodeId) (source : SelectorSource) (functions : Functions) :
    Compilation (List NodeId × Run) :=
  return (← functions.compile source).findAll tree node

/-- The first node below a node that a selector finds. -/
def selectFirst (tree : Tree) (node : NodeId) (source : SelectorSource) (functions : Functions) :
    Compilation (Option NodeId × Run) :=
  return (← functions.compile source).findFirst tree node

/-- The first nodes below a node that a selector finds, as many as asked for. -/
def selectSome (tree : Tree) (node : NodeId) (source : SelectorSource) (functions : Functions)
    (count : Nat) : Compilation (List NodeId × Run) :=
  return (← functions.compile source).findSome tree node count

/-- Whether a node itself passes a selector, which has to be a single test. -/
def nodeMatches (tree : Tree) (node : NodeId) (source : SelectorSource) (functions : Functions) :
    Compilation (Bool × Run) :=
  return (← functions.compileSimple source).answer tree node

end Tree

end TreeQuery
