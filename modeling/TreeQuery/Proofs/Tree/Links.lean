import Mathlib.Tactic.Common
import TreeQuery.Tree.Navigation

/-!
# What the operations write

Allocation writes no link at all. Attaching writes at three places: the parent gets one more child,
the child gets its parent and the last child before it, and that last child gets its successor. The
lemmas say what every link of every node reads afterwards, the nodes that are not touched included,
and hold of any arena, whether it is a tree or not.
-/

namespace TreeQuery.Tree

variable (tree : Tree)

/-- An allocation leaves every list of children as it was. -/
theorem children_alloc (kind : NodeKind) (node : NodeId) :
    (tree.alloc kind).1.children node = tree.children node := by
  rw [children, children, get?_alloc]
  split
  next hnew =>
    have hnone : tree.get? node = none := Array.getElem?_eq_none (Nat.le_of_eq hnew.symm)
    rw [hnone]
    rfl
  next => rfl

/-- An allocation leaves every link of a single node as it was. -/
theorem get?_alloc_bind {α : Type} (kind : NodeKind) (node : NodeId) (read : Node → Option α)
    (hfresh : read ⟨kind, none, [], none, none⟩ = none) :
    ((tree.alloc kind).1.get? node).bind read = (tree.get? node).bind read := by
  rw [get?_alloc]
  split
  next hnew =>
    have hnone : tree.get? node = none := Array.getElem?_eq_none (Nat.le_of_eq hnew.symm)
    rw [hnone]
    exact hfresh
  next => rfl

theorem parent_alloc (kind : NodeKind) (node : NodeId) :
    (tree.alloc kind).1.parent node = tree.parent node :=
  tree.get?_alloc_bind kind node Node.parent rfl

theorem nextSibling_alloc (kind : NodeKind) (node : NodeId) :
    (tree.alloc kind).1.nextSibling node = tree.nextSibling node :=
  tree.get?_alloc_bind kind node Node.next rfl

theorem previousSibling_alloc (kind : NodeKind) (node : NodeId) :
    (tree.alloc kind).1.previousSibling node = tree.previousSibling node :=
  tree.get?_alloc_bind kind node Node.previous rfl

/-- An allocation makes a node of its kind and leaves the kinds of the others. -/
theorem kind?_alloc (kind : NodeKind) (node : NodeId) :
    (tree.alloc kind).1.kind? node = if node = tree.size then some kind else tree.kind? node := by
  rw [kind?, get?_alloc]
  split <;> rfl

/-- What writing the links of a child leaves of a node. -/
def relinked (parent child : NodeId) (previous : Option NodeId) (place : NodeId) (node : Node) : Node :=
  { node with
    parent := if child = place then some parent else node.parent
    children := if parent = place then node.children ++ [child] else node.children
    next := if previous = some place then some child else node.next
    previous := if child = place then previous.or node.previous else node.previous }

/-- Writing the links of a child changes every node on its own. -/
theorem get?_link (parent child : NodeId) (previous : Option NodeId) (place : NodeId) :
    (tree.link parent child previous).get? place =
      (tree.get? place).map (relinked parent child previous place) := by
  cases hnode : tree.get? place with
  | none => cases previous <;> simp [link, get?_modify, hnode]
  | some node =>
    cases previous with
    | none =>
      by_cases hparent : parent = place <;> by_cases hchild : child = place <;>
        simp [link, get?_modify, relinked, hnode, hparent, hchild]
    | some last =>
      by_cases hparent : parent = place <;> by_cases hchild : child = place <;>
        by_cases hlast : last = place <;> simp [link, get?_modify, relinked, hnode, hparent, hchild, hlast]

/-- Attaching adds no node. -/
theorem size_attach (parent child : NodeId) : (tree.attach parent child).size = tree.size :=
  tree.size_link parent child _

/-- Attaching changes the kind of no node. -/
theorem kind?_attach (parent child node : NodeId) :
    (tree.attach parent child).kind? node = tree.kind? node := by
  rw [kind?, attach, get?_link, Option.map_map]
  rfl

variable {tree} {parent child : NodeId}

/-- Attaching puts the child behind the children of its parent, and changes no other list. -/
theorem children_attach (hparent : parent < tree.size) (node : NodeId) :
    (tree.attach parent child).children node =
      tree.children node ++ if node = parent then [child] else [] := by
  rw [children, attach, get?_link]
  by_cases hnode : node = parent
  · subst hnode
    have hsome : tree.get? node = some tree.nodes[node] := Array.getElem?_eq_getElem hparent
    simp [children, hsome, relinked]
  · cases hget : tree.get? node <;> simp [children, hget, relinked, hnode, Ne.symm hnode]

/-- Attaching gives the child its parent, and no other node another one. -/
theorem parent_attach (hchild : child < tree.size) (node : NodeId) :
    (tree.attach parent child).parent node = if node = child then some parent else tree.parent node := by
  rw [Tree.parent, attach, get?_link]
  by_cases hnode : node = child
  · subst hnode
    have hsome : tree.get? node = some tree.nodes[node] := Array.getElem?_eq_getElem hchild
    simp [hsome, relinked]
  · cases hget : tree.get? node <;> simp [Tree.parent, hget, relinked, hnode, Ne.symm hnode]

/-- Attaching gives the child that was the last its successor, and no other node another one. -/
theorem nextSibling_attach (hlast : ∀ last ∈ (tree.children parent).getLast?, last < tree.size)
    (node : NodeId) :
    (tree.attach parent child).nextSibling node =
      if (tree.children parent).getLast? = some node then some child else tree.nextSibling node := by
  rw [nextSibling, attach, get?_link]
  by_cases hnode : (tree.children parent).getLast? = some node
  · have hlt : node < tree.size := hlast node hnode
    have hsome : tree.get? node = some tree.nodes[node] := Array.getElem?_eq_getElem hlt
    simp [hsome, relinked, hnode]
  · cases hget : tree.get? node <;> simp [nextSibling, hget, relinked, hnode]

/-- Attaching gives the child the one that was the last before it, and no other node another one. -/
theorem previousSibling_attach (hchild : child < tree.size) (node : NodeId) :
    (tree.attach parent child).previousSibling node =
      if node = child then (tree.children parent).getLast?.or (tree.previousSibling node)
      else tree.previousSibling node := by
  rw [previousSibling, attach, get?_link]
  by_cases hnode : node = child
  · subst hnode
    have hsome : tree.get? node = some tree.nodes[node] := Array.getElem?_eq_getElem hchild
    simp [previousSibling, hsome, relinked]
  · cases hget : tree.get? node <;> simp [previousSibling, hget, relinked, hnode, Ne.symm hnode]

end TreeQuery.Tree
