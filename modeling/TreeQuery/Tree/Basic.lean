import TreeQuery.Tree.Attributes

/-!
# The document tree

All nodes of a tree stand in one arena and name each other by their place in it. Node 0 is the
document. A node keeps its parent, its children in order, and its neighbours among the children of
its parent; the links are redundant, and `appendChild` is the one operation that writes them.

Appending never takes a node out of the place where it was before. A node that is appended twice
therefore stands in two lists of children, and appending an ancestor makes a cycle: the arena is a
tree only as long as its callers append fresh nodes.
-/

namespace TreeQuery

/-- The place of a node in the arena. -/
abbrev NodeId := Nat

/-- What a node is, with the data of its kind. -/
inductive NodeKind where
  | document
  | element (tag : String) (attributes : Attributes)
  | text (content : String)
  | comment (content : String)

/-- A node and its links. -/
structure Node where
  kind : NodeKind
  parent : Option NodeId := none
  children : List NodeId := []
  next : Option NodeId := none
  previous : Option NodeId := none

/-- A document tree: the arena of its nodes. -/
structure Tree where
  nodes : Array Node

/-- An index that points past the end of an arena of the given length. -/
structure OutOfBounds where
  length : Nat
  index : Nat

/-- The text that reports an index past the end. -/
def OutOfBounds.message (fault : OutOfBounds) : String :=
  s!"index out of bounds: the len is {fault.length} but the index is {fault.index}"

namespace Tree

/-- The place of the document. -/
def root : NodeId := 0

/-- The tree that holds the document alone. -/
def empty : Tree := ⟨#[⟨.document, none, [], none, none⟩]⟩

/-- The number of nodes, whether attached or not. -/
def size (tree : Tree) : Nat := tree.nodes.size

/-- Whether the arena has no node at all, not even the document. -/
def isEmpty (tree : Tree) : Bool := tree.nodes.isEmpty

/-- The node at a place. -/
def get? (tree : Tree) (node : NodeId) : Option Node := tree.nodes[node]?

/-- Add a node without links, which gets the next free place. -/
def alloc (tree : Tree) (kind : NodeKind) : Tree × NodeId :=
  (⟨tree.nodes.push ⟨kind, none, [], none, none⟩⟩, tree.size)

/-- Change the node at a place, if there is one. -/
def modify (tree : Tree) (node : NodeId) (change : Node → Node) : Tree :=
  ⟨tree.nodes.modify node change⟩

/-- Write the links of `child` as the child of `parent` that follows `previous`. -/
def link (tree : Tree) (parent child : NodeId) (previous : Option NodeId) : Tree :=
  let tree := tree.modify parent fun n => { n with children := n.children ++ [child] }
  let tree := tree.modify child fun n => { n with parent := some parent }
  match previous with
  | none => tree
  | some last =>
    let tree := tree.modify last fun n => { n with next := some child }
    tree.modify child fun n => { n with previous := some last }

/-- The children of a node, in order. A place outside the arena has none. -/
def children (tree : Tree) (node : NodeId) : List NodeId :=
  ((tree.get? node).map Node.children).getD []

/-- Make `child` the last child of `parent`, both of which have to be in the arena. -/
def attach (tree : Tree) (parent child : NodeId) : Tree :=
  tree.link parent child (tree.children parent).getLast?

/-- Make `child` the last child of `parent`, or report the one that is not in the arena; the parent
is looked at first. -/
def appendChild (tree : Tree) (parent child : NodeId) : Except OutOfBounds Tree :=
  if tree.size ≤ parent then .error ⟨tree.size, parent⟩
  else if tree.size ≤ child then .error ⟨tree.size, child⟩
  else .ok (tree.attach parent child)

/-- Add a node as the last child of a `parent` in the arena. -/
def grow (tree : Tree) (parent : NodeId) (kind : NodeKind) : Tree × NodeId :=
  let (tree, child) := tree.alloc kind
  (tree.attach parent child, child)

/-- Add a node and make it the last child of `parent`, which has to be in the arena. -/
def append (tree : Tree) (parent : NodeId) (kind : NodeKind) : Except OutOfBounds (Tree × NodeId) :=
  let (tree, child) := tree.alloc kind
  (tree.appendChild parent child).map fun tree => (tree, child)

/-- Append a new element. -/
def appendElement (tree : Tree) (parent : NodeId) (tag : String)
    (attributes : List (String × String)) : Except OutOfBounds (Tree × NodeId) :=
  tree.append parent (.element tag (.ofList attributes))

/-- Append a new text. -/
def appendText (tree : Tree) (parent : NodeId) (content : String) :
    Except OutOfBounds (Tree × NodeId) :=
  tree.append parent (.text content)

/-- Append a new comment. -/
def appendComment (tree : Tree) (parent : NodeId) (content : String) :
    Except OutOfBounds (Tree × NodeId) :=
  tree.append parent (.comment content)

/-- A change keeps the number of nodes. -/
theorem size_modify (tree : Tree) (node : NodeId) (change : Node → Node) :
    (tree.modify node change).size = tree.size := Array.size_modify

/-- A change acts at its own place only. -/
theorem get?_modify (tree : Tree) (node other : NodeId) (change : Node → Node) :
    (tree.modify node change).get? other =
      if node = other then (tree.get? other).map change else tree.get? other :=
  Array.getElem?_modify

/-- Writing links keeps the number of nodes. -/
theorem size_link (tree : Tree) (parent child : NodeId) (previous : Option NodeId) :
    (tree.link parent child previous).size = tree.size := by
  cases previous <;> simp [link, size_modify]

/-- An allocation adds one node. -/
theorem size_alloc (tree : Tree) (kind : NodeKind) : (tree.alloc kind).1.size = tree.size + 1 :=
  Array.size_push _

/-- An allocation fills the next free place and no other. -/
theorem get?_alloc (tree : Tree) (kind : NodeKind) (node : NodeId) :
    (tree.alloc kind).1.get? node =
      if node = tree.size then some ⟨kind, none, [], none, none⟩ else tree.get? node :=
  Array.getElem?_push

end Tree

end TreeQuery
