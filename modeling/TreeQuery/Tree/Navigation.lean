import TreeQuery.Tree.Basic
import TreeQuery.Text.Ascii

/-!
# Moving about the tree and reading its nodes

Every reading is total: a place outside the arena has no links, no children, no attributes and the
empty name.
-/

namespace TreeQuery.Tree

/-- The parent of a node. -/
def parent (tree : Tree) (node : NodeId) : Option NodeId := (tree.get? node).bind Node.parent

/-- The first child of a node. -/
def firstChild (tree : Tree) (node : NodeId) : Option NodeId := (tree.children node).head?

/-- The last child of a node. -/
def lastChild (tree : Tree) (node : NodeId) : Option NodeId := (tree.children node).getLast?

/-- The node after a node among the children of its parent. -/
def nextSibling (tree : Tree) (node : NodeId) : Option NodeId := (tree.get? node).bind Node.next

/-- The node before a node among the children of its parent. -/
def previousSibling (tree : Tree) (node : NodeId) : Option NodeId :=
  (tree.get? node).bind Node.previous

/-- The first `limit` ancestors of a node, its parent first. -/
def ancestorsUpTo (tree : Tree) : Nat → NodeId → List NodeId
  | 0, _ => []
  | limit + 1, node =>
    match tree.parent node with
    | none => []
    | some parent => parent :: tree.ancestorsUpTo limit parent

/-- The ancestors of a node, its parent first. A chain of parents without a cycle is shorter than
the arena, so the limit cuts nothing off. -/
def ancestors (tree : Tree) (node : NodeId) : List NodeId := tree.ancestorsUpTo tree.size node

/-- Whether `ancestor` is among the ancestors of `node`. -/
def isDescendantOf (tree : Tree) (node ancestor : NodeId) : Bool :=
  (tree.ancestors node).contains ancestor

/-- The kind of a node. -/
def kind? (tree : Tree) (node : NodeId) : Option NodeKind := (tree.get? node).map Node.kind

/-- The tag of a node, if it is an element. -/
def tag? (tree : Tree) (node : NodeId) : Option String :=
  match tree.kind? node with
  | some (.element tag _) => some tag
  | _ => none

/-- The attributes of a node, if it is an element. -/
def attributes? (tree : Tree) (node : NodeId) : Option Attributes :=
  match tree.kind? node with
  | some (.element _ attributes) => some attributes
  | _ => none

/-- Whether a node is an element. -/
def isElement (tree : Tree) (node : NodeId) : Bool := (tree.attributes? node).isSome

/-- The content of a node, if it is a text. -/
def text? (tree : Tree) (node : NodeId) : Option String :=
  match tree.kind? node with
  | some (.text content) => some content
  | _ => none

/-- The name of a node: the tag of an element, and a fixed name for the other kinds. -/
def nodeName (tree : Tree) (node : NodeId) : String :=
  match tree.kind? node with
  | some (.element tag _) => tag
  | some (.text _) => "#text"
  | some (.comment _) => "#comment"
  | some .document => "#document"
  | none => ""

/-- The value of an attribute, if the node is an element that has it. -/
def attribute? (tree : Tree) (node : NodeId) (name : String) : Option String :=
  (tree.attributes? node).bind (·.get? name)

/-- The value of an attribute, empty when the node has none. -/
def attributeValue (tree : Tree) (node : NodeId) (name : String) : String :=
  (tree.attribute? node name).getD ""

/-- The `id` of an element. -/
def id? (tree : Tree) (node : NodeId) : Option String := tree.attribute? node "id"

/-- The class tokens of an element: the words of its `class` attribute. -/
def classes (tree : Tree) (node : NodeId) : List String := Text.words (tree.attributeValue node "class")

/-- Whether a text is one of the class tokens of a node. -/
def hasClass (tree : Tree) (node : NodeId) (name : String) : Bool := (tree.classes node).contains name

/-- The first element among the children of the document. -/
def documentElement (tree : Tree) : Option NodeId := (tree.children root).find? tree.isElement

end TreeQuery.Tree
