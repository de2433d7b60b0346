import TreeQuery.Tree.Basic

/-!
# Outlines

An outline is a document tree by its shape alone: nodes that hold their children, without places and
links. Loading an outline appends its nodes in preorder. A document may stand at the top only, where
it is the document of the new tree; any other node at the top becomes the one child of a fresh
document.

Which outline a text writes is up to a decoder, and so is what there is to say about a text that writes
none.
-/

namespace TreeQuery

/-- A node together with everything below it. -/
inductive Outline where
  | document (children : List Outline)
  | element (tag : String) (attributes : Attributes) (children : List Outline)
  | text (content : String)
  | comment (content : String)

/-- Why a tree cannot be loaded. -/
inductive LoadError where
  /-- The text does not write an outline, for a cause in the words of its decoder, if it has any. -/
  | invalid (cause : Option String)
  /-- A document stands below another node. -/
  | nestedDocument
  deriving DecidableEq

/-- The words for a tree that cannot be loaded. -/
def LoadError.message : LoadError → String
  | .invalid _ => "invalid tree JSON"
  | .nestedDocument => "a document node can only appear at the top level"

/-- The cause of that, told below the words for it. -/
def LoadError.cause : LoadError → Option String
  | .invalid cause => cause
  | .nestedDocument => none

mutual

/-- Append a node and everything below it. -/
def Outline.appendTo (tree : Tree) (parent : NodeId) : Outline → Except LoadError Tree
  | .document _ => .error .nestedDocument
  | .element tag attributes children =>
    let (tree, node) := tree.grow parent (.element tag attributes)
    appendOutlines tree node children
  | .text content => .ok (tree.grow parent (.text content)).1
  | .comment content => .ok (tree.grow parent (.comment content)).1
termination_by structural outline => outline

/-- Append nodes one after another. -/
def appendOutlines (tree : Tree) (parent : NodeId) : List Outline → Except LoadError Tree
  | [] => .ok tree
  | outline :: rest =>
    match outline.appendTo tree parent with
    | .ok tree => appendOutlines tree parent rest
    | .error error => .error error
termination_by structural outlines => outlines

end

/-- The tree of an outline. -/
def Outline.load : Outline → Except LoadError Tree
  | .document children => appendOutlines .empty Tree.root children
  | other => other.appendTo .empty Tree.root

/-- A decoder: the outline that a text writes, or what is wrong with the text, if there are words for it. -/
abbrev Decoder := String → Except (Option String) Outline

/-- The tree that a text writes for a decoder. The whole text is decoded before a tree is built. -/
def Tree.ofText (decode : Decoder) (text : String) : Except LoadError Tree :=
  match decode text with
  | .error cause => .error (.invalid cause)
  | .ok outline => outline.load

end TreeQuery
