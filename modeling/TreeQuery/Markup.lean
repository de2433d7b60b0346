import TreeQuery.Markup.Escape
import TreeQuery.Tree.Navigation

/-!
# Markup of nodes and subtrees

The outer markup of a node is the node with everything below it, the inner markup is everything
below it alone. The document has no markup of its own. Attributes are written in the order of their
names. A void element has a start tag only: neither children nor an end tag are written for it,
although its inner markup shows the children it may have been given.
-/

namespace TreeQuery.Markup

/-- The names of the elements that have a start tag only. -/
def voidNames : List String :=
  ["area", "base", "br", "col", "embed", "hr", "img", "input", "link", "meta", "source", "track",
    "wbr"]

/-- Whether an element of this name has a start tag only; the case of ASCII letters is ignored. -/
def isVoid (tag : String) : Bool := voidNames.contains (Text.lower tag)

/-- One attribute as it stands inside a start tag. -/
def attributeMarkup (entry : String × String) : List Char :=
  ' ' :: entry.1.toList ++ '=' :: '"' :: escape .attribute entry.2.toList ++ ['"']

/-- The start tag of an element. -/
def startTag (tag : String) (attributes : Attributes) : List Char :=
  '<' :: tag.toList ++ attributes.entries.flatMap attributeMarkup ++ ['>']

/-- The end tag of an element, which is empty for a void element. -/
def endTag (tag : String) : List Char :=
  if isVoid tag then [] else '<' :: '/' :: tag.toList ++ ['>']

/-- The markup of a comment. -/
def commentMarkup (content : String) : List Char :=
  "<!--".toList ++ content.toList ++ "-->".toList

/-- Whether the markup of a node of this kind shows its children. -/
def showsChildren : NodeKind → Bool
  | .document => true
  | .element tag _ => !isVoid tag
  | .text _ => false
  | .comment _ => false

/-- The markup of a node of this kind, given the markup of those children that it shows. -/
def around (kind : NodeKind) (inside : List Char) : List Char :=
  match kind with
  | .document => inside
  | .element tag attributes => startTag tag attributes ++ inside ++ endTag tag
  | .text content => escape .text content.toList
  | .comment content => commentMarkup content

end TreeQuery.Markup

namespace TreeQuery.Tree

open Markup

/-- The outer markup of a node, down to the given number of levels. -/
def outerWithin (tree : Tree) : Nat → NodeId → List Char
  | 0, _ => []
  | levels + 1, node =>
    match tree.get? node with
    | none => []
    | some n =>
      around n.kind
        (if showsChildren n.kind then n.children.flatMap (tree.outerWithin levels) else [])

/-- The outer markup of a node. A path without a cycle has at most as many nodes as the arena, so the
bound on the levels cuts nothing off. -/
def outerMarkup (tree : Tree) (node : NodeId) : String := .ofList (tree.outerWithin tree.size node)

/-- The inner markup of a node: the outer markup of its children, one after another. -/
def innerMarkup (tree : Tree) (node : NodeId) : String :=
  .ofList ((tree.children node).flatMap (tree.outerWithin tree.size))

end TreeQuery.Tree
