import Mathlib.Tactic.Common
import TreeQuery.Outline

/-!
# Outlines in preorder

An outline is an inductive type, so what is true of an outline as soon as it is true of its children is
true of all outlines. Its nodes are listed in preorder: the outline itself, and then those of its children
one behind the other. Where the nodes of outlines are given places in this order from a start on, every
outline begins where the nodes of those before it end.
-/

namespace TreeQuery

namespace Outline

/-- The kind of the node at the top. -/
def kind : Outline → NodeKind
  | .document _ => .document
  | .element tag attributes _ => .element tag attributes
  | .text content => .text content
  | .comment content => .comment content

/-- The outlines right below the node at the top. -/
def children : Outline → List Outline
  | .document children => children
  | .element _ _ children => children
  | .text _ => []
  | .comment _ => []

/-- Whether the node at the top is a document. -/
def isDocument : Outline → Bool
  | .document _ => true
  | _ => false

/-- What holds of an outline when it holds of its children holds of all outlines. -/
@[elab_as_elim]
theorem induction {motive : Outline → Prop}
    (step : ∀ outline, (∀ child ∈ outline.children, motive child) → motive outline) (outline : Outline) :
    motive outline :=
  step outline fun child hchild => by
    have hlt : sizeOf child < sizeOf outline := by
      cases outline with
      | document children =>
        have := List.sizeOf_lt_of_mem (show child ∈ children from hchild)
        simp only [document.sizeOf_spec]
        omega
      | element tag attributes children =>
        have := List.sizeOf_lt_of_mem (show child ∈ children from hchild)
        simp only [element.sizeOf_spec]
        omega
      | text content => exact absurd hchild List.not_mem_nil
      | comment content => exact absurd hchild List.not_mem_nil
    exact induction step child
termination_by sizeOf outline

end Outline

mutual

/-- The nodes of an outline in preorder, each with everything below it. -/
def Outline.preorder : Outline → List Outline
  | .document children => .document children :: preorderOf children
  | .element tag attributes children => .element tag attributes children :: preorderOf children
  | .text content => [.text content]
  | .comment content => [.comment content]
termination_by structural outline => outline

/-- The nodes of outlines in preorder, one outline behind the other. -/
def preorderOf : List Outline → List Outline
  | [] => []
  | outline :: rest => outline.preorder ++ preorderOf rest
termination_by structural outlines => outlines

end

/-- The nodes of an outline are the outline and the nodes of its children. -/
theorem Outline.preorder_eq (outline : Outline) :
    outline.preorder = outline :: preorderOf outline.children := by
  cases outline <;> rfl

/-- The places at which outlines begin whose nodes are given places in preorder. -/
def places (start : NodeId) : List Outline → List NodeId
  | [] => []
  | outline :: rest => start :: places (start + outline.preorder.length) rest

end TreeQuery
