import Mathlib.Data.List.Forall2
import TreeQuery.Proofs.Markup.Levels
import TreeQuery.Proofs.Outline.Preorder

/-!
# Outlines and their markup

An outline stands at a place of an arena when the node there is of the kind of the outline and has as many
children as the outline, at which those of the outline stand in order. What else the arena holds, and at
which places, is left open. The markup of an outline is written by recursion over the outline alone.

Main statement: without a cycle the markup of a node is that of the outline which stands there.
-/

namespace TreeQuery

open Markup

/-- An outline stands at a place of an arena. -/
inductive Outline.Stands (tree : Tree) : Outline → NodeId → Prop
  | intro {outline : Outline} {node : NodeId} (kind : tree.kind? node = some outline.kind)
      (children : List.Forall₂ (Stands tree) outline.children (tree.children node)) : Stands tree outline node

mutual

/-- The markup of an outline. -/
def Outline.markup : Outline → List Char
  | .document children => markupOf children
  | .element tag attributes children =>
    startTag tag attributes ++ (if isVoid tag then [] else markupOf children ++ endTag tag)
  | .text content => escape .text content.toList
  | .comment content => commentMarkup content
termination_by structural outline => outline

/-- The markup of outlines, one behind the other. -/
def markupOf : List Outline → List Char
  | [] => []
  | outline :: rest => outline.markup ++ markupOf rest
termination_by structural outlines => outlines

end

/-- The markup of an outline is what its kind writes around the markup of those children that it shows. -/
theorem Outline.markup_eq (outline : Outline) :
    outline.markup =
      around outline.kind (if showsChildren outline.kind then markupOf outline.children else []) := by
  cases outline with
  | document children => rfl
  | element tag attributes children =>
    cases hvoid : isVoid tag <;> simp [markup, kind, Outline.children, around, showsChildren, endTag, hvoid]
  | text content => rfl
  | comment content => rfl

/-- The markup of nodes one behind the other is that of outlines, if that of each node is. -/
theorem flatMap_eq_markupOf {outlines : List Outline} {nodes : List NodeId} {markup : NodeId → List Char}
    (h : List.Forall₂ (fun outline node => markup node = outline.markup) outlines nodes) :
    nodes.flatMap markup = markupOf outlines := by
  induction h with
  | nil => rfl
  | cons hfirst _ ih => rw [List.flatMap_cons, hfirst, ih, markupOf]

/-- Without a cycle the markup of a node is that of the outline which stands there. -/
theorem Outline.Stands.outerWithin_eq {tree : Tree} (h : tree.Acyclic) {outline : Outline} {node : NodeId}
    (hstands : outline.Stands tree node) : tree.outerWithin tree.size node = outline.markup := by
  induction outline using Outline.induction generalizing node with
  | step outline ih =>
    obtain ⟨hkind, hchildren⟩ := hstands
    have hinside : (tree.children node).flatMap (tree.outerWithin tree.size) = markupOf outline.children :=
      flatMap_eq_markupOf (((List.forall₂_and_left _ _).mpr ⟨fun _ hmem => hmem, hchildren⟩).imp
        fun child place hboth => ih child hboth.1 hboth.2)
    rw [h.outerWithin_eq hkind, hinside, outline.markup_eq]

end TreeQuery
