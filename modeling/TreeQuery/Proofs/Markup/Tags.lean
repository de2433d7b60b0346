import TreeQuery.Proofs.Markup.Levels

/-!
# What stands between the tags

The outer markup of an element is its start tag, the markup of its children and its end tag; the inner
markup is the markup of its children alone. So the inner markup is what the outer one shows between the
tags, except for void elements. Those have no end tag and show no children, whatever children they have
been given, while their inner markup still lists them.

Main statement: the outer markup of elements and documents in terms of their inner markup.
-/

namespace TreeQuery

namespace Markup

/-- An element is void when its name is one of the void names, up to the case of ASCII letters. -/
theorem isVoid_iff {tag : String} :
    isVoid tag = true ↔ ∃ name ∈ voidNames, Text.sameIgnoringCase tag name = true := by
  have hlower : ∀ name ∈ voidNames, Text.lower name = name := by decide
  simp only [isVoid, List.contains_iff_mem, Text.sameIgnoringCase, beq_iff_eq]
  constructor
  · intro hmem
    exact ⟨Text.lower tag, hmem, (hlower _ hmem).symm⟩
  · intro hall
    obtain ⟨name, hname, hsame⟩ := hall
    rwa [hsame, hlower name hname]

/-- Void elements alone have no end tag. -/
theorem endTag_eq_nil_iff {tag : String} : endTag tag = [] ↔ isVoid tag = true := by
  unfold endTag
  split <;> simp_all

end Markup

namespace Tree

open Markup

variable {tree : Tree} {node : NodeId}

/-- A document shows its inner markup alone. -/
theorem Acyclic.outerMarkup_of_document (h : tree.Acyclic) (hkind : tree.kind? node = some .document) :
    tree.outerMarkup node = tree.innerMarkup node := by
  rw [outerMarkup, h.outerWithin_eq hkind, innerMarkup]
  rfl

variable {tag : String} {attributes : Attributes}

/-- An element that is not void shows its inner markup between its tags. -/
theorem Acyclic.outerMarkup_of_not_isVoid (h : tree.Acyclic)
    (hkind : tree.kind? node = some (.element tag attributes)) (hvoid : isVoid tag = false) :
    tree.outerMarkup node =
      .ofList (startTag tag attributes) ++ tree.innerMarkup node ++ .ofList (endTag tag) := by
  rw [outerMarkup, h.outerWithin_eq hkind, innerMarkup, ← String.ofList_append, ← String.ofList_append]
  simp [around, showsChildren, hvoid]

/-- A void element shows its start tag alone. -/
theorem Acyclic.outerMarkup_of_isVoid (h : tree.Acyclic)
    (hkind : tree.kind? node = some (.element tag attributes)) (hvoid : isVoid tag = true) :
    tree.outerMarkup node = .ofList (startTag tag attributes) := by
  rw [outerMarkup, h.outerWithin_eq hkind]
  simp [around, showsChildren, hvoid, endTag_eq_nil_iff.mpr hvoid]

/-- A document shows its inner markup alone. The outer markup of an element is its start tag, its inner
markup and its end tag exactly if the element is not void or has nothing inside; of a void element it is
the start tag in any case. Void are the elements with a void name, up to the case of ASCII letters, and
these alone have no end tag. -/
theorem outerMarkup_eq_tags (h : tree.Acyclic) (node : NodeId) :
    (tree.kind? node = some .document → tree.outerMarkup node = tree.innerMarkup node) ∧
    ∀ tag attributes, tree.kind? node = some (.element tag attributes) →
      (tree.outerMarkup node = .ofList (startTag tag attributes) ++ tree.innerMarkup node ++
          .ofList (endTag tag) ↔ isVoid tag = false ∨ tree.innerMarkup node = "") ∧
      (isVoid tag = true → tree.outerMarkup node = .ofList (startTag tag attributes)) ∧
      (endTag tag = [] ↔ isVoid tag = true) ∧
      (isVoid tag = true ↔ ∃ name ∈ voidNames, Text.sameIgnoringCase tag name = true) := by
  refine ⟨h.outerMarkup_of_document, fun tag attributes hkind => ⟨?_, h.outerMarkup_of_isVoid hkind,
    endTag_eq_nil_iff, isVoid_iff⟩⟩
  cases hvoid : isVoid tag with
  | false => exact iff_of_true (h.outerMarkup_of_not_isVoid hkind hvoid) (Or.inl rfl)
  | true =>
    rw [h.outerMarkup_of_isVoid hkind hvoid, endTag_eq_nil_iff.mpr hvoid, String.ofList_nil,
      String.append_empty, eq_comm, String.append_eq_left_iff]
    exact (or_iff_right Bool.true_eq_false.mp).symm

/-- A break with a text inside, in a paragraph. -/
def filledBreak : Tree :=
  ⟨#[⟨.document, none, [1], none, none⟩, ⟨.element "p" .empty, some 0, [2], none, none⟩,
    ⟨.element "Br" .empty, some 1, [3], none, none⟩, ⟨.text "a", some 2, [], none, none⟩]⟩

/-- The paragraph shows its inner markup between its tags, while the break has some that it does not show. -/
theorem outerMarkup_filledBreak : filledBreak.Acyclic ∧
    filledBreak.outerMarkup 1 = "<p>" ++ filledBreak.innerMarkup 1 ++ "</p>" ∧
    filledBreak.outerMarkup 2 = "<Br>" ∧ filledBreak.innerMarkup 2 = "a" := by
  have h : filledBreak.Acyclic := acyclic_of_ascending (by decide)
  exact ⟨h, ((outerMarkup_eq_tags h 1).2 "p" .empty rfl).1.mpr (Or.inl (by decide)),
    ((outerMarkup_eq_tags h 2).2 "Br" .empty rfl).2.1 (by decide), by decide⟩

/-- Between the tags of an element there may be less than its inner markup. -/
theorem exists_outerMarkup_ne : ¬ ∀ tree : Tree, tree.Acyclic → ∀ node tag attributes,
    tree.kind? node = some (.element tag attributes) →
    tree.outerMarkup node =
      .ofList (startTag tag attributes) ++ tree.innerMarkup node ++ .ofList (endTag tag) := by
  intro hall
  have heq := hall filledBreak (acyclic_of_ascending (by decide)) 2 "Br" .empty rfl
  revert heq
  decide

end Tree

end TreeQuery
