import TreeQuery.Proofs.Outline.Pairing
import TreeQuery.Proofs.Outline.Reading
import TreeQuery.Proofs.Tree.Edits

/-!
# Markup that loses nothing

The markup of a document says what its tree is like, as long as the tree is ordinary: its names are
identifiers, void elements have no children, texts are not empty and are no neighbours, no comment holds an
arrow, and no document lies below another one. In such a tree an outline stands at the document, and the
outline can be read back. Only the children of texts and comments are nowhere to be seen: neither the
markup nor the outline has a place for them, so there must be none.

Main statement: ordinary trees whose texts and comments have no children are isomorphic if their documents
have the same markup.
-/

namespace TreeQuery

/-- Whether a kind is that of a text or a comment, whose markup is its content alone. -/
def NodeKind.isLeaf : NodeKind → Bool
  | .document => false
  | .element _ _ => false
  | .text _ => true
  | .comment _ => true

namespace Outline

/-- The outline of a node of a kind with outlines below it, which texts and comments have no place for. -/
def ofKind : NodeKind → List Outline → Outline
  | .document, children => .document children
  | .element tag attributes, children => .element tag attributes children
  | .text content, _ => .text content
  | .comment content, _ => .comment content

theorem kind_ofKind (kind : NodeKind) (children : List Outline) : (ofKind kind children).kind = kind := by
  cases kind <;> rfl

/-- Below the outline of a node are the outlines it is made with, if texts and comments have none. -/
theorem children_ofKind {kind : NodeKind} {children : List Outline}
    (h : kind.isLeaf = true → children = []) : (ofKind kind children).children = children := by
  cases kind with
  | document => rfl
  | element tag attributes => rfl
  | text content => exact (h rfl).symm
  | comment content => exact (h rfl).symm

/-- The outline at a text has the content of the text. -/
theorem Stands.text?_eq {tree : Tree} {outline : Outline} {node : NodeId} (h : outline.Stands tree node) :
    outline.text? = tree.text? node := by
  obtain ⟨hkind, -⟩ := h
  rw [Tree.text?, hkind]
  cases outline <;> rfl

end Outline

namespace Tree

variable {tree tree' : Tree} {node : NodeId}

/-- Trees put together without a cycle and without a node in two places, whose markup is what a reader
expects of a document: names are identifiers, texts are not empty and do not follow one another, no comment
holds an arrow, void elements have no children, and no document lies below the document. -/
structure Ordinary (tree : Tree) : Prop where
  built : ReachedBy Edit.InArena tree
  wellFormed : tree.WellFormed
  plain : ∀ {node kind}, tree.Reaches root node → node ≠ root → tree.kind? node = some kind → kind.Plain
  void : ∀ {node kind}, tree.Reaches root node → tree.kind? node = some kind → kind.isVoid = true →
    tree.children node = []
  apart : ∀ {node}, tree.Reaches root node →
    (tree.children node).IsChain fun left right => tree.text? left = none ∨ tree.text? right = none

/-- What fresh calls have put together is ordinary, if every node in the arena is as it should be. -/
theorem ReachedBy.ordinary (h : ReachedBy Edit.Fresh tree)
    (hplain : ∀ node < tree.size, node ≠ root → ∀ kind ∈ tree.kind? node, kind.Plain)
    (hvoid : ∀ node < tree.size, ∀ kind ∈ tree.kind? node, kind.isVoid = true → tree.children node = [])
    (hapart : ∀ node < tree.size,
      (tree.children node).IsChain fun left right => tree.text? left = none ∨ tree.text? right = none) :
    tree.Ordinary where
  built := h.mono fun _ _ => Edit.Fresh.inArena
  wellFormed := h.linked.wellFormed
  plain _ hne hkind := hplain _ (lt_size_of_kind? hkind) hne _ hkind
  void _ hkind := hvoid _ (lt_size_of_kind? hkind) _ hkind
  apart {node} _ := by
    by_cases hin : node < tree.size
    · exact hapart node hin
    · have hnone : tree.children node = [] :=
        List.eq_nil_iff_forall_not_mem.mpr fun _ hchild => hin (lt_size_of_isChild hchild)
      rw [hnone]
      exact .nil

/-- Texts and comments have no children. -/
def BareLeaves (tree : Tree) : Prop :=
  ∀ {node kind}, tree.Reaches root node → tree.kind? node = some kind → kind.isLeaf = true →
    tree.children node = []

/-- Texts and comments have no children, if none in the arena has. -/
theorem bareLeaves_of_forall (h : ∀ node < tree.size, ∀ kind ∈ tree.kind? node, kind.isLeaf = true →
    tree.children node = []) : tree.BareLeaves := fun _ hkind => h _ (lt_size_of_kind? hkind) _ hkind

namespace Ordinary

/-- What lies at or below the document has a kind. -/
theorem exists_kind (h : tree.Ordinary) (hnode : tree.Reaches root node) :
    ∃ kind, tree.kind? node = some kind := by
  rcases Relation.ReflTransGen.cases_head hnode with rfl | ⟨parent, hchild, -⟩
  · exact ⟨_, h.built.kind?_root⟩
  · refine Option.ne_none_iff_exists'.mp fun hnone => ?_
    exact Nat.not_le.mpr (h.built.lt_size_of_mem hchild) (kind?_eq_none_iff.mp hnone)

/-- The document is no child. -/
theorem child_ne_root (h : tree.Ordinary) (hnode : tree.Reaches root node) {child : NodeId}
    (hchild : child ∈ tree.children node) : child ≠ root := by
  rintro rfl
  exact h.wellFormed.acyclic root (Relation.TransGen.head' hchild hnode)

/-- An outline that stands below the document is plain, if there are legible ones below it. -/
theorem plain_of_stands (h : tree.Ordinary) (hnode : tree.Reaches root node) (hne : node ≠ root)
    {outline : Outline} (hstands : outline.Stands tree node) (hchildren : Outline.Legible outline.children) :
    outline.Plain := by
  obtain ⟨hkind, hbelow⟩ := hstands
  refine ⟨h.plain hnode hne hkind, fun hvoid => ?_, hchildren.apart⟩
  rwa [h.void hnode hkind hvoid, List.forall₂_nil_right_iff] at hbelow

/-- At and below the document of an ordinary tree outlines stand, and those below them are legible. -/
theorem exists_outline (h : tree.Ordinary) (hbare : tree.BareLeaves) (hnode : tree.Reaches root node) :
    ∃ outline : Outline, outline.Stands tree node ∧ Outline.Legible outline.children := by
  induction node using h.wellFormed.acyclic.wellFounded.induction with
  | h node ih =>
    have htotal : ∀ child, ∃ outline : Outline, child ∈ tree.children node →
        outline.Stands tree child ∧ Outline.Legible outline.children := by
      intro child
      by_cases hchild : child ∈ tree.children node
      · obtain ⟨outline, houtline⟩ := ih child hchild (hnode.child hchild)
        exact ⟨outline, fun _ => houtline⟩
      · exact ⟨.document [], fun hmem => absurd hmem hchild⟩
    choose outlineAt hat using htotal
    obtain ⟨kind, hkind⟩ := h.exists_kind hnode
    have hchildren : (Outline.ofKind kind ((tree.children node).map outlineAt)).children =
        (tree.children node).map outlineAt :=
      Outline.children_ofKind fun hleaf => by rw [hbare hnode hkind hleaf, List.map_nil]
    refine ⟨.ofKind kind ((tree.children node).map outlineAt), ⟨?_, ?_⟩, ?_⟩
    · rw [Outline.kind_ofKind, hkind]
    · rw [hchildren, List.forall₂_map_left_iff, List.forall₂_same]
      exact fun child hchild => (hat child hchild).1
    · rw [hchildren]
      refine Outline.legible_of_forall ?_ (List.forall_mem_map.mpr fun child hchild => ?_)
      · rw [Outline.Apart, List.isChain_map]
        refine (h.apart hnode).imp_of_mem_imp fun left right hleft hright happart => ?_
        rwa [(hat left hleft).1.text?_eq, (hat right hright).1.text?_eq]
      · obtain ⟨hstands, hlegible⟩ := hat child hchild
        exact ⟨h.plain_of_stands (hnode.child hchild) (h.child_ne_root hnode hchild) hstands hlegible, hlegible⟩

/-- At the document of an ordinary tree legible outlines stand, and its markup is theirs. -/
theorem exists_outlines (h : tree.Ordinary) (hbare : tree.BareLeaves) :
    ∃ outlines : List Outline, (Outline.document outlines).Stands tree root ∧ Outline.Legible outlines ∧
      tree.outerMarkup root = .ofList (markupOf outlines) := by
  obtain ⟨outline, hstands, hlegible⟩ := h.exists_outline hbare (Reaches.refl root)
  have hmarkup : tree.outerMarkup root = .ofList outline.markup := by
    rw [outerMarkup, hstands.outerWithin_eq h.wellFormed.acyclic]
  have hkind : outline.kind = .document := by
    obtain ⟨hkind, -⟩ := hstands
    exact Option.some.inj (hkind.symm.trans h.built.kind?_root)
  cases outline with
  | document outlines => exact ⟨outlines, hstands, hlegible, hmarkup⟩
  | element tag attributes outlines => cases hkind
  | text content => cases hkind
  | comment content => cases hkind

end Ordinary

/-- Ordinary trees whose texts and comments have no children are isomorphic if their documents have the same
markup. -/
theorem isomorphism_of_outerMarkup_eq (h : tree.Ordinary) (h' : tree'.Ordinary) (hbare : tree.BareLeaves)
    (hbare' : tree'.BareLeaves) (heq : tree.outerMarkup root = tree'.outerMarkup root) :
    ∃ f, tree.Isomorphism tree' root root f := by
  obtain ⟨outlines, hstands, hlegible, hmarkup⟩ := h.exists_outlines hbare
  obtain ⟨others, hstands', hlegible', hmarkup'⟩ := h'.exists_outlines hbare'
  have hsame : outlines = others := by
    apply Outline.eq_of_markupOf_eq hlegible hlegible'
    apply String.ofList_injective
    rw [← hmarkup, heq, hmarkup']
  rw [← hsame] at hstands'
  exact exists_isomorphism_of_stands h.wellFormed h'.wellFormed hstands hstands'

/-- A paragraph with a text and a break. -/
def paragraph : Tree :=
  ⟨#[⟨.document, none, [1], none, none⟩,
    ⟨.element "p" (.ofList [("id", "x"), ("class", "a\"b")]), some 0, [2, 3], none, none⟩,
    ⟨.text "1<2", some 1, [], some 3, none⟩, ⟨.element "br" .empty, some 1, [], none, some 2⟩]⟩

/-- The same paragraph, whose break is there before it and gets attached to it last. -/
def breakFirst : Tree :=
  ⟨#[⟨.document, none, [2], none, none⟩, ⟨.element "br" .empty, some 2, [], none, some 3⟩,
    ⟨.element "p" (.ofList [("class", "a\"b"), ("id", "x")]), some 0, [3, 1], none, none⟩,
    ⟨.text "1<2", some 2, [], some 1, none⟩]⟩

/-- In whichever order the paragraph is put together, it is the same tree. -/
theorem isomorphism_breakFirst : paragraph.Ordinary ∧ breakFirst.Ordinary ∧ paragraph.BareLeaves ∧
    breakFirst.BareLeaves ∧ paragraph.outerMarkup root = breakFirst.outerMarkup root ∧
    ∃ f, paragraph.Isomorphism breakFirst root root f := by
  have hpar : ReachedBy Edit.Fresh _ :=
    .edit (.appendElement 0 "p" [("id", "x"), ("class", "a\"b")]) .empty (by decide) rfl
  have htext : ReachedBy Edit.Fresh _ := .edit (.appendText 1 "1<2") hpar (by decide) rfl
  have hbreak : ReachedBy Edit.Fresh paragraph := .edit (.appendElement 1 "br" []) htext (by decide) rfl
  have hbreak' : ReachedBy Edit.Fresh _ := .edit (.alloc (.element "br" .empty)) .empty (by decide) rfl
  have hpar' : ReachedBy Edit.Fresh _ :=
    .edit (.appendElement 0 "p" [("class", "a\"b"), ("id", "x")]) hbreak' (by decide) rfl
  have htext' : ReachedBy Edit.Fresh _ := .edit (.appendText 2 "1<2") hpar' (by decide) rfl
  have hwhole' : ReachedBy Edit.Fresh breakFirst := .edit (.appendChild 2 1) htext' (by decide) rfl
  have h : paragraph.Ordinary := hbreak.ordinary (by decide) (by decide) (by decide)
  have h' : breakFirst.Ordinary := hwhole'.ordinary (by decide) (by decide) (by decide)
  have hbare : paragraph.BareLeaves := bareLeaves_of_forall (by decide)
  have hbare' : breakFirst.BareLeaves := bareLeaves_of_forall (by decide)
  have heq : paragraph.outerMarkup root = breakFirst.outerMarkup root := by decide
  exact ⟨h, h', hbare, hbare', heq, isomorphism_of_outerMarkup_eq h h' hbare hbare' heq⟩

/-- A text on its own. -/
def single : Tree :=
  ⟨#[⟨.document, none, [1], none, none⟩, ⟨.text "a", some 0, [], none, none⟩]⟩

/-- The same text with another one below it. -/
def nested : Tree :=
  ⟨#[⟨.document, none, [1], none, none⟩, ⟨.text "a", some 0, [2], none, none⟩,
    ⟨.text "b", some 1, [], none, none⟩]⟩

/-- What lies below a text makes no difference to the markup. -/
theorem exists_not_isomorphism : ¬ ∀ tree tree' : Tree, tree.Ordinary → tree'.Ordinary →
    tree.outerMarkup root = tree'.outerMarkup root → ∃ f, tree.Isomorphism tree' root root f := by
  have hsingle : ReachedBy Edit.Fresh single := .edit (.appendText 0 "a") .empty (by decide) rfl
  have hnested : ReachedBy Edit.Fresh nested := .edit (.appendText 1 "b") hsingle (by decide) rfl
  intro hall
  obtain ⟨f, hiso⟩ := hall single nested (hsingle.ordinary (by decide) (by decide) (by decide))
    (hnested.ordinary (by decide) (by decide) (by decide)) rfl
  have hroot : single.Reaches root root := Reaches.refl root
  have htop : [1] = [f 1] := by
    have hchildren := hiso.children hroot
    rw [hiso.root_eq] at hchildren
    exact hchildren
  have hchild : 1 ∈ single.children root := List.mem_cons_self
  have hbelow := hiso.children (hroot.child hchild)
  rw [← (List.cons.inj htop).1] at hbelow
  exact List.cons_ne_nil 2 [] hbelow

end Tree

end TreeQuery
