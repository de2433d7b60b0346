import TreeQuery.Proofs.Outline.Markup
import TreeQuery.Proofs.Tree.DocumentOrder

/-!
# Trees with the same outline

Where one outline stands at places of two trees, the nodes at and below these places are paired off: the
two places with each other, and below every pair the children with the same number. In well-formed trees
every node there is in one pair, so the pairs make up a one-to-one map.

Main statement: two parts of well-formed trees at which the same outline stands are isomorphic.
-/

namespace TreeQuery.Tree

variable {tree tree' : Tree} {root root' : NodeId}

/-- The nodes below two roots are paired off by their numbers among the children of pairs. -/
inductive Paired (tree tree' : Tree) (root root' : NodeId) : NodeId → NodeId → Prop
  | root : Paired tree tree' root root' root root'
  | child {node node' child child' : NodeId} {i : Nat} (above : Paired tree tree' root root' node node')
      (here : (tree.children node)[i]? = some child) (there : (tree'.children node')[i]? = some child') :
      Paired tree tree' root root' child child'

/-- What lists have in common member by member their members with the same number have. -/
theorem forall₂_getElem? {α β : Type} {R : α → β → Prop} {list : List α} {list' : List β}
    (h : List.Forall₂ R list list') {i : Nat} {a : α} {b : β} (ha : list[i]? = some a)
    (hb : list'[i]? = some b) : R a b := by
  obtain ⟨hi, rfl⟩ := List.getElem?_eq_some_iff.mp ha
  obtain ⟨hi', rfl⟩ := List.getElem?_eq_some_iff.mp hb
  exact h.get hi hi'

/-- Where the same outline stands at two nodes they have the same kind, as many children, and outlines that
stand at children with the same number. -/
theorem alike_of_stands {outline : Outline} {node node' : NodeId} (h : outline.Stands tree node)
    (h' : outline.Stands tree' node') : tree'.kind? node' = tree.kind? node ∧
      (tree'.children node').length = (tree.children node).length ∧
      ∀ (i : Nat) child child', (tree.children node)[i]? = some child → (tree'.children node')[i]? = some child' →
        ∃ inner : Outline, inner.Stands tree child ∧ inner.Stands tree' child' := by
  obtain ⟨hkind, hchildren⟩ := h
  obtain ⟨hkind', hchildren'⟩ := h'
  refine ⟨hkind'.trans hkind.symm, hchildren'.length_eq.symm.trans hchildren.length_eq, ?_⟩
  intro i child child' hhere hthere
  have hi : i < outline.children.length := by
    rw [hchildren.length_eq]
    exact (List.getElem?_eq_some_iff.mp hhere).1
  have hinner := List.getElem?_eq_getElem hi
  exact ⟨_, forall₂_getElem? hchildren hinner hhere, forall₂_getElem? hchildren' hinner hthere⟩

namespace Paired

variable {node node' : NodeId}

/-- A pair is one the other way round, too. -/
theorem symm (h : Paired tree tree' root root' node node') : Paired tree' tree root' root node' node := by
  induction h with
  | root => exact .root
  | child _ here there ih => exact .child ih there here

/-- What is paired lies at or below the root. -/
theorem reaches (h : Paired tree tree' root root' node node') : tree.Reaches root node := by
  induction h with
  | root => exact Reaches.refl root
  | child _ here _ ih => exact ih.child (List.mem_of_getElem? here)

/-- The root is the child of no paired node. -/
theorem not_child_root (hacyclic : tree.Acyclic) (h : Paired tree tree' root root' node node') (i : Nat) :
    (tree.children node)[i]? ≠ some root := fun hchild =>
  hacyclic root (Relation.TransGen.head' (List.mem_of_getElem? hchild) h.reaches)

/-- A node of a well-formed tree is in one pair. -/
theorem unique (hwell : tree.WellFormed) {other : NodeId} (h : Paired tree tree' root root' node node')
    (h' : Paired tree tree' root root' node other) : node' = other := by
  induction h generalizing other with
  | root =>
    cases h' with
    | root => rfl
    | child above here there => exact absurd here (above.not_child_root hwell.acyclic _)
  | child above here there ih =>
    cases h' with
    | root => exact absurd here (above.not_child_root hwell.acyclic _)
    | child above' here' there' =>
      obtain rfl := hwell.unique (List.mem_of_getElem? here) (List.mem_of_getElem? here')
      obtain rfl := hwell.index_unique here here'
      rw [ih above'] at there
      exact Option.some.inj (there.symm.trans there')

variable {outline : Outline}

/-- Where the same outline stands at both roots, some outline stands at both nodes of a pair. -/
theorem exists_stands (hroot : outline.Stands tree root) (hroot' : outline.Stands tree' root')
    (h : Paired tree tree' root root' node node') :
    ∃ inner : Outline, inner.Stands tree node ∧ inner.Stands tree' node' := by
  induction h with
  | root => exact ⟨outline, hroot, hroot'⟩
  | child above here there ih =>
    obtain ⟨inner, hinner, hinner'⟩ := ih
    exact (alike_of_stands hinner hinner').2.2 _ _ _ here there

/-- Where the same outline stands at both roots, every node at or below the root is in a pair. -/
theorem exists_paired (hroot : outline.Stands tree root) (hroot' : outline.Stands tree' root')
    (h : tree.Reaches root node) : ∃ node', Paired tree tree' root root' node node' := by
  induction h using Relation.ReflTransGen.head_induction_on with
  | refl => exact ⟨root', .root⟩
  | head hchild _ ih =>
    obtain ⟨upper', hpaired⟩ := ih
    obtain ⟨inner, hinner, hinner'⟩ := hpaired.exists_stands hroot hroot'
    obtain ⟨i, hi⟩ := List.mem_iff_getElem?.mp hchild
    have hlt := (List.getElem?_eq_some_iff.mp hi).1
    rw [← (alike_of_stands hinner hinner').2.1] at hlt
    exact ⟨_, .child hpaired hi (List.getElem?_eq_getElem hlt)⟩

variable {f : NodeId → NodeId}

/-- A map that follows the pairs carries everything over. -/
theorem carries (hwell : tree.WellFormed) (hroot : outline.Stands tree root)
    (hroot' : outline.Stands tree' root')
    (hf : ∀ node, tree.Reaches root node → Paired tree tree' root root' node (f node)) :
    tree.Carries tree' root f := by
  constructor
  · intro node hnode
    obtain ⟨inner, hinner, hinner'⟩ := (hf node hnode).exists_stands hroot hroot'
    rw [(alike_of_stands hinner hinner').1]
    exact NodeKind.rel_refl _
  · intro node hnode
    obtain ⟨inner, hinner, hinner'⟩ := (hf node hnode).exists_stands hroot hroot'
    have hlength := (alike_of_stands hinner hinner').2.1
    refine List.ext_getElem (by rw [List.length_map, hlength]) fun i hi hi' => ?_
    rw [List.getElem_map]
    have hi : i < (tree.children node).length := hlength ▸ hi
    have hchild : tree.Reaches root (tree.children node)[i] := hnode.child (List.getElem_mem hi)
    exact (Paired.child (hf node hnode) (List.getElem?_eq_getElem hi)
      (List.getElem?_eq_getElem _)).unique hwell (hf _ hchild)

/-- A map that follows the pairs is one-to-one and leaves nothing out. -/
theorem bijOn (hwell : tree.WellFormed) (hwell' : tree'.WellFormed) (hroot : outline.Stands tree root)
    (hroot' : outline.Stands tree' root')
    (hf : ∀ node, tree.Reaches root node → Paired tree tree' root root' node (f node)) :
    Set.BijOn f {node | tree.Reaches root node} {node | tree'.Reaches root' node} := by
  refine ⟨fun node hnode => (hf node hnode).symm.reaches, ?_, ?_⟩
  · intro node hnode other hother heq
    have hsame := hf other hother
    rw [← heq] at hsame
    exact (hf node hnode).symm.unique hwell' hsame.symm
  · intro place hplace
    obtain ⟨node, hpaired⟩ := exists_paired hroot' hroot hplace
    exact ⟨node, hpaired.symm.reaches, (hf node hpaired.symm.reaches).unique hwell hpaired.symm⟩

end Paired

/-- Two parts of well-formed trees at which the same outline stands are isomorphic. -/
theorem exists_isomorphism_of_stands (hwell : tree.WellFormed) (hwell' : tree'.WellFormed)
    {outline : Outline} (hroot : outline.Stands tree root) (hroot' : outline.Stands tree' root') :
    ∃ f, tree.Isomorphism tree' root root' f := by
  have htotal : ∀ node, ∃ place, tree.Reaches root node → Paired tree tree' root root' node place := by
    intro node
    by_cases hnode : tree.Reaches root node
    · obtain ⟨place, hpaired⟩ := Paired.exists_paired hroot hroot' hnode
      exact ⟨place, fun _ => hpaired⟩
    · exact ⟨root', fun hreaches => absurd hreaches hnode⟩
  choose f hf using htotal
  exact ⟨f, Paired.carries hwell hroot hroot' hf, Paired.bijOn hwell hwell' hroot hroot' hf,
    (hf root (Reaches.refl root)).unique hwell .root⟩

end TreeQuery.Tree
