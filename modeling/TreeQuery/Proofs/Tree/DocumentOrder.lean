import TreeQuery.Proofs.Tree.Preorder

/-!
# Document order

A node comes before another in document order when the other one lies below it, or when they lie at or
below two children of one node and the child of the first stands before that of the second. This is said
by the links alone, without a list of the nodes.

Main statements: in a well-formed tree no node comes before itself, no two nodes come before each other,
and the list of the nodes below a node goes by document order.
-/

namespace TreeQuery.Tree

variable {tree : Tree}

/-- One node stands before another in the list of children of a parent. -/
def StandsBefore (tree : Tree) (parent left right : NodeId) : Prop :=
  ∃ i j : Nat, i < j ∧ (tree.children parent)[i]? = some left ∧ (tree.children parent)[j]? = some right

/-- One node comes before another in document order. -/
def Before (tree : Tree) (first second : NodeId) : Prop :=
  Relation.TransGen tree.IsChild second first ∨
    ∃ parent left right, tree.StandsBefore parent left right ∧ tree.Reaches left first ∧
      tree.Reaches right second

theorem StandsBefore.left {parent left right : NodeId} (h : tree.StandsBefore parent left right) :
    tree.IsChild left parent := by
  obtain ⟨i, j, -, hleft, -⟩ := h
  exact List.mem_of_getElem? hleft

theorem StandsBefore.right {parent left right : NodeId} (h : tree.StandsBefore parent left right) :
    tree.IsChild right parent := by
  obtain ⟨i, j, -, -, hright⟩ := h
  exact List.mem_of_getElem? hright

namespace WellFormed

/-- A node stands at one place of a list of children. -/
theorem index_unique (h : tree.WellFormed) {parent child : NodeId} {i j : Nat}
    (hi : (tree.children parent)[i]? = some child) (hj : (tree.children parent)[j]? = some child) : i = j :=
  (List.getElem?_inj (List.getElem?_eq_some_iff.mp hi).1 (h.nodup parent)).mp (hi.trans hj.symm)

/-- No two children stand before each other. -/
theorem standsBefore_asymm (h : tree.WellFormed) {parent left right : NodeId}
    (hbefore : tree.StandsBefore parent left right) : ¬ tree.StandsBefore parent right left := by
  obtain ⟨i, j, hlt, hleft, hright⟩ := hbefore
  intro hother
  obtain ⟨i', j', hlt', hright', hleft'⟩ := hother
  have hi := h.index_unique hleft hleft'
  have hj := h.index_unique hright hright'
  omega

/-- A child that stands before another one is not the other one. -/
theorem ne_of_standsBefore (h : tree.WellFormed) {parent left right : NodeId}
    (hbefore : tree.StandsBefore parent left right) : left ≠ right := by
  intro heq
  subst heq
  exact h.standsBefore_asymm hbefore hbefore

/-- Of two nodes above a third one lies at or below the other. -/
theorem reaches_total (h : tree.WellFormed) {left right node : NodeId} (hleft : tree.Reaches left node)
    (hright : tree.Reaches right node) : tree.Reaches right left ∨ tree.Reaches left right :=
  Relation.ReflTransGen.total_of_right_unique (fun _ _ _ => h.unique) hleft hright

/-- What reaches a child from outside reaches its parent. -/
theorem reaches_parent (h : tree.WellFormed) {upper child parent : NodeId}
    (hchild : tree.IsChild child parent) (hreaches : tree.Reaches upper child) (hne : child ≠ upper) :
    tree.Reaches upper parent := by
  rcases Relation.ReflTransGen.cases_head hreaches with heq | ⟨other, hother, hway⟩
  · exact absurd heq hne
  · rwa [h.unique hchild hother]

/-- Nothing lies at or below two children of one node. -/
theorem eq_of_reaches (h : tree.WellFormed) {parent left right node : NodeId}
    (hleft : tree.IsChild left parent) (hright : tree.IsChild right parent)
    (hfirst : tree.Reaches left node) (hsecond : tree.Reaches right node) : left = right := by
  wlog hreaches : tree.Reaches right left generalizing left right
  · have hother := (h.reaches_total hfirst hsecond).resolve_left hreaches
    exact (this hright hleft hsecond hfirst hother).symm
  by_contra hne
  exact h.acyclic parent (Relation.TransGen.tail' (h.reaches_parent hleft hreaches hne) hright)

/-- Two nodes have a child each above some third one. Another child of the first of them lies at or below
another child of the second only if it is that child. -/
theorem eq_of_crossing (h : tree.WellFormed) {parent parent' left right left' right' node : NodeId}
    (hleft : tree.IsChild left parent) (hright : tree.IsChild right parent)
    (hleft' : tree.IsChild left' parent') (hright' : tree.IsChild right' parent') (hne : left' ≠ right')
    (hreaches : tree.Reaches left' left) (hnode : tree.Reaches right node)
    (hnode' : tree.Reaches right' node) : left = left' := by
  by_contra hother
  -- otherwise all children of the first of them would lie below that child of the second
  have hparent := h.reaches_parent hleft hreaches hother
  exact hne (h.eq_of_reaches hleft' hright' (hnode.trans (hparent.child hright)) hnode')

/-- No two nodes come before each other. -/
theorem before_asymm (h : tree.WellFormed) {first second : NodeId} (hbefore : tree.Before first second) :
    ¬ tree.Before second first := by
  -- a node below two different children of one node
  have hbelow : ∀ {upper lower}, Relation.TransGen tree.IsChild lower upper → ∀ {parent left right},
      left ≠ right → tree.IsChild left parent → tree.IsChild right parent →
      tree.Reaches left lower → ¬ tree.Reaches right upper := by
    intro upper lower hway parent left right hne hleft hright hlower hupper
    exact hne (h.eq_of_reaches hleft hright hlower (hway.to_reflTransGen.trans hupper))
  intro hother
  rcases hbefore with hway | ⟨parent, left, right, hstands, hfirst, hsecond⟩ <;>
    rcases hother with hway' | ⟨parent', left', right', hstands', hsecond', hfirst'⟩
  · exact h.acyclic first (hway'.trans hway)
  · exact hbelow hway (h.ne_of_standsBefore hstands') hstands'.left hstands'.right hsecond' hfirst'
  · exact hbelow hway' (h.ne_of_standsBefore hstands) hstands.left hstands.right hfirst hsecond
  · have hne := h.ne_of_standsBefore hstands
    have hne' := h.ne_of_standsBefore hstands'
    have hsame : left = right' := by
      rcases h.reaches_total hfirst hfirst' with hreaches | hreaches
      · exact h.eq_of_crossing hstands.left hstands.right hstands'.right hstands'.left hne'.symm hreaches
          hsecond hsecond'
      · exact (h.eq_of_crossing hstands'.right hstands'.left hstands.left hstands.right hne hreaches
          hsecond' hsecond).symm
    subst hsame
    obtain rfl := h.unique hstands.left hstands'.right
    obtain rfl := h.eq_of_reaches hstands.right hstands'.left hsecond hsecond'
    exact h.standsBefore_asymm hstands hstands'

/-- No node comes before itself. -/
theorem before_irrefl (h : tree.WellFormed) (node : NodeId) : ¬ tree.Before node node := fun hbefore =>
  h.before_asymm hbefore hbefore

end WellFormed

/-- A node and the nodes below it are listed in document order. -/
theorem Acyclic.pairwise_before_cons (h : tree.Acyclic) (depth : Option Nat) (node : NodeId) :
    (node :: h.descendants depth node).Pairwise tree.Before := by
  have hreaches : ∀ {depth child lower}, lower ∈ child :: h.descendants depth child →
      tree.Reaches child lower := by
    intro depth child lower hmem
    rcases List.mem_cons.mp hmem with rfl | hmem
    · exact Reaches.refl lower
    · obtain ⟨count, -, -, path⟩ := h.mem_descendants.mp hmem
      exact path.reflTransGen
  induction node using h.wellFounded.induction generalizing depth with
  | h node ih =>
    refine List.pairwise_cons.mpr ⟨fun lower hlower => Or.inl ?_, ?_⟩
    · obtain ⟨count, hpos, -, path⟩ := h.mem_descendants.mp hlower
      exact transGen_iff_below.mpr ⟨count, hpos, path⟩
    · rw [h.descendants_eq]
      split
      · exact List.Pairwise.nil
      · refine List.pairwise_flatMap.mpr ⟨fun child hchild => ih child hchild _, ?_⟩
        rw [List.pairwise_iff_getElem]
        intro i j hi hj hlt first hfirst second hsecond
        exact Or.inr ⟨node, _, _, ⟨i, j, hlt, List.getElem?_eq_getElem hi, List.getElem?_eq_getElem hj⟩,
          hreaches hfirst, hreaches hsecond⟩

/-- The nodes below a node are listed in document order. -/
theorem Acyclic.pairwise_before (h : tree.Acyclic) (depth : Option Nat) (node : NodeId) :
    (h.descendants depth node).Pairwise tree.Before := (h.pairwise_before_cons depth node).of_cons

/-- The places below a root go by document order. -/
theorem WellFormed.precedes_iff_before (h : tree.WellFormed) {root left right : NodeId}
    (hleft : left ∈ h.acyclic.descendants none root) (hright : right ∈ h.acyclic.descendants none root) :
    h.acyclic.Precedes root left right ↔ tree.Before left right := by
  have hbefore : ∀ {first second}, first ∈ h.acyclic.descendants none root →
      second ∈ h.acyclic.descendants none root → h.acyclic.Precedes root first second →
      tree.Before first second := by
    intro first second hfirst hsecond hlt
    have hpair := List.pairwise_iff_getElem.mp (h.acyclic.pairwise_before none root) _ _
      (List.idxOf_lt_length_of_mem hfirst) (List.idxOf_lt_length_of_mem hsecond) hlt
    rwa [List.getElem_idxOf, List.getElem_idxOf] at hpair
  refine ⟨hbefore hleft hright, fun hlr => ?_⟩
  by_contra hnot
  rcases Nat.lt_or_eq_of_le (Nat.le_of_not_lt hnot) with hgt | heq
  · exact h.before_asymm hlr (hbefore hright hleft hgt)
  · obtain rfl := (List.idxOf_inj hright).mp heq
    exact h.before_irrefl _ hlr

end TreeQuery.Tree
