import TreeQuery.Proofs.Tree.Linked

/-!
# The ancestors of a node

Going up from a node passes each of the nodes that it lies below, once, and ends at one without a
parent. As nothing is passed twice there are fewer steps than nodes in the arena, so the limit that
the list of ancestors is taken with leaves none of them out.

Main statements: the ancestors of a node are the nodes that it lies below, without repetition, and
the last of them is the document exactly when the node lies below the document.
-/

namespace TreeQuery.Tree

variable {tree : Tree}

/-- Without a parent there is no step up. -/
theorem ancestorsUpTo_of_parent_none {node : NodeId} (limit : Nat) (hnone : tree.parent node = none) :
    tree.ancestorsUpTo limit node = [] := by
  cases limit with
  | zero => rfl
  | succ limit => rw [ancestorsUpTo, hnone]

/-- A list of ancestors that does not reach its limit is the same for every larger limit. -/
theorem ancestorsUpTo_of_length_lt {limit more : Nat} {node : NodeId}
    (hlt : (tree.ancestorsUpTo limit node).length < limit) (hle : limit ≤ more) :
    tree.ancestorsUpTo more node = tree.ancestorsUpTo limit node := by
  induction limit generalizing more node with
  | zero => exact absurd hlt (Nat.not_lt_zero _)
  | succ limit ih =>
    obtain ⟨more, rfl⟩ := Nat.exists_eq_add_of_le' hle
    rw [← Nat.add_assoc, ancestorsUpTo, ancestorsUpTo]
    rw [ancestorsUpTo] at hlt
    cases hparent : tree.parent node with
    | none => rfl
    | some parent =>
      simp only [hparent, List.length_cons] at hlt
      simp only
      rw [ih (Nat.lt_of_succ_lt_succ hlt) (Nat.le_add_left limit more)]

namespace Linked

/-- Every step up leads to a node that lies above. -/
theorem transGen_of_mem_ancestorsUpTo (h : Linked tree) {limit : Nat} {node upper : NodeId}
    (hmem : upper ∈ tree.ancestorsUpTo limit node) : Relation.TransGen tree.IsChild node upper := by
  induction limit generalizing node with
  | zero => simp [ancestorsUpTo] at hmem
  | succ limit ih =>
    rw [ancestorsUpTo] at hmem
    cases hparent : tree.parent node with
    | none => simp [hparent] at hmem
    | some parent =>
      simp only [hparent, List.mem_cons] at hmem
      have hstep := h.isChild_iff.mpr hparent
      rcases hmem with rfl | hmem
      · exact .single hstep
      · exact .head hstep (ih hmem)

/-- Going up passes no node twice. -/
theorem nodup_ancestorsUpTo (h : Linked tree) (limit : Nat) (node : NodeId) :
    (tree.ancestorsUpTo limit node).Nodup := by
  induction limit generalizing node with
  | zero => exact List.nodup_nil
  | succ limit ih =>
    rw [ancestorsUpTo]
    cases tree.parent node with
    | none => exact List.nodup_nil
    | some parent =>
      refine List.nodup_cons.mpr ⟨fun hmem => ?_, ih parent⟩
      exact h.acyclic parent (h.transGen_of_mem_ancestorsUpTo hmem)

/-- Going up takes fewer steps than the arena has nodes. -/
theorem length_ancestorsUpTo_lt (h : Linked tree) (limit : Nat) (node : NodeId) :
    (tree.ancestorsUpTo limit node).length < tree.size := by
  by_cases hin : node < tree.size
  · have hnodup : (node :: tree.ancestorsUpTo limit node).Nodup := by
      refine List.nodup_cons.mpr ⟨fun hmem => ?_, h.nodup_ancestorsUpTo limit node⟩
      exact h.acyclic node (h.transGen_of_mem_ancestorsUpTo hmem)
    have hsub : node :: tree.ancestorsUpTo limit node ⊆ List.range tree.size := by
      intro upper hmem
      rw [List.mem_range]
      rcases List.mem_cons.mp hmem with rfl | hmem
      · exact hin
      · obtain ⟨_, -, hstep⟩ := Relation.TransGen.tail'_iff.mp (h.transGen_of_mem_ancestorsUpTo hmem)
        exact lt_size_of_isChild hstep
    have hle := (hnodup.subperm hsub).length_le
    rw [List.length_cons, List.length_range] at hle
    exact hle
  · have hnone : tree.parent node = none := by
      by_contra hsome
      obtain ⟨parent, hparent⟩ := Option.ne_none_iff_exists'.mp hsome
      exact hin (lt_size_of_parent hparent)
    rw [ancestorsUpTo_of_parent_none limit hnone]
    exact Nat.zero_lt_of_lt h.root_lt

/-- The ancestors are all there: a larger limit finds no more of them. -/
theorem ancestorsUpTo_eq (h : Linked tree) {limit : Nat} (hle : tree.size ≤ limit) (node : NodeId) :
    tree.ancestorsUpTo limit node = tree.ancestors node :=
  ancestorsUpTo_of_length_lt (h.length_ancestorsUpTo_lt tree.size node) hle

/-- A node without a parent has no ancestors. -/
theorem ancestors_of_parent_none {node : NodeId} (hnone : tree.parent node = none) :
    tree.ancestors node = [] := ancestorsUpTo_of_parent_none tree.size hnone

/-- The ancestors of a child are its parent and the ancestors of that. -/
theorem ancestors_of_isChild (h : Linked tree) {node parent : NodeId} (hstep : tree.IsChild node parent) :
    tree.ancestors node = parent :: tree.ancestors parent := by
  rw [← h.ancestorsUpTo_eq (Nat.le_succ tree.size), ancestorsUpTo, h.isChild_iff.mp hstep]
  rfl

/-- The ancestors of a node are the nodes that it lies below. -/
theorem mem_ancestors_iff (h : Linked tree) {node upper : NodeId} :
    upper ∈ tree.ancestors node ↔ Relation.TransGen tree.IsChild node upper := by
  constructor
  · exact h.transGen_of_mem_ancestorsUpTo
  · intro hway
    induction hway using Relation.TransGen.head_induction_on with
    | single hstep =>
      rw [h.ancestors_of_isChild hstep]
      exact List.mem_cons_self
    | head hstep _ ih =>
      rw [h.ancestors_of_isChild hstep]
      exact List.mem_cons_of_mem _ ih

/-- The place of an ancestor is the number of steps on the path that leads down from it. -/
theorem getElem?_ancestors_iff (h : Linked tree) {i : Nat} {node upper : NodeId} :
    (tree.ancestors node)[i]? = some upper ↔ tree.Below (i + 1) upper node := by
  induction i generalizing node with
  | zero =>
    rw [below_succ_iff]
    cases hparent : tree.parent node with
    | none => simp [ancestors_of_parent_none hparent, h.isChild_iff, hparent]
    | some parent =>
      simp [h.ancestors_of_isChild (h.isChild_iff.mpr hparent), h.isChild_iff, hparent, below_zero_iff]
  | succ i ih =>
    rw [below_succ_iff]
    cases hparent : tree.parent node with
    | none => simp [ancestors_of_parent_none hparent, h.isChild_iff, hparent]
    | some parent =>
      simp [h.ancestors_of_isChild (h.isChild_iff.mpr hparent), h.isChild_iff, hparent, ih]

/-- A node has an ancestor at one place only. -/
theorem idxOf_ancestors (h : Linked tree) {position : Nat} {node upper : NodeId}
    (hposition : (tree.ancestors node)[position]? = some upper) :
    (tree.ancestors node).idxOf upper = position := by
  obtain ⟨hlt, rfl⟩ := List.getElem?_eq_some_iff.mp hposition
  exact (h.nodup_ancestorsUpTo tree.size node).idxOf_getElem position hlt

/-- The last ancestor of a node is the document exactly when the node lies below the document. -/
theorem getLast?_ancestors_eq_root_iff (h : Linked tree) {node : NodeId} :
    (tree.ancestors node).getLast? = some root ↔ Relation.TransGen tree.IsChild node root := by
  constructor
  · intro hlast
    exact h.mem_ancestors_iff.mp (List.mem_of_getLast? hlast)
  · intro hway
    induction hway using Relation.TransGen.head_induction_on with
    | single hstep =>
      rw [h.ancestors_of_isChild hstep, ancestors_of_parent_none h.parent_root]
      rfl
    | head hstep _ ih =>
      rw [h.ancestors_of_isChild hstep, List.getLast?_cons, ih]
      rfl

end Linked

end TreeQuery.Tree
