import TreeQuery.Proofs.Tree.Links
import TreeQuery.Proofs.Tree.Preorder

/-!
# Links that agree

The links of a tree are redundant: the parent of a node and its neighbours repeat what the lists of
children say. They agree when a node has a parent exactly if it stands in the list of that parent, has
the neighbours that it has in that list, and has no neighbours without a parent. Where in addition
nothing lies below itself the ancestors of a node are a finite chain without repetitions.

Main statement: allocation keeps the links in agreement, and so does attaching a node that has no
parent yet to a node that is neither it nor below it.
-/

namespace TreeQuery.Tree

variable {tree : Tree}

/-- The parent and the neighbours of every node agree with the lists of children, the document has no
parent, and no node lies below itself. -/
structure Linked (tree : Tree) : Prop where
  root_lt : root < tree.size
  parent_root : tree.parent root = none
  isChild_iff : ∀ {child parent}, tree.IsChild child parent ↔ tree.parent child = some parent
  nodup : ∀ parent, (tree.children parent).Nodup
  siblings : ∀ {parent node before behind}, tree.children parent = before ++ node :: behind →
    tree.previousSibling node = before.getLast? ∧ tree.nextSibling node = behind.head?
  detached : ∀ {node}, tree.parent node = none →
    tree.previousSibling node = none ∧ tree.nextSibling node = none
  acyclic : tree.Acyclic

/-- The arena that holds the document alone has no links. -/
theorem linked_empty : Linked empty := by
  have hchildren : ∀ node, empty.children node = [] := by
    intro node
    cases node <;> rfl
  have hnone : ∀ node, empty.parent node = none ∧ empty.previousSibling node = none ∧
      empty.nextSibling node = none := by
    intro node
    cases node <;> exact ⟨rfl, rfl, rfl⟩
  refine ⟨Nat.one_pos, rfl, ?_, ?_, ?_, fun _ => (hnone _).2, ?_⟩
  · intro child parent
    simp [IsChild, hchildren, hnone]
  · intro parent
    rw [hchildren]
    exact List.nodup_nil
  · intro parent node before behind h
    simp [hchildren] at h
  · apply acyclic_of_ascending
    intro parent _ child hchild
    simp [hchildren] at hchild

/-- A node with a parent stands in the arena. -/
theorem lt_size_of_parent {node parent : NodeId} (h : tree.parent node = some parent) :
    node < tree.size := by
  by_contra hout
  have hnone : tree.get? node = none := Array.getElem?_eq_none (Nat.le_of_not_lt hout)
  simp [Tree.parent, hnone] at h

/-- Attaching adds one step, from the child to its parent. -/
theorem isChild_attach_iff {parent child : NodeId} (hparent : parent < tree.size) {lower upper : NodeId} :
    (tree.attach parent child).IsChild lower upper ↔
      tree.IsChild lower upper ∨ lower = child ∧ upper = parent := by
  rw [IsChild, children_attach hparent]
  by_cases hupper : upper = parent
  · subst hupper
    simp [IsChild]
  · simp [IsChild, hupper]

/-- Attaching a node to one that is neither it nor below it makes no cycle: a way up that takes the new
step comes from below the child and goes on above the parent. -/
theorem Acyclic.attach (h : tree.Acyclic) {parent child : NodeId} (hparent : parent < tree.size)
    (hbelow : ¬ Relation.ReflTransGen tree.IsChild parent child) : (tree.attach parent child).Acyclic := by
  have hways : ∀ {lower upper}, Relation.TransGen (tree.attach parent child).IsChild lower upper →
      Relation.TransGen tree.IsChild lower upper ∨
        Relation.ReflTransGen tree.IsChild lower child ∧
          Relation.ReflTransGen tree.IsChild parent upper := by
    intro lower upper hway
    induction hway with
    | single hstep =>
      cases (isChild_attach_iff hparent).mp hstep with
      | inl hold => exact Or.inl (.single hold)
      | inr hnew =>
        obtain ⟨rfl, rfl⟩ := hnew
        exact Or.inr ⟨.refl, .refl⟩
    | tail _ hstep ih =>
      cases (isChild_attach_iff hparent).mp hstep with
      | inl hold =>
        cases ih with
        | inl hway => exact Or.inl (hway.tail hold)
        | inr hways => exact Or.inr ⟨hways.1, hways.2.tail hold⟩
      | inr hnew =>
        obtain ⟨rfl, rfl⟩ := hnew
        cases ih with
        | inl hway => exact Or.inr ⟨hway.to_reflTransGen, .refl⟩
        | inr hways => exact absurd hways.2 hbelow
  intro node hcycle
  cases hways hcycle with
  | inl hway => exact h node hway
  | inr hways => exact hbelow (hways.2.trans hways.1)

/-- A child with others behind it is not the last. -/
theorem getLast?_ne_of_split {before behind children : List NodeId} {node next : NodeId}
    (hnodup : children.Nodup) (hsplit : children = before ++ node :: next :: behind) :
    children.getLast? ≠ some node := by
  intro hlast
  have hne : next :: behind ≠ [] := List.cons_ne_nil next behind
  rw [hsplit, List.append_cons, List.getLast?_append_of_ne_nil _ hne] at hlast
  rw [hsplit, List.nodup_append] at hnodup
  exact (List.nodup_cons.mp hnodup.2.1).1 (List.mem_of_getLast? hlast)

namespace Linked

/-- Agreement is a matter of the links alone. -/
theorem of_links {after : Tree} (h : Linked tree) (hroot : root < after.size)
    (hchildren : ∀ node, after.children node = tree.children node)
    (hparent : ∀ node, after.parent node = tree.parent node)
    (hprevious : ∀ node, after.previousSibling node = tree.previousSibling node)
    (hnext : ∀ node, after.nextSibling node = tree.nextSibling node) : Linked after := by
  have hstep : after.IsChild = tree.IsChild := by
    funext child parent
    rw [IsChild, IsChild, hchildren]
  refine ⟨hroot, ?_, ?_, ?_, ?_, ?_, ?_⟩
  · rw [hparent, h.parent_root]
  · intro child parent
    rw [hstep, hparent]
    exact h.isChild_iff
  · intro parent
    rw [hchildren]
    exact h.nodup parent
  · intro parent node before behind hsplit
    rw [hchildren] at hsplit
    rw [hprevious, hnext]
    exact h.siblings hsplit
  · intro node hnone
    rw [hparent] at hnone
    rw [hprevious, hnext]
    exact h.detached hnone
  · rw [Acyclic, hstep]
    exact h.acyclic

/-- Allocation keeps the links in agreement. -/
theorem alloc (h : Linked tree) (kind : NodeKind) : Linked (tree.alloc kind).1 := by
  have hroot : root < (tree.alloc kind).1.size := by
    rw [size_alloc]
    exact Nat.lt_succ_of_lt h.root_lt
  exact h.of_links hroot (tree.children_alloc kind) (tree.parent_alloc kind)
    (tree.previousSibling_alloc kind) (tree.nextSibling_alloc kind)

/-- Links in agreement make a well-formed tree. -/
theorem wellFormed (h : Linked tree) : tree.WellFormed where
  acyclic := h.acyclic
  nodup := h.nodup
  unique := by
    intro child first second hfirst hsecond
    exact Option.some.inj ((h.isChild_iff.mp hfirst).symm.trans (h.isChild_iff.mp hsecond))

/-- A child stands in the arena. -/
theorem lt_size_of_mem (h : Linked tree) {child parent : NodeId} (hchild : child ∈ tree.children parent) :
    child < tree.size := lt_size_of_parent (h.isChild_iff.mp hchild)

/-- A node without a parent stands in no list of children. -/
theorem not_mem_children (h : Linked tree) {node : NodeId} (hfree : tree.parent node = none)
    (upper : NodeId) : node ∉ tree.children upper := by
  intro hmem
  simp [h.isChild_iff.mp hmem] at hfree

/-- Attaching a node without a parent keeps the neighbours of every child. The new child has the one
that was the last before it, that one has the new child behind it, and no other neighbour changes. -/
theorem siblings_attach (h : Linked tree) {parent child : NodeId} (hparent : parent < tree.size)
    (hchild : child < tree.size) (hfree : tree.parent child = none) {upper node : NodeId}
    {before behind : List NodeId}
    (hsplit : (tree.attach parent child).children upper = before ++ node :: behind) :
    (tree.attach parent child).previousSibling node = before.getLast? ∧
      (tree.attach parent child).nextSibling node = behind.head? := by
  have hlast : ∀ last ∈ (tree.children parent).getLast?, last < tree.size :=
    fun last hmem => h.lt_size_of_mem (List.mem_of_getLast? hmem)
  rw [previousSibling_attach hchild, nextSibling_attach hlast]
  rw [children_attach hparent] at hsplit
  by_cases hupper : upper = parent
  · subst hupper
    rw [if_pos rfl] at hsplit
    rcases behind.eq_nil_or_concat with rfl | ⟨between, last, rfl⟩
    · -- the new child itself, behind all others
      obtain ⟨rfl, hnode⟩ := List.append_inj' hsplit rfl
      obtain rfl := List.singleton_inj.mp hnode
      obtain ⟨hprevious, hnext⟩ := h.detached hfree
      have hother : (tree.children upper).getLast? ≠ some child :=
        fun hmem => h.not_mem_children hfree upper (List.mem_of_getLast? hmem)
      rw [if_pos rfl, if_neg hother, hprevious, hnext, Option.or_none]
      exact ⟨rfl, rfl⟩
    · -- an old child of the new parent, beside the same nodes as before or right before the new child
      rw [List.concat_eq_append, ← List.cons_append, ← List.append_assoc] at hsplit
      obtain ⟨hold, hnew⟩ := List.append_inj' hsplit rfl
      obtain rfl := List.singleton_inj.mp hnew
      have hnode : node ≠ child := by
        intro heq
        subst heq
        exact h.not_mem_children hfree upper (by simp [hold])
      obtain ⟨hprevious, hnext⟩ := h.siblings hold
      rw [if_neg hnode, hprevious]
      refine ⟨rfl, ?_⟩
      cases between with
      | nil =>
        rw [if_pos (by simp [hold])]
        rfl
      | cons next between =>
        rw [if_neg (getLast?_ne_of_split (h.nodup upper) hold), hnext]
        rfl
  · -- a child of another node, whose list has not changed
    rw [if_neg hupper, List.append_nil] at hsplit
    have hmem : tree.IsChild node upper := by simp [IsChild, hsplit]
    have hnode : node ≠ child := by
      intro heq
      subst heq
      exact h.not_mem_children hfree upper hmem
    have hother : (tree.children parent).getLast? ≠ some node :=
      fun hmem' => hupper (h.wellFormed.unique hmem (List.mem_of_getLast? hmem'))
    rw [if_neg hnode, if_neg hother]
    exact h.siblings hsplit

/-- Attaching a node without a parent keeps the links in agreement, unless the new parent lies below it. -/
theorem attach (h : Linked tree) {parent child : NodeId} (hparent : parent < tree.size)
    (hchild : child < tree.size) (hroot : child ≠ root) (hfree : tree.parent child = none)
    (hbelow : ¬ Relation.ReflTransGen tree.IsChild parent child) : Linked (tree.attach parent child) := by
  have hlast : ∀ last ∈ (tree.children parent).getLast?, last < tree.size :=
    fun last hmem => h.lt_size_of_mem (List.mem_of_getLast? hmem)
  refine ⟨?_, ?_, ?_, ?_, ?_, ?_, h.acyclic.attach hparent hbelow⟩
  · rw [Tree.attach, size_link]
    exact h.root_lt
  · rw [parent_attach hchild, if_neg hroot.symm]
    exact h.parent_root
  · intro lower upper
    rw [isChild_attach_iff hparent, parent_attach hchild, h.isChild_iff]
    by_cases hlower : lower = child
    · subst hlower
      simp [hfree, eq_comm]
    · simp [hlower]
  · intro upper
    rw [children_attach hparent]
    split
    · exact (h.nodup upper).append (List.nodup_singleton child)
        (List.disjoint_singleton.mpr (h.not_mem_children hfree upper))
    · rw [List.append_nil]
      exact h.nodup upper
  · exact h.siblings_attach hparent hchild hfree
  · intro node hnone
    have hnode : node ≠ child := by
      intro heq
      subst heq
      simp [parent_attach hchild] at hnone
    rw [parent_attach hchild, if_neg hnode] at hnone
    have hother : (tree.children parent).getLast? ≠ some node := by
      intro hmem
      simp [h.isChild_iff.mp (List.mem_of_getLast? hmem)] at hnone
    rw [previousSibling_attach hchild, nextSibling_attach hlast, if_neg hnode, if_neg hother]
    exact h.detached hnone

end Linked

end TreeQuery.Tree
