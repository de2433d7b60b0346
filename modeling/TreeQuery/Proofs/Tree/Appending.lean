import TreeQuery.Proofs.Tree.Edits

/-!
# Nodes that are appended again

A call may append a node that has a parent already, to give it a new place. Appending writes the new
place and leaves the old one as it is: the list of the old parent keeps the node, and so do the
neighbours that it had there. What the links of a tree say is therefore a matter of all the appends
that were ever made, each written down as the parent and the child that it names.

Main statement: the list of a node has all children that were ever appended to it, in that order, the
parent of a node is the last one that it was appended to, and the links are in order exactly if no
node was appended twice.
-/

namespace TreeQuery.Tree

/-- A call in the arena whose child, where it appends one that is there, is neither the document nor the
new parent nor an ancestor of it. It may have a parent. -/
def Edit.Moving (tree : Tree) : Edit → Prop
  | .appendChild parent child => parent < tree.size ∧ child < tree.size ∧ child ≠ root ∧
      child ≠ parent ∧ child ∉ tree.ancestors parent
  | edit => edit.InArena tree

/-- The append that a call makes, if any: the parent and the child. -/
def Edit.appends (tree : Tree) : Edit → List (NodeId × NodeId)
  | .alloc _ => []
  | .appendElement parent _ _ => [(parent, tree.size)]
  | .appendText parent _ => [(parent, tree.size)]
  | .appendComment parent _ => [(parent, tree.size)]
  | .appendChild parent child => [(parent, child)]

/-- The trees that are put together by allowed calls, each with all appends that were made, in order. -/
inductive History (allowed : Tree → Edit → Prop) : List (NodeId × NodeId) → Tree → Prop
  | empty : History allowed [] .empty
  | edit {made : List (NodeId × NodeId)} {tree after : Tree} (edit : Edit)
      (earlier : History allowed made tree) (hallowed : allowed tree edit)
      (hedit : tree.edit edit = .ok after) : History allowed (made ++ edit.appends tree) after

/-- The children that were appended to a node. -/
def childrenIn (made : List (NodeId × NodeId)) (node : NodeId) : List NodeId :=
  (made.filter (·.1 = node)).map Prod.snd

/-- The parents that a node was appended to. -/
def parentsIn (made : List (NodeId × NodeId)) (node : NodeId) : List NodeId :=
  (made.filter (·.2 = node)).map Prod.fst

/-- The lists of children have every node at most once, in the list of its parent, and its neighbours
are the ones that stand beside it there. -/
structure Orderly (tree : Tree) : Prop where
  nodup_children : ((List.range tree.size).flatMap tree.children).Nodup
  mem_children_iff : ∀ child parent, child ∈ tree.children parent ↔ tree.parent child = some parent
  siblings : ∀ parent node before behind, tree.children parent = before ++ node :: behind →
    tree.previousSibling node = before.getLast? ∧ tree.nextSibling node = behind.head?

variable {tree : Tree} {made : List (NodeId × NodeId)} {allowed : Tree → Edit → Prop}

instance (edit : Edit) : Decidable (edit.Moving tree) :=
  match edit with
  | .alloc kind => inferInstanceAs (Decidable (Edit.InArena tree (.alloc kind)))
  | .appendElement parent tag attributes =>
    inferInstanceAs (Decidable (Edit.InArena tree (.appendElement parent tag attributes)))
  | .appendText parent content => inferInstanceAs (Decidable (Edit.InArena tree (.appendText parent content)))
  | .appendComment parent content =>
    inferInstanceAs (Decidable (Edit.InArena tree (.appendComment parent content)))
  | .appendChild parent child =>
    inferInstanceAs (Decidable (parent < tree.size ∧ child < tree.size ∧ child ≠ root ∧
      child ≠ parent ∧ child ∉ tree.ancestors parent))

namespace Edit

/-- Moving calls are in the arena. -/
theorem Moving.inArena {edit : Edit} (h : edit.Moving tree) : edit.InArena tree := by
  cases edit with
  | appendChild parent child => exact ⟨h.1, h.2.1⟩
  | alloc kind => exact h
  | appendElement parent tag attributes => exact h
  | appendText parent content => exact h
  | appendComment parent content => exact h

/-- A moving call is fresh when the child that it appends has no parent. A new node has none. -/
theorem Moving.fresh {edit : Edit} (h : edit.Moving tree)
    (hfree : ∀ parent child, (parent, child) ∈ edit.appends tree → tree.parent child = none) :
    edit.Fresh tree := by
  cases edit with
  | appendChild parent child =>
    obtain ⟨hparent, hchild, hroot, hne, habove⟩ := h
    exact ⟨hparent, hchild, hroot, hfree parent child (List.mem_singleton_self _), hne, habove⟩
  | alloc kind => exact h
  | appendElement parent tag attributes => exact h
  | appendText parent content => exact h
  | appendComment parent content => exact h

/-- The children that a call appends to a node are those of the append that it makes. -/
theorem appendsTo_eq (edit : Edit) (node : NodeId) :
    edit.appendsTo tree node = childrenIn (edit.appends tree) node := by
  cases edit <;> simp only [appendsTo, appends, childrenIn, List.filter_nil, List.map_nil]
  all_goals split <;> simp_all [eq_comm]

/-- A call that appends a child to a parent makes that append and no other. -/
theorem appends_eq_singleton {edit : Edit} {parent child : NodeId}
    (h : edit.appendsTo tree parent = [child]) : edit.appends tree = [(parent, child)] := by
  cases edit <;> simp only [appendsTo, reduceCtorEq] at h
  all_goals
    split at h
    next hparent => simpa [appends, hparent] using h
    next => cases h

/-- A call that appends to no node makes no append. -/
theorem appends_eq_nil {edit : Edit} (h : ∀ node, edit.appendsTo tree node = []) :
    edit.appends tree = [] := by
  cases edit with
  | alloc kind => rfl
  | appendElement parent tag attributes => simpa [appendsTo] using h parent
  | appendText parent content => simpa [appendsTo] using h parent
  | appendComment parent content => simpa [appendsTo] using h parent
  | appendChild parent child => simpa [appendsTo] using h parent

end Edit

/-- A call in the arena gives a node the parent that it appends it to, and every other node keeps its
own. -/
theorem parent_edit {edit : Edit} {after : Tree} (h : edit.InArena tree)
    (hedit : tree.edit edit = .ok after) (node : NodeId) :
    after.parent node = (parentsIn (edit.appends tree) node).getLast?.or (tree.parent node) := by
  have hattach : ∀ {tree : Tree} {parent child : NodeId}, child < tree.size →
      (tree.attach parent child).parent node =
        (parentsIn [(parent, child)] node).getLast?.or (tree.parent node) := by
    intro tree parent child hchild
    rw [parent_attach hchild]
    by_cases hnode : child = node
    · simp [parentsIn, hnode]
    · simp [parentsIn, hnode, Ne.symm hnode]
  obtain ⟨after', hafter, ⟨kind, hnone, rfl⟩ | ⟨kind, parent, hparent, hnew, rfl⟩ |
    ⟨parent, child, rfl, rfl⟩⟩ := edit_of_inArena h
  · cases hafter.symm.trans hedit
    rw [parent_alloc, Edit.appends_eq_nil hnone]
    rfl
  · cases hafter.symm.trans hedit
    have happends := Edit.appends_eq_singleton ((hnew parent).trans (if_pos rfl))
    rw [happends, hattach (size_lt_size_alloc kind), parent_alloc]
  · cases hafter.symm.trans hedit
    exact hattach h.2

namespace History

/-- What is put together with its appends is put together. -/
theorem reachedBy (h : History allowed made tree) : ReachedBy allowed tree := by
  induction h with
  | empty => exact .empty
  | edit edit _ hallowed hedit ih => exact .edit edit ih hallowed hedit

/-- Every list of children has all children that were appended to its node. -/
theorem children_eq (h : History Edit.InArena made tree) (node : NodeId) :
    tree.children node = childrenIn made node := by
  induction h with
  | empty => cases node <;> rfl
  | edit edit _ hallowed hedit ih =>
    obtain ⟨after, hafter, hchildren⟩ := children_edit hallowed
    cases hafter.symm.trans hedit
    rw [hchildren, ih, edit.appendsTo_eq, childrenIn, childrenIn, childrenIn, List.filter_append,
      List.map_append]

/-- The parent of a node is the last one that it was appended to. -/
theorem parent_eq (h : History Edit.InArena made tree) (node : NodeId) :
    tree.parent node = (parentsIn made node).getLast? := by
  induction h with
  | empty => cases node <;> rfl
  | edit edit _ hallowed hedit ih =>
    rw [parent_edit hallowed hedit, ih, parentsIn, parentsIn, parentsIn, List.filter_append,
      List.map_append, List.getLast?_append]

/-- A node that was never appended has no parent. -/
theorem parent_eq_none (h : History Edit.InArena made tree) {node : NodeId}
    (hnew : node ∉ made.map Prod.snd) : tree.parent node = none := by
  rw [h.parent_eq, List.getLast?_eq_none_iff, parentsIn, List.map_eq_nil_iff, List.filter_eq_nil_iff]
  intro pair hpair hnode
  rw [decide_eq_true_eq] at hnode
  exact hnew (hnode ▸ List.mem_map_of_mem hpair)

/-- A child that was appended stands in the list of the parent. -/
theorem mem_children (h : History Edit.InArena made tree) {parent child : NodeId}
    (hpair : (parent, child) ∈ made) : child ∈ tree.children parent := by
  rw [h.children_eq, childrenIn]
  exact List.mem_map_of_mem (List.mem_filter.mpr ⟨hpair, decide_eq_true rfl⟩)

/-- What further calls are allowed puts together what fewer of them put together. -/
theorem mono {more : Tree → Edit → Prop} (hmore : ∀ tree edit, allowed tree edit → more tree edit)
    (h : History allowed made tree) : History more made tree := by
  induction h with
  | empty => exact .empty
  | edit edit _ hallowed hedit ih => exact .edit edit ih (hmore _ _ hallowed) hedit

/-- Moving calls that append no node twice are fresh: what they append has no parent yet. -/
theorem fresh (h : History Edit.Moving made tree) (hnodup : (made.map Prod.snd).Nodup) :
    History Edit.Fresh made tree := by
  induction h with
  | empty => exact .empty
  | edit edit earlier hallowed hedit ih =>
    rw [List.map_append, List.nodup_append] at hnodup
    obtain ⟨hbefore, -, hapart⟩ := hnodup
    refine .edit edit (ih hbefore) (hallowed.fresh fun parent child hpair => ?_) hedit
    -- the child is appended here, so no call before this one has appended it
    apply (earlier.mono fun _ _ => Edit.Moving.inArena).parent_eq_none
    intro hmem
    exact hapart child hmem child (List.mem_map_of_mem hpair) rfl

/-- Where every list of children has each node once, and no two lists have one in common, no node was
appended twice. -/
theorem nodup_made (h : History Edit.InArena made tree) (hnodup : ∀ parent, (tree.children parent).Nodup)
    (hunique : ∀ {child first second}, child ∈ tree.children first → child ∈ tree.children second →
      first = second) : (made.map Prod.snd).Nodup := by
  refine List.nodup_iff_sublist.mpr fun child htwice => ?_
  obtain ⟨pairs, hpairs, hchild⟩ := List.sublist_map_iff.mp htwice
  obtain ⟨⟨first, one⟩, rest, rfl, rfl, hrest⟩ := List.map_eq_cons_iff.mp hchild.symm
  obtain ⟨⟨second, other⟩, rfl, rfl⟩ := List.map_eq_singleton_iff.mp hrest
  have hfirst : (first, other) ∈ made := hpairs.subset List.mem_cons_self
  have hsecond : (second, other) ∈ made := hpairs.subset (List.mem_cons_of_mem _ List.mem_cons_self)
  obtain rfl := hunique (h.mem_children hfirst) (h.mem_children hsecond)
  -- both appends were made to one parent, so its list has the child twice
  refine List.nodup_iff_sublist.mp (hnodup first) other ?_
  rw [h.children_eq, childrenIn]
  simpa using (hpairs.filter (·.1 = first)).map Prod.snd

end History

namespace Orderly

/-- No list of children has a node twice. -/
theorem nodup (h : Orderly tree) (parent : NodeId) : (tree.children parent).Nodup := by
  by_cases hparent : parent < tree.size
  · exact (List.nodup_flatMap.mp h.nodup_children).1 parent (List.mem_range.mpr hparent)
  · have hnone : tree.get? parent = none := Array.getElem?_eq_none (Nat.le_of_not_lt hparent)
    rw [children, hnone]
    exact List.nodup_nil

/-- No two lists of children have a node in common. -/
theorem unique (h : Orderly tree) {child first second : NodeId} (hfirst : child ∈ tree.children first)
    (hsecond : child ∈ tree.children second) : first = second := by
  have hparent := (h.mem_children_iff child first).mp hfirst
  exact Option.some.inj (hparent.symm.trans ((h.mem_children_iff child second).mp hsecond))

end Orderly

/-- Links in agreement are in order. -/
theorem Linked.orderly (h : Linked tree) : Orderly tree :=
  ⟨h.consistent.nodup_children, h.consistent.mem_children_iff, h.consistent.siblings⟩

/-- What moving calls leave behind: every list has all the children that were ever appended to its node,
the parent of a node is the one that it was appended to last, and the links are in order exactly if no
node was appended twice. -/
theorem links_of_history (h : History Edit.Moving made tree) :
    (∀ node, tree.children node = childrenIn made node) ∧
      (∀ node, tree.parent node = (parentsIn made node).getLast?) ∧
        (Orderly tree ↔ (made.map Prod.snd).Nodup) := by
  have hinArena := h.mono fun _ _ => Edit.Moving.inArena
  refine ⟨hinArena.children_eq, hinArena.parent_eq, fun horderly => ?_, fun hnodup => ?_⟩
  · exact hinArena.nodup_made horderly.nodup horderly.unique
  · exact (h.fresh hnodup).reachedBy.linked.orderly

/-- The document gets two elements, and the first of them then moves into the second. -/
theorem history_movedInto : ∃ tree, History Edit.Moving [(0, 1), (0, 2), (2, 1)] tree ∧
    tree.parent 1 = some 2 ∧ tree.children 0 = [1, 2] ∧ tree.children 2 = [1] ∧
    tree.nextSibling 1 = some 2 ∧ tree.previousSibling 2 = some 1 ∧ ¬ Orderly tree := by
  have hfirst : History Edit.Moving _ _ := .edit (.appendElement 0 "a" []) .empty (by decide) rfl
  have hsecond : History Edit.Moving _ _ := .edit (.appendElement 0 "b" []) hfirst (by decide) rfl
  have hmoved : History Edit.Moving _ _ := .edit (.appendChild 2 1) hsecond (by decide) rfl
  obtain ⟨-, -, hiff⟩ := links_of_history hmoved
  exact ⟨_, hmoved, rfl, rfl, rfl, rfl, rfl, fun horderly => absurd (hiff.mp horderly) (by decide)⟩

/-- Not all that moving calls put together is in order. -/
theorem exists_not_orderly : ¬ ∀ made tree, History Edit.Moving made tree → Orderly tree := by
  intro hall
  have hfirst : History Edit.Moving _ _ := .edit (.appendElement 0 "a" []) .empty (by decide) rfl
  have hsecond : History Edit.Moving _ _ := .edit (.appendElement 0 "b" []) hfirst (by decide) rfl
  have hmoved : History Edit.Moving _ _ := .edit (.appendChild 2 1) hsecond (by decide) rfl
  -- the element that moved stands in the list of the document still, which is not its parent
  have hstale := ((hall _ _ hmoved).mem_children_iff 1 0).mp (by decide)
  exact absurd hstale (by decide)

/-- A node that moves out from under another leaves its place there behind, and gets the other below
itself when that one follows: then each lies below the other. -/
theorem exists_history_not_acyclic : ∃ made tree, History Edit.Moving made tree ∧ ¬ tree.Acyclic := by
  have hlower : History Edit.Moving _ _ := .edit (.alloc (.element "a" .empty)) .empty (by decide) rfl
  have hupper : History Edit.Moving _ _ := .edit (.alloc (.element "b" .empty)) hlower (by decide) rfl
  have hbelow : History Edit.Moving _ _ := .edit (.appendChild 2 1) hupper (by decide) rfl
  have hout : History Edit.Moving _ _ := .edit (.appendChild 0 1) hbelow (by decide) rfl
  have hafter : History Edit.Moving _ _ := .edit (.appendChild 1 2) hout (by decide) rfl
  refine ⟨_, _, hafter, fun hacyclic => hacyclic 1 ?_⟩
  exact .head (List.mem_singleton_self 1) (.single (List.mem_singleton_self 2))

end TreeQuery.Tree
