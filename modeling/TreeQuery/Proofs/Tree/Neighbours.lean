import TreeQuery.Proofs.Tree.Appending

/-!
# Links of arenas of any kind

A call in the arena may append a node to itself, to a node below it, or to the same parent again and
again. The arena is no tree then, and still every link says something about the appends that were made,
each written down as the parent and the child that it names. An append to a parent that has children
joins two nodes, the last of those children and the child that is appended behind it. A list of children
is what was appended to its node, and a single link of a node is what the latest append that concerns it
has written: the parent that the node was appended to, the node that it was joined behind, or the node
that was joined behind it.

Main statement: after any calls in the arena the links are these functions of the appends, no link leads
out of the arena, and a neighbour stands beside its node in some list of children.
-/

namespace TreeQuery.Tree

/-- The pairs of nodes that later appends join: the last child that the parent had, if it had any, and the
child that was appended behind it. -/
def joinsBehind (earlier : List (NodeId × NodeId)) : List (NodeId × NodeId) → List (NodeId × NodeId)
  | [] => []
  | (parent, child) :: later =>
    ((childrenIn earlier parent).getLast?.map fun last => (last, child)).toList ++
      joinsBehind (earlier ++ [(parent, child)]) later

/-- The pairs of nodes that appends join, in order. -/
def joins (made : List (NodeId × NodeId)) : List (NodeId × NodeId) := joinsBehind [] made

/-- The nodes that a node was joined behind. -/
def predecessorsIn (made : List (NodeId × NodeId)) (node : NodeId) : List NodeId :=
  ((joins made).filter (·.2 = node)).map Prod.fst

/-- The nodes that were joined behind a node. -/
def successorsIn (made : List (NodeId × NodeId)) (node : NodeId) : List NodeId :=
  ((joins made).filter (·.1 = node)).map Prod.snd

/-- The links of a tree are what the appends that were made have written. -/
structure Logged (made : List (NodeId × NodeId)) (tree : Tree) : Prop where
  children_eq : ∀ node, tree.children node = childrenIn made node
  parent_eq : ∀ node, tree.parent node = (parentsIn made node).getLast?
  previousSibling_eq : ∀ node, tree.previousSibling node = (predecessorsIn made node).getLast?
  nextSibling_eq : ∀ node, tree.nextSibling node = (successorsIn made node).getLast?
  mem_children : ∀ {node parent}, tree.parent node = some parent → node ∈ tree.children parent
  /-- The node before another stands right before it in some list of children. -/
  previousSibling_adjacent : ∀ {node other}, tree.previousSibling node = some other →
    ∃ parent, [other, node] <:+: tree.children parent
  /-- The node after another stands right behind it in some list of children. -/
  nextSibling_adjacent : ∀ {node other}, tree.nextSibling node = some other →
    ∃ parent, [node, other] <:+: tree.children parent
  /-- No list of children, and so no other link either, leads out of the arena. -/
  lt_size : ∀ {child parent}, child ∈ tree.children parent → child < tree.size ∧ parent < tree.size

section

variable (made : List (NodeId × NodeId)) (parent child node : NodeId)

/-- What is appended behind appends is joined behind what they leave. -/
theorem joinsBehind_append (earlier first second : List (NodeId × NodeId)) :
    joinsBehind earlier (first ++ second) =
      joinsBehind earlier first ++ joinsBehind (earlier ++ first) second := by
  induction first generalizing earlier with
  | nil => rw [List.nil_append, List.append_nil, joinsBehind, List.nil_append]
  | cons append rest ih =>
    rw [List.cons_append, joinsBehind, joinsBehind, ih, List.append_assoc, List.append_assoc]
    rfl

/-- One more append joins its child behind the last child of the parent. -/
theorem joins_concat :
    joins (made ++ [(parent, child)]) =
      joins made ++ ((childrenIn made parent).getLast?.map fun last => (last, child)).toList := by
  rw [joins, joinsBehind_append, joinsBehind, joinsBehind, List.nil_append, List.append_nil]
  rfl

/-- One more append gives its child a predecessor, if the parent has children. -/
theorem predecessorsIn_concat :
    predecessorsIn (made ++ [(parent, child)]) node =
      predecessorsIn made node ++ if node = child then (childrenIn made parent).getLast?.toList else [] := by
  rw [predecessorsIn, joins_concat, List.filter_append, List.map_append]
  congr 1
  cases (childrenIn made parent).getLast? with
  | none => simp
  | some last => by_cases hnode : node = child <;> simp [hnode, eq_comm]

/-- One more append gives the last child of the parent a successor. -/
theorem successorsIn_concat :
    successorsIn (made ++ [(parent, child)]) node =
      successorsIn made node ++ if (childrenIn made parent).getLast? = some node then [child] else [] := by
  rw [successorsIn, joins_concat, List.filter_append, List.map_append]
  congr 1
  cases (childrenIn made parent).getLast? with
  | none => simp
  | some last => by_cases hnode : last = node <;> simp [hnode]

/-- One more append goes behind the children of its parent. -/
theorem childrenIn_concat :
    childrenIn (made ++ [(parent, child)]) node =
      childrenIn made node ++ if node = parent then [child] else [] := by
  rw [childrenIn, List.filter_append, List.map_append]
  congr 1
  by_cases hnode : node = parent <;> simp [hnode, eq_comm]

end

variable {tree : Tree} {made : List (NodeId × NodeId)} {last child : NodeId}

/-- Nodes that were joined stand side by side in the list of some parent. -/
theorem exists_adjacent_of_mem_joins (h : (last, child) ∈ joins made) :
    ∃ parent, [last, child] <:+: childrenIn made parent := by
  induction made using List.reverseRecOn with
  | nil => exact absurd h List.not_mem_nil
  | append_singleton made append ih =>
    obtain ⟨parent, new⟩ := append
    rw [joins_concat, List.mem_append, Option.mem_toList, Option.map_eq_some_iff] at h
    rcases h with hearlier | ⟨before, hbefore, hpair⟩
    · obtain ⟨upper, hadjacent⟩ := ih hearlier
      refine ⟨upper, hadjacent.trans ?_⟩
      rw [childrenIn_concat]
      exact (List.prefix_append _ _).isInfix
    · cases hpair
      refine ⟨parent, (childrenIn made parent).dropLast, [], ?_⟩
      have hsplit := List.dropLast_append_getLast? last hbefore
      rw [childrenIn_concat, if_pos rfl, ← hsplit]
      simp

/-- A call in the arena leaves the neighbours of all nodes, or makes one append: that gives its child the
last child of the parent before it, if there is one, and gives that one the child behind it. -/
theorem siblings_edit {edit : Edit} {after : Tree} (h : edit.InArena tree)
    (hinside : ∀ parent, ∀ child ∈ tree.children parent, child < tree.size)
    (hedit : tree.edit edit = .ok after) :
    edit.appends tree = [] ∧ (∀ node, after.previousSibling node = tree.previousSibling node ∧
        after.nextSibling node = tree.nextSibling node) ∨
      ∃ parent child, edit.appends tree = [(parent, child)] ∧ ∀ node,
        after.previousSibling node =
            (if node = child then (tree.children parent).getLast? else none).or
              (tree.previousSibling node) ∧
          after.nextSibling node =
            if (tree.children parent).getLast? = some node then some child else tree.nextSibling node := by
  have hattach : ∀ {tree : Tree} {parent child : NodeId}, child < tree.size →
      (∀ last ∈ (tree.children parent).getLast?, last < tree.size) → ∀ node,
        (tree.attach parent child).previousSibling node =
            (if node = child then (tree.children parent).getLast? else none).or
              (tree.previousSibling node) ∧
          (tree.attach parent child).nextSibling node =
            if (tree.children parent).getLast? = some node then some child else tree.nextSibling node := by
    intro tree parent child hchild hlast node
    refine ⟨?_, nextSibling_attach hlast node⟩
    rw [previousSibling_attach hchild]
    split <;> rfl
  obtain ⟨after', hafter, ⟨kind, hnone, rfl⟩ | ⟨kind, parent, hparent, hnew, rfl⟩ |
    ⟨parent, child, rfl, rfl⟩⟩ := edit_of_inArena h
  · cases hafter.symm.trans hedit
    exact Or.inl ⟨Edit.appends_eq_nil hnone,
      fun node => ⟨tree.previousSibling_alloc kind node, tree.nextSibling_alloc kind node⟩⟩
  · cases hafter.symm.trans hedit
    refine Or.inr ⟨parent, tree.size, Edit.appends_eq_singleton ((hnew parent).trans (if_pos rfl)), ?_⟩
    intro node
    have hlast : ∀ last ∈ ((tree.alloc kind).1.children parent).getLast?, last < (tree.alloc kind).1.size := by
      intro last hmem
      rw [children_alloc] at hmem
      exact lt_size_alloc (hinside parent last (List.mem_of_getLast? hmem)) kind
    have hnode := hattach (size_lt_size_alloc kind) hlast node
    rwa [children_alloc, previousSibling_alloc, nextSibling_alloc] at hnode
  · cases hafter.symm.trans hedit
    exact Or.inr ⟨parent, child, rfl, hattach h.2 fun last hmem =>
      hinside parent last (List.mem_of_getLast? hmem)⟩

namespace History

/-- The node before a node is the last one that it was joined behind, and the node after it the last one
that was joined behind it. -/
theorem siblings_eq (h : History Edit.InArena made tree) (node : NodeId) :
    tree.previousSibling node = (predecessorsIn made node).getLast? ∧
      tree.nextSibling node = (successorsIn made node).getLast? := by
  induction h with
  | empty => cases node <;> exact ⟨rfl, rfl⟩
  | @edit made tree after edit earlier hallowed hedit ih =>
    rcases siblings_edit hallowed (fun _ _ => earlier.reachedBy.lt_size_of_mem) hedit with
      ⟨happends, hsame⟩ | ⟨parent, child, happends, hchange⟩
    · rw [happends, List.append_nil, (hsame node).1, (hsame node).2]
      exact ih
    · rw [happends, predecessorsIn_concat, successorsIn_concat, (hchange node).1, (hchange node).2,
        earlier.children_eq, ih.1, ih.2, List.getLast?_append, List.getLast?_append]
      constructor
      · congr 1
        split
        · cases (childrenIn made parent).getLast? <;> rfl
        · rfl
      · split <;> rfl

/-- What calls in the arena have put together is what their appends have written. -/
theorem logged (h : History Edit.InArena made tree) : Logged made tree where
  children_eq := h.children_eq
  parent_eq := h.parent_eq
  previousSibling_eq := fun node => (h.siblings_eq node).1
  nextSibling_eq := fun node => (h.siblings_eq node).2
  mem_children := by
    intro node parent hparent
    rw [h.parent_eq] at hparent
    have hmem := List.mem_of_getLast? hparent
    simp only [parentsIn, List.mem_map, List.mem_filter, decide_eq_true_eq] at hmem
    obtain ⟨⟨upper, lower⟩, ⟨hpair, rfl⟩, rfl⟩ := hmem
    exact h.mem_children hpair
  previousSibling_adjacent := by
    intro node other hother
    rw [(h.siblings_eq node).1] at hother
    have hmem := List.mem_of_getLast? hother
    simp only [predecessorsIn, List.mem_map, List.mem_filter, decide_eq_true_eq] at hmem
    obtain ⟨⟨last, child⟩, ⟨hpair, rfl⟩, rfl⟩ := hmem
    obtain ⟨parent, hadjacent⟩ := exists_adjacent_of_mem_joins hpair
    exact ⟨parent, h.children_eq parent ▸ hadjacent⟩
  nextSibling_adjacent := by
    intro node other hother
    rw [(h.siblings_eq node).2] at hother
    have hmem := List.mem_of_getLast? hother
    simp only [successorsIn, List.mem_map, List.mem_filter, decide_eq_true_eq] at hmem
    obtain ⟨⟨last, child⟩, ⟨hpair, rfl⟩, rfl⟩ := hmem
    obtain ⟨parent, hadjacent⟩ := exists_adjacent_of_mem_joins hpair
    exact ⟨parent, h.children_eq parent ▸ hadjacent⟩
  lt_size := fun hchild => ⟨h.reachedBy.lt_size_of_mem hchild, lt_size_of_isChild hchild⟩

end History

/-- After any calls in the arena the links are what the appends that were made have written, and every
further call in the arena has a result, with the append that it makes written down behind the others. -/
theorem logged_of_history (h : History Edit.InArena made tree) :
    Logged made tree ∧ ∀ edit : Edit, edit.InArena tree → ∃ after, tree.edit edit = .ok after ∧
      History Edit.InArena (made ++ edit.appends tree) after := by
  refine ⟨h.logged, fun edit hedit => ?_⟩
  obtain ⟨after, hafter, -⟩ := edit_of_inArena hedit
  exact ⟨after, hafter, .edit edit h hedit hafter⟩

/-- A node is appended to itself twice in a row and gets another node behind that, to which it is appended
in the end: it stands beside itself, and each of the two lies below the other. -/
theorem logged_ownNeighbour : ∃ tree, History Edit.InArena [(1, 1), (1, 1), (1, 2), (2, 1)] tree ∧
    tree.children 1 = [1, 1, 2] ∧ tree.children 2 = [1] ∧ tree.parent 1 = some 2 ∧
    tree.previousSibling 1 = some 1 ∧ tree.nextSibling 1 = some 2 ∧ tree.previousSibling 2 = some 1 ∧
    tree.nextSibling 2 = none := by
  have hnode : History Edit.InArena _ _ := .edit (.alloc (.element "a" .empty)) .empty (by decide) rfl
  have hother : History Edit.InArena _ _ := .edit (.alloc (.element "b" .empty)) hnode (by decide) rfl
  have hself : History Edit.InArena _ _ := .edit (.appendChild 1 1) hother (by decide) rfl
  have hagain : History Edit.InArena _ _ := .edit (.appendChild 1 1) hself (by decide) rfl
  have hbehind : History Edit.InArena _ _ := .edit (.appendChild 1 2) hagain (by decide) rfl
  have hcycle : History Edit.InArena _ _ := .edit (.appendChild 2 1) hbehind (by decide) rfl
  have hlogged := (logged_of_history hcycle).1
  exact ⟨_, hcycle, hlogged.children_eq 1, hlogged.children_eq 2, hlogged.parent_eq 1,
    hlogged.previousSibling_eq 1, hlogged.nextSibling_eq 1, hlogged.previousSibling_eq 2,
    hlogged.nextSibling_eq 2⟩

end TreeQuery.Tree
