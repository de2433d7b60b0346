import TreeQuery.Proofs.Tree.Ancestors

/-!
# Trees that are put together

A tree is put together by edits, from the arena that holds the document alone. An edit allocates a
node, appends a new one, or appends one that is there already. Which of them are made is up to the
caller. Those that are fresh name places in the arena only, and append no node that has a parent, is
the document, or has the new parent below it; what is assembled on its own and attached later is fresh.

Main statement: the links of a tree that fresh edits have put together say the same thing in all the
ways there are to ask them.
-/

namespace TreeQuery

namespace Tree

/-- A call that adds to a tree. -/
inductive Edit where
  | alloc (kind : NodeKind)
  | appendElement (parent : NodeId) (tag : String) (attributes : List (String × String))
  | appendText (parent : NodeId) (content : String)
  | appendComment (parent : NodeId) (content : String)
  | appendChild (parent child : NodeId)

/-- Make a call. -/
def edit (tree : Tree) : Edit → Except OutOfBounds Tree
  | .alloc kind => .ok (tree.alloc kind).1
  | .appendElement parent tag attributes => (tree.appendElement parent tag attributes).map Prod.fst
  | .appendText parent content => (tree.appendText parent content).map Prod.fst
  | .appendComment parent content => (tree.appendComment parent content).map Prod.fst
  | .appendChild parent child => tree.appendChild parent child

/-- The places that a call names are in the arena. -/
def Edit.InArena (tree : Tree) : Edit → Prop
  | .alloc _ => True
  | .appendElement parent _ _ => parent < tree.size
  | .appendText parent _ => parent < tree.size
  | .appendComment parent _ => parent < tree.size
  | .appendChild parent child => parent < tree.size ∧ child < tree.size

/-- A call in the arena that appends nothing but new nodes, and nodes without a parent that are neither
the document nor the new parent nor an ancestor of it. -/
def Edit.Fresh (tree : Tree) : Edit → Prop
  | .appendChild parent child => parent < tree.size ∧ child < tree.size ∧ child ≠ root ∧
      tree.parent child = none ∧ child ≠ parent ∧ child ∉ tree.ancestors parent
  | edit => edit.InArena tree

/-- The children that a call appends to a node: one to the parent that it names, and none to any other. -/
def Edit.appendsTo (tree : Tree) (node : NodeId) : Edit → List NodeId
  | .alloc _ => []
  | .appendElement parent _ _ => if node = parent then [tree.size] else []
  | .appendText parent _ => if node = parent then [tree.size] else []
  | .appendComment parent _ => if node = parent then [tree.size] else []
  | .appendChild parent child => if node = parent then [child] else []

/-- The trees that are put together by allowed calls. -/
inductive ReachedBy (allowed : Tree → Edit → Prop) : Tree → Prop
  | empty : ReachedBy allowed .empty
  | edit {tree after : Tree} (edit : Edit) (reached : ReachedBy allowed tree)
      (hallowed : allowed tree edit) (hedit : tree.edit edit = .ok after) : ReachedBy allowed after

variable {tree : Tree}

instance (edit : Edit) : Decidable (edit.InArena tree) :=
  match edit with
  | .alloc _ => inferInstanceAs (Decidable True)
  | .appendElement parent _ _ => inferInstanceAs (Decidable (parent < tree.size))
  | .appendText parent _ => inferInstanceAs (Decidable (parent < tree.size))
  | .appendComment parent _ => inferInstanceAs (Decidable (parent < tree.size))
  | .appendChild parent child => inferInstanceAs (Decidable (parent < tree.size ∧ child < tree.size))

instance (edit : Edit) : Decidable (edit.Fresh tree) :=
  match edit with
  | .alloc kind => inferInstanceAs (Decidable (Edit.InArena tree (.alloc kind)))
  | .appendElement parent tag attributes =>
    inferInstanceAs (Decidable (Edit.InArena tree (.appendElement parent tag attributes)))
  | .appendText parent content => inferInstanceAs (Decidable (Edit.InArena tree (.appendText parent content)))
  | .appendComment parent content =>
    inferInstanceAs (Decidable (Edit.InArena tree (.appendComment parent content)))
  | .appendChild parent child =>
    inferInstanceAs (Decidable (parent < tree.size ∧ child < tree.size ∧ child ≠ root ∧
      tree.parent child = none ∧ child ≠ parent ∧ child ∉ tree.ancestors parent))

/-- A place in the arena is a place in it after an allocation. -/
theorem lt_size_alloc {node : NodeId} (h : node < tree.size) (kind : NodeKind) :
    node < (tree.alloc kind).1.size := by
  rw [size_alloc]
  exact Nat.lt_succ_of_lt h

/-- The allocated node has a place in the arena. -/
theorem size_lt_size_alloc (kind : NodeKind) : tree.size < (tree.alloc kind).1.size := by
  rw [size_alloc]
  exact Nat.lt_succ_self tree.size

/-- Appending a new node below a place in the arena attaches it at the next free place. -/
theorem append_of_lt {parent : NodeId} (h : parent < tree.size) (kind : NodeKind) :
    (tree.append parent kind).map Prod.fst = .ok ((tree.alloc kind).1.attach parent tree.size) := by
  have hparent : ¬ (tree.alloc kind).1.size ≤ parent := Nat.not_le.mpr (lt_size_alloc h kind)
  have hchild : ¬ (tree.alloc kind).1.size ≤ (tree.alloc kind).2 :=
    Nat.not_le.mpr (size_lt_size_alloc kind)
  simp only [append, appendChild, if_neg hparent, if_neg hchild]
  rfl

/-- What a call in the arena makes of a tree: it allocates a node, attaches the node that it has
allocated, or attaches one that was there. -/
theorem edit_of_inArena {edit : Edit} (h : edit.InArena tree) : ∃ after, tree.edit edit = .ok after ∧
    ((∃ kind, (∀ node, edit.appendsTo tree node = []) ∧ after = (tree.alloc kind).1) ∨
      (∃ kind parent, parent < tree.size ∧
        (∀ node, edit.appendsTo tree node = if node = parent then [tree.size] else []) ∧
        after = (tree.alloc kind).1.attach parent tree.size) ∨
      ∃ parent child, edit = .appendChild parent child ∧ after = tree.attach parent child) := by
  cases edit with
  | alloc kind => exact ⟨_, rfl, Or.inl ⟨kind, fun _ => rfl, rfl⟩⟩
  | appendElement parent tag attributes =>
    exact ⟨_, append_of_lt h _, Or.inr (Or.inl ⟨_, parent, h, fun _ => rfl, rfl⟩)⟩
  | appendText parent content =>
    exact ⟨_, append_of_lt h _, Or.inr (Or.inl ⟨_, parent, h, fun _ => rfl, rfl⟩)⟩
  | appendComment parent content =>
    exact ⟨_, append_of_lt h _, Or.inr (Or.inl ⟨_, parent, h, fun _ => rfl, rfl⟩)⟩
  | appendChild parent child =>
    refine ⟨tree.attach parent child, ?_, Or.inr (Or.inr ⟨parent, child, rfl, rfl⟩)⟩
    rw [Tree.edit, Tree.appendChild, if_neg (Nat.not_le.mpr h.1), if_neg (Nat.not_le.mpr h.2)]

/-- A call in the arena has a result, with one child more where it appends, and no other change of the
lists of children. -/
theorem children_edit {edit : Edit} (h : edit.InArena tree) : ∃ after, tree.edit edit = .ok after ∧
    ∀ node, after.children node = tree.children node ++ edit.appendsTo tree node := by
  obtain ⟨after, hedit, ⟨kind, hnone, rfl⟩ | ⟨kind, parent, hparent, hnew, rfl⟩ |
    ⟨parent, child, rfl, rfl⟩⟩ := edit_of_inArena h
  · refine ⟨_, hedit, fun node => ?_⟩
    rw [children_alloc, hnone, List.append_nil]
  · refine ⟨_, hedit, fun node => ?_⟩
    rw [children_attach (lt_size_alloc hparent kind), children_alloc, hnew]
  · exact ⟨_, hedit, children_attach h.1⟩

/-- What further calls are allowed puts together what fewer of them put together. -/
theorem ReachedBy.mono {allowed more : Tree → Edit → Prop}
    (hmore : ∀ tree edit, allowed tree edit → more tree edit) (h : ReachedBy allowed tree) :
    ReachedBy more tree := by
  induction h with
  | empty => exact .empty
  | edit edit _ hallowed hedit ih => exact .edit edit ih (hmore _ _ hallowed) hedit

/-- What calls in the arena have put together has the document at its root. -/
theorem ReachedBy.kind?_root (h : ReachedBy Edit.InArena tree) : tree.kind? root = some .document := by
  have halloc : ∀ {tree : Tree} (kind), tree.kind? root = some .document →
      (tree.alloc kind).1.kind? root = some .document := by
    intro tree kind hroot
    have hne : root ≠ tree.size := by
      intro heq
      rw [kind?, get?, heq, size, Array.getElem?_size] at hroot
      cases hroot
    rw [kind?_alloc, if_neg hne, hroot]
  induction h with
  | empty => rfl
  | edit edit _ hallowed hedit ih =>
    obtain ⟨after, hafter, ⟨kind, -, rfl⟩ | ⟨kind, parent, hparent, -, rfl⟩ | ⟨parent, child, rfl, rfl⟩⟩ :=
      edit_of_inArena hallowed
    · cases hafter.symm.trans hedit
      exact halloc kind ih
    · cases hafter.symm.trans hedit
      rw [kind?_attach]
      exact halloc kind ih
    · cases hafter.symm.trans hedit
      rw [kind?_attach, ih]

/-- The children in what calls in the arena have put together are in the arena. -/
theorem ReachedBy.lt_size_of_mem (h : ReachedBy Edit.InArena tree) {child parent : NodeId}
    (hchild : child ∈ tree.children parent) : child < tree.size := by
  induction h generalizing child parent with
  | empty => cases parent <;> exact absurd hchild List.not_mem_nil
  | edit edit _ hallowed hedit ih =>
    obtain ⟨after, hafter, ⟨kind, -, rfl⟩ | ⟨kind, parent, hparent, -, rfl⟩ | ⟨parent, child, rfl, rfl⟩⟩ :=
      edit_of_inArena hallowed
    · cases hafter.symm.trans hedit
      rw [children_alloc] at hchild
      exact lt_size_alloc (ih hchild) kind
    · cases hafter.symm.trans hedit
      rw [size_attach]
      rcases (isChild_attach_iff (lt_size_alloc hparent kind)).mp hchild with hold | ⟨rfl, -⟩
      · rw [IsChild, children_alloc] at hold
        exact lt_size_alloc (ih hold) kind
      · exact size_lt_size_alloc kind
    · cases hafter.symm.trans hedit
      rw [size_attach]
      rcases (isChild_attach_iff hallowed.1).mp hchild with hold | ⟨rfl, -⟩
      · exact ih hold
      · exact hallowed.2

/-- Fresh calls are in the arena. -/
theorem Edit.Fresh.inArena {edit : Edit} (h : edit.Fresh tree) : edit.InArena tree := by
  cases edit with
  | appendChild parent child => exact ⟨h.1, h.2.1⟩
  | alloc kind => exact h
  | appendElement parent tag attributes => exact h
  | appendText parent content => exact h
  | appendComment parent content => exact h

namespace Linked

/-- Appending a new node keeps the links in agreement. -/
theorem append (h : Linked tree) {parent : NodeId} (hparent : parent < tree.size) (kind : NodeKind) :
    Linked ((tree.alloc kind).1.attach parent tree.size) := by
  have hnone : tree.parent tree.size = none := by
    by_contra hsome
    obtain ⟨upper, hupper⟩ := Option.ne_none_iff_exists'.mp hsome
    exact Nat.lt_irrefl _ (lt_size_of_parent hupper)
  refine (h.alloc kind).attach (lt_size_alloc hparent kind) (size_lt_size_alloc kind)
    (Nat.ne_of_gt h.root_lt) ?_ fun hbelow => ?_
  · rw [parent_alloc, hnone]
  · -- the new node has no children, so nothing lies below it
    rcases Relation.ReflTransGen.cases_tail hbelow with heq | ⟨lower, -, hstep⟩
    · exact Nat.ne_of_gt hparent heq
    · rw [IsChild, children_alloc] at hstep
      exact Nat.lt_irrefl _ (lt_size_of_isChild hstep)

/-- A fresh call has a result, and keeps the links in agreement. -/
theorem exists_edit (h : Linked tree) {edit : Edit} (hfresh : edit.Fresh tree) :
    ∃ after, tree.edit edit = .ok after ∧ Linked after := by
  obtain ⟨after, hedit, ⟨kind, -, rfl⟩ | ⟨kind, parent, hparent, -, rfl⟩ |
    ⟨parent, child, rfl, rfl⟩⟩ := edit_of_inArena hfresh.inArena
  · exact ⟨_, hedit, h.alloc kind⟩
  · exact ⟨_, hedit, h.append hparent kind⟩
  · obtain ⟨hparent, hchild, hroot, hfree, hne, habove⟩ := hfresh
    refine ⟨_, hedit, h.attach hparent hchild hroot hfree fun hbelow => ?_⟩
    cases Relation.reflTransGen_iff_eq_or_transGen.mp hbelow with
    | inl heq => exact hne heq
    | inr hway => exact habove (h.mem_ancestors_iff.mpr hway)

end Linked

/-- The links of a tree that fresh calls have put together agree. -/
theorem ReachedBy.linked (h : ReachedBy Edit.Fresh tree) : Linked tree := by
  induction h with
  | empty => exact linked_empty
  | edit _ reached hfresh hedit ih =>
    obtain ⟨after, hafter, hlinked⟩ := ih.exists_edit hfresh
    rw [hafter] at hedit
    cases hedit
    exact hlinked

/-- The nodes that a link leads through from a first one on, at most so many of them. -/
def follow (link : NodeId → Option NodeId) : Nat → Option NodeId → List NodeId
  | 0, _ => []
  | _ + 1, none => []
  | limit + 1, some node => node :: follow link limit (link node)

/-- A link that leads from each node of a list to the next one leads through the list, and ends with it. -/
theorem follow_eq {link : NodeId → Option NodeId} {list : List NodeId}
    (h : ∀ before node behind, list = before ++ node :: behind → link node = behind.head?) {limit : Nat}
    (hlimit : list.length ≤ limit) : follow link limit list.head? = list := by
  induction list generalizing limit with
  | nil => cases limit <;> rfl
  | cons node rest ih =>
    obtain ⟨limit, rfl⟩ := Nat.exists_eq_succ_of_ne_zero (Nat.ne_of_gt (Nat.zero_lt_of_lt hlimit))
    have hrest := ih (fun before other behind hsplit => h (node :: before) other behind (by rw [hsplit]; rfl))
      (Nat.le_of_succ_le_succ hlimit)
    rw [List.head?_cons, follow, h [] node rest rfl, hrest]

/-- The ways there are to ask for the links of a tree say the same thing. -/
structure Consistent (tree : Tree) : Prop where
  mem_children_iff : ∀ child parent, child ∈ tree.children parent ↔ tree.parent child = some parent
  /-- Every node stands at most once in all lists of children. -/
  nodup_children : ((List.range tree.size).flatMap tree.children).Nodup
  /-- The neighbours of a child are the ones that stand beside it in the list of its parent. -/
  siblings : ∀ parent node before behind, tree.children parent = before ++ node :: behind →
    tree.previousSibling node = before.getLast? ∧ tree.nextSibling node = behind.head?
  detached : ∀ node, tree.parent node = none →
    tree.previousSibling node = none ∧ tree.nextSibling node = none
  follow_next : ∀ parent limit, (tree.children parent).length ≤ limit →
    follow tree.nextSibling limit (tree.firstChild parent) = tree.children parent
  follow_previous : ∀ parent limit, (tree.children parent).length ≤ limit →
    follow tree.previousSibling limit (tree.lastChild parent) = (tree.children parent).reverse
  parent_root : tree.parent root = none
  parent_acyclic : ∀ node,
    ¬ Relation.TransGen (fun lower upper => tree.parent lower = some upper) node node
  /-- Going up comes to an end: a larger limit finds no more ancestors. -/
  ancestors_end : ∀ node limit, tree.size ≤ limit → tree.ancestorsUpTo limit node = tree.ancestors node
  nodup_ancestors : ∀ node, (tree.ancestors node).Nodup
  /-- The last ancestor is the document exactly for the nodes below the document. -/
  getLast?_ancestors : ∀ node, (tree.ancestors node).getLast? = some root ↔
    ∃ count, 0 < count ∧ tree.Below count root node

/-- Links in agreement are consistent. -/
theorem Linked.consistent (h : Linked tree) : Consistent tree where
  mem_children_iff := fun _ _ => h.isChild_iff
  nodup_children := by
    refine List.nodup_flatMap.mpr ⟨fun parent _ => h.nodup parent, ?_⟩
    apply List.nodup_range.pairwise_of_forall_ne
    intro first _ second _ hne child hfirst hsecond
    exact hne (h.wellFormed.unique hfirst hsecond)
  siblings := fun _ _ _ _ => h.siblings
  detached := fun _ => h.detached
  follow_next := fun _ _ => follow_eq fun _ _ _ hsplit => (h.siblings hsplit).2
  follow_previous := by
    intro parent limit hlimit
    rw [lastChild, ← List.head?_reverse]
    refine follow_eq (fun before node behind hsplit => ?_) (by rwa [List.length_reverse])
    have hchildren : tree.children parent = behind.reverse ++ node :: before.reverse := by
      rw [← List.reverse_reverse (tree.children parent), hsplit]
      simp
    rw [(h.siblings hchildren).1, List.getLast?_reverse]
  parent_root := h.parent_root
  parent_acyclic := by
    intro node hcycle
    apply h.acyclic node
    exact Relation.TransGen.mono (fun _ _ hparent => h.isChild_iff.mpr hparent) node node hcycle
  ancestors_end := fun node _ hle => h.ancestorsUpTo_eq hle node
  nodup_ancestors := fun node => h.nodup_ancestorsUpTo tree.size node
  getLast?_ancestors := fun _ => h.getLast?_ancestors_eq_root_iff.trans transGen_iff_below

/-- The links of a tree that fresh calls have put together are consistent, and every further fresh call
has a result, where the call has appended what it names. -/
theorem consistent_of_reachedBy (h : ReachedBy Edit.Fresh tree) :
    Consistent tree ∧ ∀ edit : Edit, edit.Fresh tree → ∃ after, tree.edit edit = .ok after ∧
      ∀ node, after.children node = tree.children node ++ edit.appendsTo tree node :=
  ⟨h.linked.consistent, fun _ hfresh => children_edit hfresh.inArena⟩

/-- A list whose item is put together before the list gets it as its second child. -/
theorem consistent_bottomUp : ∃ tree, ReachedBy Edit.Fresh tree ∧ tree.children 1 = [5, 2] ∧
    tree.children 2 = [3, 4] ∧ Consistent tree := by
  have hlist : ReachedBy Edit.Fresh _ := .edit (.appendElement 0 "ul" []) .empty (by decide) rfl
  have hitem : ReachedBy Edit.Fresh _ := .edit (.alloc (.element "li" (.ofList []))) hlist (by decide) rfl
  have htext : ReachedBy Edit.Fresh _ := .edit (.appendText 2 "one") hitem (by decide) rfl
  have hcomment : ReachedBy Edit.Fresh _ := .edit (.appendComment 2 "two") htext (by decide) rfl
  have hother : ReachedBy Edit.Fresh _ := .edit (.appendElement 1 "li" []) hcomment (by decide) rfl
  have hwhole : ReachedBy Edit.Fresh _ := .edit (.appendChild 1 2) hother (by decide) rfl
  exact ⟨_, hwhole, rfl, rfl, (consistent_of_reachedBy hwhole).1⟩

end Tree

end TreeQuery
