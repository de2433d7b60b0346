import TreeQuery.Proofs.Outline.Loading
import TreeQuery.Proofs.Query.Shape
import TreeQuery.Proofs.Search.Growth

/-!
# Queries in a tree that gets one more leaf

Appending a leaf makes a tree grow at one place. A text without `first` and `not` finds below any root what
it found before, and may find more. Where the leaf is put neither at the root nor below it, what lies at and
below the root is as it was, so that all results there are.

Main statement: an append succeeds, keeps the finds of affirmative texts in their order, and changes nothing
at roots that it is not below.
-/

namespace TreeQuery.Tree

variable {tree : Tree} {parent : NodeId}

/-- Appending to a place in the arena makes a node there. -/
theorem append_eq_grow (hparent : parent < tree.size) (kind : NodeKind) :
    tree.append parent kind = .ok (tree.grow parent kind) := by
  have hin : ¬ (tree.alloc kind).1.size ≤ parent := Nat.not_le.mpr (lt_size_alloc hparent kind)
  have hnew : ¬ (tree.alloc kind).1.size ≤ (tree.alloc kind).2 := Nat.not_le.mpr (size_lt_size_alloc kind)
  simp only [append, appendChild, if_neg hin, if_neg hnew]
  rfl

/-- A new leaf makes the tree grow. -/
theorem grows_grow (hinArena : ∀ {child parent}, tree.IsChild child parent → child < tree.size)
    (hparent : parent < tree.size) (kind : NodeKind) : tree.Grows (tree.grow parent kind).1 where
  kind {node} hnode := by rw [kind?_grow, if_neg (Nat.ne_of_lt hnode)]
  children node := by
    rw [children_grow hparent]
    exact List.sublist_append_left _ _
  inArena := hinArena

/-- A new leaf makes no cycle. -/
theorem Acyclic.grow (h : tree.Acyclic) (hparent : parent < tree.size) (kind : NodeKind) :
    (tree.grow parent kind).1.Acyclic := by
  have hsteps : (tree.alloc kind).1.IsChild = tree.IsChild := by
    funext child upper
    rw [IsChild, IsChild, children_alloc]
  have hacyclic : (tree.alloc kind).1.Acyclic := by
    rw [Acyclic, hsteps]
    exact h
  refine hacyclic.attach (lt_size_alloc hparent kind) ?_
  rw [hsteps]
  intro hbelow
  -- nothing lies below the place that has just been filled
  rcases hbelow.cases_tail with heq | ⟨child, -, hchild⟩
  · exact Nat.ne_of_lt hparent heq.symm
  · exact Nat.lt_irrefl _ (lt_size_of_isChild hchild)

/-- A new leaf that is put neither at a root nor below it leaves what lies there as it was. -/
theorem carries_grow (hinArena : ∀ {child parent}, tree.IsChild child parent → child < tree.size)
    (hparent : parent < tree.size) (kind : NodeKind) {root : NodeId} (hroot : root < tree.size)
    (happart : ¬ tree.Reaches root parent) : tree.Carries (tree.grow parent kind).1 root id := by
  have hin : ∀ {node}, tree.Reaches root node → node < tree.size := by
    intro node hnode
    rcases Relation.ReflTransGen.cases_head hnode with rfl | ⟨upper, hchild, -⟩
    · exact hroot
    · exact hinArena hchild
  constructor
  · intro node hnode
    rw [id_eq, kind?_grow, if_neg (Nat.ne_of_lt (hin hnode))]
    exact NodeKind.rel_refl _
  · intro node hnode
    have hne : node ≠ parent := fun heq => happart (heq ▸ hnode)
    rw [id_eq, children_grow hparent, if_neg hne, List.append_nil, List.map_id]

/-- Appending a node in the arena succeeds. The finds of a text without `first` and `not` below any root are
still found, in their order. Below a root that the new node is not put below every text finds what it found,
and the markup of the root is what it was. -/
theorem found_of_append (h : tree.Acyclic)
    (hinArena : ∀ {child parent}, tree.IsChild child parent → child < tree.size) {root : NodeId}
    (hparent : parent < tree.size) (hroot : root < tree.size) (kind : NodeKind) :
    ∃ after new, tree.append parent kind = .ok (after, new) ∧
      (∀ text selector, compiled text = .ok selector → selector.flags = [] → selector.Affirmative →
        ∃ finds finds', tree.found root text = .ok finds ∧ after.found root text = .ok finds' ∧
          finds.Sublist finds') ∧
      (¬ tree.Reaches root parent →
        (∀ text, after.found root text = tree.found root text) ∧
          after.outerMarkup root = tree.outerMarkup root ∧
          after.innerMarkup root = tree.innerMarkup root) := by
  have h' : (tree.grow parent kind).1.Acyclic := h.grow hparent kind
  refine ⟨(tree.grow parent kind).1, (tree.grow parent kind).2, append_eq_grow hparent kind, ?_, ?_⟩
  · intro text selector htext hflags haffirms
    exact ⟨_, _, found_eq htext tree root, found_eq htext _ root, selector.findAll_sublist
      (grows_grow hinArena hparent kind) h h' hflags (callerFree_of_compiled htext) haffirms root⟩
  · intro happart
    have hcarries := carries_grow hinArena hparent kind hroot happart
    refine ⟨fun text => ?_, hcarries.outerMarkup_eq h h', hcarries.innerMarkup_eq h h'⟩
    have hfound := hcarries.found_eq h h' text
    rw [id_eq] at hfound
    rw [hfound]
    cases tree.found root text with
    | error error => rfl
    | ok finds => rw [Except.map, List.map_id]

/-- A document of two elements, the first of which holds a text. -/
def secondEmpty : Tree :=
  ⟨#[⟨.document, none, [1, 2], none, none⟩, ⟨.element "a" .empty, some 0, [3], some 2, none⟩,
    ⟨.element "b" .empty, some 0, [], none, some 1⟩, ⟨.text "c", some 1, [], none, none⟩]⟩

/-- The same document with a comment in the second element. -/
def secondFilled : Tree :=
  ⟨#[⟨.document, none, [1, 2], none, none⟩, ⟨.element "a" .empty, some 0, [3], some 2, none⟩,
    ⟨.element "b" .empty, some 0, [4], none, some 1⟩, ⟨.text "c", some 1, [], none, none⟩,
    ⟨.comment "d", some 2, [], none, none⟩]⟩

/-- With the comment in it the second element is found as well where the first one was. In the first element
everything is found that was found there. -/
theorem found_of_append_comment :
    secondEmpty.Acyclic ∧ secondEmpty.append 2 (.comment "d") = .ok (secondFilled, 4) ∧
      secondEmpty.found 0 ":has(*)" = .ok [1] ∧ secondFilled.found 0 ":has(*)" = .ok [1, 2] ∧
      [1].Sublist [1, 2] ∧ ¬ secondEmpty.Reaches 1 2 ∧
      secondFilled.found 1 ":first" = secondEmpty.found 1 ":first" ∧
      secondFilled.outerMarkup 1 = secondEmpty.outerMarkup 1 := by
  have h : secondEmpty.Acyclic := acyclic_of_ascending (by decide)
  have h' : secondFilled.Acyclic := acyclic_of_ascending (by decide)
  have hinArena : ∀ {child parent}, secondEmpty.IsChild child parent → child < secondEmpty.size := by
    intro child parent hchild
    have hall : ∀ upper < secondEmpty.size, ∀ lower ∈ secondEmpty.children upper,
      lower < secondEmpty.size := by decide
    exact hall parent (lt_size_of_isChild hchild) child hchild
  have happend : secondEmpty.append 2 (.comment "d") = .ok (secondFilled, 4) := rfl
  have hhas : compiled ":has(*)" = .ok (.simple (.has (.simple .always))) := by
    have hnested : Grammar.AtMost 31 "*".toList := by decide
    exact (writesTest_has compiled_star hnested).compiled
  have haffirms : (Selector.simple (.has (.simple .always))).Affirmative :=
    ⟨⟨trivial, trivial, ⟨trivial, trivial⟩, trivial⟩, trivial⟩
  have hfinds : secondEmpty.found 0 ":has(*)" = .ok [1] := by
    have hchildren : secondEmpty.children 0 = [1, 2] ∧ secondEmpty.children 1 = [3] ∧
      secondEmpty.children 2 = [] ∧ secondEmpty.children 3 = [] := ⟨rfl, rfl, rfl, rfl⟩
    rw [found_eq hhas, Recursive.findAll_eq h]
    simp [Recursive.select, Recursive.stages, Recursive.stagesOf, Recursive.stage, Recursive.search,
      Recursive.descend_eq, Recursive.visit, Recursive.test, Selector.simple, hchildren, Trace.each,
      Trace.andThen, Trace.done, Trace.find, Trace.nodes, Trace.runAfter]
  have hfinds' : secondFilled.found 0 ":has(*)" = .ok [1, 2] := by
    have hchildren : secondFilled.children 0 = [1, 2] ∧ secondFilled.children 1 = [3] ∧
      secondFilled.children 2 = [4] ∧ secondFilled.children 3 = [] ∧ secondFilled.children 4 = [] :=
      ⟨rfl, rfl, rfl, rfl, rfl⟩
    rw [found_eq hhas, Recursive.findAll_eq h']
    simp [Recursive.select, Recursive.stages, Recursive.stagesOf, Recursive.stage, Recursive.search,
      Recursive.descend_eq, Recursive.visit, Recursive.test, Selector.simple, hchildren, Trace.each,
      Trace.andThen, Trace.done, Trace.find, Trace.nodes, Trace.runAfter]
  have happart : ¬ secondEmpty.Reaches 1 2 := by
    have hfirst : secondEmpty.children 1 = [3] := rfl
    have hthird : secondEmpty.children 3 = [] := rfl
    simp [reaches_iff 1, reaches_iff 3, hfirst, hthird]
  obtain ⟨after, new, hafter, hfound, -⟩ :=
    @found_of_append secondEmpty 2 h hinArena 0 (by decide) (by decide) (.comment "d")
  obtain ⟨after', new', hafter', -, hsame⟩ :=
    @found_of_append secondEmpty 2 h hinArena 1 (by decide) (by decide) (.comment "d")
  obtain ⟨rfl, -⟩ := Prod.mk.inj (Except.ok.inj (happend.symm.trans hafter))
  obtain ⟨rfl, -⟩ := Prod.mk.inj (Except.ok.inj (happend.symm.trans hafter'))
  obtain ⟨finds, finds', heq, heq', hsub⟩ := hfound ":has(*)" _ hhas rfl haffirms
  obtain ⟨htext, hmarkup, -⟩ := hsame happart
  rw [hfinds] at heq
  rw [hfinds'] at heq'
  obtain rfl := Except.ok.inj heq
  obtain rfl := Except.ok.inj heq'
  exact ⟨h, happend, hfinds, hfinds', hsub, happart, htext ":first", hmarkup⟩

end TreeQuery.Tree
