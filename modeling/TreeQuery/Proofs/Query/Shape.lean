import TreeQuery.Proofs.Markup.Levels
import TreeQuery.Proofs.Query.Restriction
import TreeQuery.Proofs.Search.Carrying
import TreeQuery.Proofs.Selector.Building

/-!
# Results depend on the shape alone

A text has no way to write a caller's test, so where nothing is registered what it compiles to carries
over to any part of a tree of the same shape. What a query below a root finds there, whether the root
passes, and the markup of the root are thus a matter of the shape at and below the root: the places in
the arena, the order in which they were filled, the nodes above and beside the root, and the order in
which attributes were given leave no trace.

Main statement: an isomorphism takes the finds of every text to the finds in the other tree, and keeps
errors, answers and markup.
-/

namespace TreeQuery

/-- No test of a caller stands in a list of predicates when none stands in any of them. -/
theorem testsCallerFree_iff {tests : List Predicate} :
    TestsCallerFree tests ↔ ∀ test ∈ tests, test.CallerFree := by
  induction tests with
  | nil => simp [TestsCallerFree]
  | cons test rest ih => rw [TestsCallerFree, ih, List.forall_mem_cons]

/-- No test of a caller stands in a list of parts when none stands in any of their predicates. -/
theorem partsCallerFree_iff {parts : List Part} :
    PartsCallerFree parts ↔ ∀ part ∈ parts, part.predicate.CallerFree := by
  induction parts with
  | nil => simp [PartsCallerFree]
  | cons part rest ih =>
    cases part
    rw [PartsCallerFree, ih, List.forall_mem_cons, Part.CallerFree]

/-- No test of a caller stands in a selector when none stands in any predicate of its parts. -/
theorem Selector.callerFree_iff {selector : Selector} :
    selector.CallerFree ↔ ∀ part ∈ selector.parts, part.predicate.CallerFree := by
  obtain ⟨head, rest⟩ := selector
  have hparts : PartsCallerFree (head :: rest) ↔ _ := partsCallerFree_iff
  exact hparts

namespace Grammar

/-- Every way of building keeps the library's tests alone, if what parameters denote has them alone. -/
theorem builds_callerFree {Inner : List Char → Selector → Prop}
    (hinner : ∀ raw selector, Inner raw selector → selector.CallerFree) :
    Builds Inner Predicate.CallerFree where
  always := trivial
  tag _ := trivial
  id _ := trivial
  hasClass _ := trivial
  first := trivial
  not h := (hinner _ _ h).1
  has h := hinner _ _ h
  all h := testsCallerFree_iff.mpr h

/-- What compiles on any number of levels has the library's tests alone. -/
theorem callerFree_of_compiles {levels : Nat} {raw : List Char} {selector : Selector}
    (h : Compiles (Plain.compileWithin levels) raw selector) : selector.CallerFree := by
  induction levels generalizing raw selector with
  | zero => simp [Compiles, Plain.compileWithin] at h
  | succ levels ih =>
    have hparts := (compileWithin_succ_iff.mp h).builds (builds_callerFree fun _ _ hinner => ih hinner)
    exact Selector.callerFree_iff.mpr hparts

end Grammar

/-- A text compiles to no test of a caller. -/
theorem callerFree_of_compiled {text : String} {selector : Selector} (h : compiled text = .ok selector) :
    selector.CallerFree :=
  Grammar.callerFree_of_compiles (compiled_eq_ok_iff.mp h).compiles_nestingLimit

namespace Tree

variable {tree tree' : Tree} {root : NodeId} {f : NodeId → NodeId}

/-- The finds of a text below a root are carried over, and its errors stay. -/
theorem Carries.found_eq (hcarries : tree.Carries tree' root f) (h : tree.Acyclic) (h' : tree'.Acyclic)
    (text : String) : tree'.found (f root) text = (tree.found root text).map (List.map f) := by
  rw [found_eq_map, found_eq_map]
  cases hcompiled : compiled text with
  | error error => rfl
  | ok selector => exact congrArg Except.ok (hcarries.findAll_eq h h' (callerFree_of_compiled hcompiled))

/-- The place that a root is mapped to passes a text where the root does, and fails as it does. -/
theorem Carries.passes_eq (hcarries : tree.Carries tree' root f) (h : tree.Acyclic) (h' : tree'.Acyclic)
    (text : String) : tree'.passes (f root) text = tree.passes root text := by
  rw [passes_eq_map, passes_eq_map]
  cases hcompiled : compiled text with
  | error error => rfl
  | ok selector =>
    have hfree := callerFree_of_compiled hcompiled
    cases hsimple : selector.toPredicate with
    | error error => simp only [Except.bind, hsimple, Except.map]
    | ok predicate =>
      rw [Grammar.toPredicate_eq_ok_iff.mp hsimple] at hfree
      simp only [Except.bind, hsimple, Except.map, hcarries.answer_eq h h' hfree.1]

/-- Between isomorphic parts of trees without cycles every text finds the images of what it finds, or fails
alike, and the roots pass the same texts and have the same markup. -/
theorem results_of_isomorphism {root' : NodeId} (h : tree.Acyclic) (h' : tree'.Acyclic)
    (hiso : tree.Isomorphism tree' root root' f) :
    (∀ text, tree'.found root' text = (tree.found root text).map (List.map f)) ∧
      (∀ text, tree'.passes root' text = tree.passes root text) ∧
      tree'.outerMarkup root' = tree.outerMarkup root ∧ tree'.innerMarkup root' = tree.innerMarkup root := by
  have hcarries := hiso.toCarries
  rw [← hiso.root_eq]
  exact ⟨hcarries.found_eq h h', hcarries.passes_eq h h', hcarries.outerMarkup_eq h h',
    hcarries.innerMarkup_eq h h'⟩

/-- A list with an item of two texts. -/
def topDown : Tree :=
  ⟨#[⟨.document, none, [1], none, none⟩,
    ⟨.element "ul" (.ofList [("id", "a"), ("class", "b")]), some 0, [2], none, none⟩,
    ⟨.element "li" .empty, some 1, [3, 4], none, none⟩, ⟨.text "x", some 2, [], some 4, none⟩,
    ⟨.text "y", some 2, [], none, some 3⟩]⟩

/-- The same list without a document above it, beside another one and with its last text made first. -/
def lastFirst : Tree :=
  ⟨#[⟨.document, none, [1], none, none⟩, ⟨.element "ul" .empty, some 0, [], none, none⟩,
    ⟨.element "ul" (.ofList [("class", "b"), ("id", "a")]), none, [3], none, none⟩,
    ⟨.element "li" .empty, some 2, [5, 4], none, none⟩, ⟨.text "y", some 3, [], none, some 5⟩,
    ⟨.text "x", some 3, [], some 4, none⟩]⟩

/-- Where the nodes of the list stand when its last text is made first. -/
def lastFirstPlace : NodeId → NodeId
  | 1 => 2
  | 2 => 3
  | 3 => 5
  | node => node

/-- The list is the same, whichever text is made first. -/
theorem isomorphism_lastFirst : topDown.Isomorphism lastFirst 1 2 lastFirstPlace := by
  have hlist : topDown.children 1 = [2] ∧ lastFirst.children 2 = [3] := ⟨rfl, rfl⟩
  have hitem : topDown.children 2 = [3, 4] ∧ lastFirst.children 3 = [5, 4] := ⟨rfl, rfl⟩
  have hfirst : topDown.children 3 = [] ∧ lastFirst.children 5 = [] := ⟨rfl, rfl⟩
  have hsecond : topDown.children 4 = [] ∧ lastFirst.children 4 = [] := ⟨rfl, rfl⟩
  have hreaches : ∀ node, topDown.Reaches 1 node ↔ node = 1 ∨ node = 2 ∨ node = 3 ∨ node = 4 := by
    intro node
    simp [reaches_iff 1, reaches_iff 2, reaches_iff 3,
      reaches_iff 4, hlist, hitem, hfirst, hsecond]
  have hreaches' : ∀ node, lastFirst.Reaches 2 node ↔ node = 2 ∨ node = 3 ∨ node = 5 ∨ node = 4 := by
    intro node
    simp [reaches_iff 2, reaches_iff 3, reaches_iff 5,
      reaches_iff 4, hlist, hitem, hfirst, hsecond]
  refine ⟨⟨?_, ?_⟩, ⟨?_, ?_, ?_⟩, rfl⟩
  · intro node hnode
    rcases (hreaches node).mp hnode with rfl | rfl | rfl | rfl
    · refine .some (.element "ul" fun name => ?_)
      by_cases hname : name = "id" <;> simp [Attributes.get?_ofList, Attributes.lookup_cons_ite, hname]
    · exact .some (.element "li" fun _ => rfl)
    · exact .some (.text "x")
    · exact .some (.text "y")
  · intro node hnode
    rcases (hreaches node).mp hnode with rfl | rfl | rfl | rfl <;> rfl
  · intro node hnode
    rcases (hreaches node).mp hnode with rfl | rfl | rfl | rfl <;> simp [hreaches', lastFirstPlace]
  · intro node hnode other hother heq
    rcases (hreaches node).mp hnode with rfl | rfl | rfl | rfl <;>
      rcases (hreaches other).mp hother with rfl | rfl | rfl | rfl <;> simp [lastFirstPlace] at heq ⊢
  · intro node hnode
    simp only [Set.mem_image, Set.mem_ofPred_eq, hreaches]
    rcases (hreaches' node).mp hnode with rfl | rfl | rfl | rfl <;> simp [lastFirstPlace]

/-- Below both lists the same nodes are found, at different places. -/
theorem results_lastFirst : topDown.Acyclic ∧ lastFirst.Acyclic ∧
    topDown.Isomorphism lastFirst 1 2 lastFirstPlace ∧ topDown.found 1 "*" = .ok [2, 3, 4] ∧
    lastFirst.found 2 "*" = .ok [3, 5, 4] ∧ lastFirst.outerMarkup 2 = topDown.outerMarkup 1 := by
  have h : topDown.Acyclic := acyclic_of_ascending (by decide)
  have h' : lastFirst.Acyclic := acyclic_of_ascending (by decide)
  obtain ⟨hfound, -, hmarkup, -⟩ := results_of_isomorphism h h' isomorphism_lastFirst
  have hstar : topDown.found 1 "*" = .ok [2, 3, 4] := by
    have hlist : topDown.children 1 = [2] := rfl
    have hitem : topDown.children 2 = [3, 4] := rfl
    have hfirst : topDown.children 3 = [] := rfl
    have hsecond : topDown.children 4 = [] := rfl
    rw [found_eq compiled_star, Recursive.findAll_eq h]
    simp [Recursive.select, Recursive.stages, Recursive.stagesOf, Recursive.stage, Recursive.search,
      Recursive.descend_eq, Recursive.visit, Recursive.test, Selector.simple, hlist, hitem, hfirst, hsecond,
      Trace.each, Trace.andThen, Trace.done, Trace.find, Trace.nodes]
  refine ⟨h, h', isomorphism_lastFirst, hstar, ?_, hmarkup⟩
  rw [hfound, hstar]
  rfl

end Tree

end TreeQuery
