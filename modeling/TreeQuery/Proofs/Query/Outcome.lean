import TreeQuery.Proofs.Search.Pulls
import TreeQuery.Proofs.Selector.Trimmed

/-!
# The outcomes of queries

What a query answers where nothing is registered, without the log of its compilation and the run that it
leaves. Every query compiles its text first and fails where that fails; otherwise it answers what the
compiled selector finds.

Main statements: a text compiles to what it denotes, a call of a built-in function writes a single test,
and the answers of the queries follow from what the text compiles to.
-/

namespace TreeQuery

/-- What a text compiles to where nothing is registered. -/
def compiled (text : String) : Except Selector.Error Selector :=
  (Functions.empty.compile (.text text)).outcome.1

namespace Tree

/-- All nodes below a node that a text finds where nothing is registered. -/
def found (tree : Tree) (node : NodeId) (text : String) : Except Selector.Error (List NodeId) :=
  (tree.selectAll node (.text text) .empty).outcome.1.map Prod.fst

/-- The first node below a node that a text finds where nothing is registered. -/
def foundFirst (tree : Tree) (node : NodeId) (text : String) : Except Selector.Error (Option NodeId) :=
  (tree.selectFirst node (.text text) .empty).outcome.1.map Prod.fst

/-- Whether a node passes a text where nothing is registered. -/
def passes (tree : Tree) (node : NodeId) (text : String) : Except Selector.Error Bool :=
  (tree.nodeMatches node (.text text) .empty).outcome.1.map Prod.fst

end Tree

/-- The outcome of a compilation that gives the same whatever its log holds. -/
theorem Compilation.Gives.outcome {α : Type} {compilation : Compilation α}
    {result : Except Selector.Error α} (h : compilation.Gives result) : compilation.outcome.1 = result :=
  h []

/-- A result that is already there is given. -/
theorem Compilation.gives_liftExcept {α : Type} (result : Except Selector.Error α) :
    Compilation.Gives (liftExcept result) result := by
  cases result with
  | error error => exact gives_throw error
  | ok value => exact gives_pure value

/-- A text gives the same whatever the log holds. -/
theorem gives_compile (text : String) : (Functions.empty.compile (.text text)).Gives (compiled text) := by
  have hplain := Plain.gives_compileWithin Functions.nestingLimit text
  have hcompiled : compiled text = Plain.compileWithin Functions.nestingLimit text := hplain.outcome
  rw [hcompiled]
  exact hplain

/-- As a single test a text gives the predicate of its selector, if that is one. -/
theorem gives_compileSimple (text : String) : (Functions.empty.compileSimple (.text text)).Gives
    ((compiled text).bind Selector.toPredicate) :=
  Compilation.gives_bind (gives_compile text) fun selector =>
    Compilation.gives_liftExcept selector.toPredicate

/-- A text compiles to a selector exactly when it denotes that selector. -/
theorem compiled_eq_ok_iff {text : String} {selector : Selector} :
    compiled text = .ok selector ↔ Grammar.Denotes text.toList selector := by
  have hcompiled : compiled text = Plain.compileWithin Functions.nestingLimit (.ofList text.toList) := by
    rw [String.ofList_toList]
    exact (Plain.gives_compileWithin Functions.nestingLimit text).outcome
  rw [hcompiled]
  exact ⟨Grammar.denotes_of_compiles, Grammar.Denotes.compiles_nestingLimit⟩

/-- A star compiles to what holds of every node. -/
theorem compiled_star : compiled "*" = .ok (.simple .always) := by
  have htrimmed : Text.Trimmed "*".toList := ⟨by simp; decide, by simp; decide⟩
  have hbody : Grammar.Body Grammar.Denotes "*".toList [] [] := .any (.done [])
  exact compiled_eq_ok_iff.mpr
    ((Grammar.denotes_iff_of_trimmed htrimmed).mpr (.last (.plain hbody (List.cons_ne_nil _ _))))

/-- A text that is a single test. -/
structure WritesTest (text : String) (predicate : Predicate) : Prop where
  trimmed : Text.Trimmed text.toList
  test : Grammar.Test Grammar.Denotes text.toList predicate []

section

variable {text : String} {predicate : Predicate} {selector : Selector}

/-- By itself a text of a single test compiles to that. -/
theorem WritesTest.compiled (h : WritesTest text predicate) : compiled text = .ok (.simple predicate) := by
  obtain ⟨mark, tail, htext, -⟩ := h.test.marked
  have hbody : Grammar.Body Grammar.Denotes text.toList [predicate] [] := .bare (.more h.test (.done _))
  refine compiled_eq_ok_iff.mpr ((Grammar.denotes_iff_of_trimmed h.trimmed).mpr (.last (.plain hbody ?_)))
  rw [htext]
  exact List.cons_ne_nil mark tail

/-- A `not` whose parameter compiles to a single test. -/
theorem writesTest_not (h : TreeQuery.compiled text = .ok (.simple predicate))
    (hnested : Grammar.AtMost 31 text.toList) : WritesTest (":not(" ++ text ++ ")") (.not predicate) := by
  have hdenotes := compiled_eq_ok_iff.mp h
  have htext : (":not(" ++ text ++ ")").toList =
      ':' :: ("not".toList ++ '(' :: (text.toList ++ [')'])) := by simp
  constructor
  · rw [htext]
    exact Text.trimmed_call _ _
  · rw [htext]
    exact .not (hdenotes.balanced hnested) hdenotes

/-- A `has` whose parameter compiles. -/
theorem writesTest_has (h : TreeQuery.compiled text = .ok selector)
    (hnested : Grammar.AtMost 31 text.toList) : WritesTest (":has(" ++ text ++ ")") (.has selector) := by
  have hdenotes := compiled_eq_ok_iff.mp h
  have htext : (":has(" ++ text ++ ")").toList =
      ':' :: ("has".toList ++ '(' :: (text.toList ++ [')'])) := by simp
  constructor
  · rw [htext]
    exact Text.trimmed_call _ _
  · rw [htext]
    exact .has (hdenotes.balanced hnested) hdenotes

/-- A `first` without a parameter. -/
theorem writesTest_first : WritesTest ":first" (.first false) := by
  have hall : "first".toList.all Text.isIdentifierChar = true := by decide
  have hname : Grammar.Name "first".toList [] := ⟨by simp, List.all_eq_true.mp hall, by simp⟩
  exact ⟨⟨by simp; decide, by simp; decide⟩, .first hname (by simp)⟩

end

/-- A text finds what it compiles to finds, and fails as its compilation does. -/
theorem Tree.found_eq_map (tree : Tree) (node : NodeId) (text : String) :
    tree.found node text = (compiled text).map fun selector => (selector.findAll tree node).1 := by
  have hgives := Compilation.gives_bind (gives_compile text)
    fun compiled => Compilation.gives_pure (compiled.findAll tree node)
  have houtcome : tree.found node text = _ := congrArg (Except.map Prod.fst) hgives.outcome
  rw [houtcome]
  cases compiled text <;> rfl

/-- A text passes where the predicate of the single test that it compiles to does. It fails as its
compilation does, and where it is no single test. -/
theorem Tree.passes_eq_map (tree : Tree) (node : NodeId) (text : String) :
    tree.passes node text =
      ((compiled text).bind Selector.toPredicate).map fun predicate => (predicate.answer tree node).1 := by
  have hgives := Compilation.gives_bind (gives_compileSimple text)
    fun predicate => Compilation.gives_pure (predicate.answer tree node)
  have houtcome : tree.passes node text = _ := congrArg (Except.map Prod.fst) hgives.outcome
  rw [houtcome]
  cases (compiled text).bind Selector.toPredicate <;> rfl

section

variable {text : String} {selector : Selector}

/-- A text finds what its selector finds. -/
theorem Tree.found_eq (h : compiled text = .ok selector) (tree : Tree) (node : NodeId) :
    tree.found node text = .ok (selector.findAll tree node).1 := by
  rw [found_eq_map, h]
  rfl

/-- The first find of a text is the head of all its finds. -/
theorem Tree.foundFirst_eq {tree : Tree} (hacyclic : tree.Acyclic) (h : compiled text = .ok selector)
    (node : NodeId) : tree.foundFirst node text = .ok (selector.findAll tree node).1.head? := by
  have hgives := Compilation.gives_bind (gives_compile text)
    fun compiled => Compilation.gives_pure (compiled.findFirst tree node)
  rw [h] at hgives
  have hfirst : tree.foundFirst node text = .ok (selector.findFirst tree node).1 :=
    congrArg (Except.map Prod.fst) hgives.outcome
  rw [hfirst, Recursive.findFirst_eq hacyclic, Recursive.findAll_eq hacyclic]

/-- A single test passes where its predicate does. -/
theorem Tree.passes_eq {predicate : Predicate} (h : compiled text = .ok (.simple predicate)) (tree : Tree)
    (node : NodeId) : tree.passes node text = .ok (predicate.answer tree node).1 := by
  rw [passes_eq_map, h]
  rfl

end

end TreeQuery
