import TreeQuery.Proofs.Query.Outcome
import TreeQuery.Proofs.Search.Composition
import TreeQuery.Proofs.Selector.Trimmed

/-!
# Tests behind a text

A test that is written behind a text that compiles makes a text that compiles, whose finds are some of
the finds of the first one: those that the test lets through, when it is made at them in order. What the
test lets through follows from its parameter. `not` and `has` ask nothing of the run where their
parameter has no `first` in it, so they filter. A flag that is down lets the first find through and no
other, whichever of the parts before it the finds come from.

Main statements: the finds of a text with `not`, `has` or `first` behind it.
-/

namespace TreeQuery

section

variable {tree : Tree}

/-- Without `first` a predicate answers alike in all runs, wherever its flags would be counted from. -/
theorem Predicate.test_eq_answer (h : tree.Acyclic) {predicate : Predicate} (hflags : predicate.flags = [])
    (base : Nat) (node : NodeId) (run : Run) :
    (predicate.test tree base node run).1 = (predicate.answer tree node).1 := by
  rw [Bool.eq_iff_iff, answer, ← Recursive.test_eq h, ← Recursive.test_eq h,
    Recursive.test_iff_holds h base predicate hflags, Recursive.test_iff_holds h 0 predicate hflags]

/-- Without `first` there is something below a node exactly when a search for all of it finds some. -/
theorem Predicate.answer_has (h : tree.Acyclic) {selector : Selector} (hflags : selector.flags = [])
    (node : NodeId) :
    ((Predicate.has selector).answer tree node).1 = !(selector.findAll tree node).1.isEmpty := by
  have hholds := Recursive.test_iff_holds h 0 (.has selector) hflags node (.ofFlags selector.flags)
  rw [Recursive.test_eq h] at hholds
  rw [Bool.eq_iff_iff, answer, Bool.not_eq_true', List.isEmpty_eq_false_iff,
    selector.findAll_eq_chains h hflags, ne_eq, List.map_eq_nil_iff]
  refine hholds.trans ?_
  simp only [Predicate.Holds, selector.isChain_iff, ← Recursive.mem_chains h]
  exact ⟨fun hsome => hsome.elim fun chain hchain => List.ne_nil_of_mem hchain,
    List.exists_mem_of_ne_nil _⟩

end

section

variable {text : String} {selector : Selector}

/-- A test behind a trimmed text sifts the finds of the text. It starts with its own flags, which stand
behind those of the text. -/
theorem exists_compiled_test (hcompiled : compiled text = .ok selector) (htrim : Text.trim text = text)
    {more : String} {extra : Predicate} (hmore : WritesTest more extra) :
    ∃ longer, compiled (text ++ more) = .ok longer ∧ longer.flags = selector.flags ++ extra.flags ∧
      ∀ tree : Tree, tree.Acyclic → ∀ root, (longer.findAll tree root).1 =
        (Test.sift (extra.test tree selector.flags.length) (selector.findAll tree root).1
          longer.freshRun).1 := by
  obtain ⟨longer, init, depth, earlier, hlonger, hparts, hlongerParts⟩ :=
    (compiled_eq_ok_iff.mp hcompiled).append_test (Text.trimmed_of_trim_eq htrim) hmore.trimmed
      hmore.test
  refine ⟨longer, compiled_eq_ok_iff.mpr ?_, Selector.flags_chain hparts hlongerParts,
    fun tree hacyclic root => Selector.findAll_chain hacyclic hparts hlongerParts root⟩
  rwa [String.toList_append]

/-- A test without `first` behind a trimmed text filters the finds of the text. -/
theorem exists_compiled_filter (hcompiled : compiled text = .ok selector) (htrim : Text.trim text = text)
    {more : String} {extra : Predicate} (hmore : WritesTest more extra) (hflags : extra.flags = []) :
    ∃ longer, compiled (text ++ more) = .ok longer ∧ ∀ tree : Tree, tree.Acyclic → ∀ root,
      (longer.findAll tree root).1 =
        (selector.findAll tree root).1.filter fun node => (extra.answer tree node).1 := by
  obtain ⟨longer, hlonger, -, hfinds⟩ := exists_compiled_test hcompiled htrim hmore
  refine ⟨longer, hlonger, fun tree hacyclic root => ?_⟩
  rw [hfinds tree hacyclic root]
  exact Test.sift_eq_filter (extra.test_eq_answer hacyclic hflags _) _ _

/-- The nodes below others. -/
def lower : Selector := ⟨⟨none, .always⟩, [⟨none, .always⟩]⟩

/-- Two stars apart compile to that. -/
theorem compiled_lower : compiled "* *" = .ok lower := by
  have htrimmed : Text.Trimmed "* *".toList := ⟨by simp; decide, by simp; decide⟩
  have hfirst : Grammar.Compound Grammar.Denotes "* *".toList ⟨none, .always⟩ ([' '] ++ ['*']) :=
    .plain (.any (.done [' ', '*'])) (by simp)
  have hsecond : Grammar.Compound Grammar.Denotes ['*'] ⟨none, .always⟩ [] :=
    .plain (.any (.done [])) (List.cons_ne_nil _ _)
  have hspace : ∀ c ∈ [' '], Text.isAsciiBlank c = true := by simp; decide
  exact compiled_eq_ok_iff.mpr ((Grammar.denotes_iff_of_trimmed htrimmed).mpr
    (.blanks hfirst (List.cons_ne_nil _ _) hspace (.last hsecond)))

/-- Below the document of the path and the leaf a node is found once for every other node above it. -/
theorem findAll_lower (h : pathAndLeaf.Acyclic) : (lower.findAll pathAndLeaf 0).1 = [2, 3, 3] := by
  have hroot : pathAndLeaf.children 0 = [1, 4] := rfl
  have hfirst : pathAndLeaf.children 1 = [2] := rfl
  have hsecond : pathAndLeaf.children 2 = [3] := rfl
  have hthird : pathAndLeaf.children 3 = [] := rfl
  have hleaf : pathAndLeaf.children 4 = [] := rfl
  rw [Recursive.findAll_eq h]
  simp [Recursive.select, Recursive.stages, Recursive.stagesOf, Recursive.stage, Recursive.search,
    Recursive.descend_eq, Recursive.visit, Recursive.test, lower, hroot, hfirst, hsecond, hthird, hleaf,
    Trace.each, Trace.andThen, Trace.done, Trace.find, Trace.nodes]

variable {inner : String} {test : Selector}

/-- Behind a trimmed text a `not` whose parameter is a single test without `first`, nested at most 31
deep, keeps the finds that do not pass the test, and a `has` with such a parameter, of any number of
parts, those below which the parameter finds something. Their order stays, and so do repeated finds. -/
theorem found_not_has (hcompiled : compiled text = .ok selector) (htrim : Text.trim text = text)
    (hinner : compiled inner = .ok test) (hflags : test.flags = [])
    (hnested : Grammar.AtMost 31 inner.toList) :
    (test.isSimple = true → ∃ others, compiled (text ++ ":not(" ++ inner ++ ")") = .ok others ∧
      ∀ tree : Tree, tree.Acyclic → ∀ root, ∃ (found : List NodeId) (pass : NodeId → Bool),
        tree.found root text = .ok found ∧ (∀ node, tree.passes node inner = .ok (pass node)) ∧
        tree.found root (text ++ ":not(" ++ inner ++ ")") = .ok (found.filter fun node => !pass node)) ∧
    ∃ parents, compiled (text ++ ":has(" ++ inner ++ ")") = .ok parents ∧
      ∀ tree : Tree, tree.Acyclic → ∀ root, ∃ (found : List NodeId) (below : NodeId → List NodeId),
        tree.found root text = .ok found ∧ (∀ node, tree.found node inner = .ok (below node)) ∧
        tree.found root (text ++ ":has(" ++ inner ++ ")") =
          .ok (found.filter fun node => !(below node).isEmpty) := by
  constructor
  · intro hsimple
    obtain ⟨predicate, rfl⟩ : ∃ predicate, test = .simple predicate :=
      ⟨_, Grammar.toPredicate_eq_ok_iff.mp (if_pos hsimple)⟩
    have hnone : (Predicate.not predicate).flags = [] := (List.append_eq_nil_iff.mp hflags).1
    obtain ⟨others, hothers, hfinds⟩ :=
      exists_compiled_filter hcompiled htrim (writesTest_not hinner hnested) hnone
    rw [← String.append_assoc, ← String.append_assoc] at hothers
    refine ⟨others, hothers, fun tree hacyclic root => ?_⟩
    refine ⟨_, _, Tree.found_eq hcompiled tree root, Tree.passes_eq hinner tree, ?_⟩
    rw [Tree.found_eq hothers, hfinds tree hacyclic root]
    rfl
  · obtain ⟨parents, hparents, hfinds⟩ :=
      exists_compiled_filter hcompiled htrim (writesTest_has hinner hnested) hflags
    rw [← String.append_assoc, ← String.append_assoc] at hparents
    refine ⟨parents, hparents, fun tree hacyclic root => ?_⟩
    refine ⟨_, _, Tree.found_eq hcompiled tree root, Tree.found_eq hinner tree, ?_⟩
    rw [Tree.found_eq hparents, hfinds tree hacyclic root]
    simp only [Predicate.answer_has hacyclic hflags]

/-- The nodes below others that have nothing below them, and those that have something. The leaf of the
path is below two nodes. -/
theorem found_not_has_lower :
    pathAndLeaf.Acyclic ∧ compiled "* *" = .ok lower ∧
      pathAndLeaf.found 0 "* *:not(:has(*))" = .ok [3, 3] ∧
      pathAndLeaf.found 0 "* *:has(*)" = .ok [2] := by
  have h : pathAndLeaf.Acyclic := Tree.acyclic_of_ascending (by decide)
  have hinner : compiled ":has(*)" = .ok (.simple (.has (.simple .always))) :=
    (writesTest_has compiled_star (by decide)).compiled
  obtain ⟨others, -, hothers⟩ :=
    (found_not_has compiled_lower (by decide) hinner rfl (by decide)).1 rfl
  obtain ⟨parents, -, hparents⟩ :=
    (found_not_has compiled_lower (by decide) compiled_star rfl (by decide)).2
  obtain ⟨found, pass, hfound, hpass, hothers⟩ := hothers pathAndLeaf h 0
  obtain ⟨found', below, hfound', hbelow, hparents⟩ := hparents pathAndLeaf h 0
  rw [Tree.found_eq compiled_lower, findAll_lower h, Except.ok.injEq] at hfound hfound'
  simp only [Tree.found_eq compiled_star, Tree.passes_eq hinner, Except.ok.injEq, Recursive.findAll_eq h,
    Predicate.answer, ← Recursive.test_eq h] at hpass hbelow
  have hsecond : pathAndLeaf.children 2 = [3] := rfl
  have hthird : pathAndLeaf.children 3 = [] := rfl
  refine ⟨h, compiled_lower, hothers.trans ?_, hparents.trans ?_⟩ <;>
    simp [← hfound, ← hfound', ← hpass, ← hbelow, Recursive.select, Recursive.stages, Recursive.stagesOf,
      Recursive.stage, Recursive.search, Recursive.descend_eq, Recursive.visit, Recursive.test,
      Selector.simple, hsecond, hthird, Trace.each, Trace.andThen, Trace.done, Trace.find, Trace.nodes]

/-- With `first` behind it a trimmed text finds the first of its finds, if it finds any, whichever of
the matches of its earlier parts that find lies below. -/
theorem found_first (hcompiled : compiled text = .ok selector) (htrim : Text.trim text = text) :
    ∃ once, compiled (text ++ ":first") = .ok once ∧
      ∀ tree : Tree, tree.Acyclic → ∀ root, ∃ found : List NodeId,
        tree.found root text = .ok found ∧ tree.found root (text ++ ":first") = .ok (found.take 1) ∧
        tree.foundFirst root (text ++ ":first") = tree.foundFirst root text := by
  obtain ⟨once, honce, hflags, hfinds⟩ := exists_compiled_test hcompiled htrim writesTest_first
  have hdown : once.freshRun.fired selector.flags.length = false := by
    simp [Selector.freshRun, Run.ofFlags, hflags, Predicate.flags]
  refine ⟨once, honce, fun tree hacyclic root => ?_⟩
  have htake : (once.findAll tree root).1 = (selector.findAll tree root).1.take 1 := by
    rw [hfinds tree hacyclic root]
    refine (Test.sift_ask selector.flags.length _ _).trans ?_
    rw [hdown, if_neg Bool.false_ne_true]
  refine ⟨_, Tree.found_eq hcompiled tree root, ?_, ?_⟩
  · rw [Tree.found_eq honce, htake]
  · rw [Tree.foundFirst_eq hacyclic honce, Tree.foundFirst_eq hacyclic hcompiled, htake,
      List.head?_take, if_neg Nat.one_ne_zero]

/-- Of the nodes below others the first one is found, and not the first below each. -/
theorem found_first_lower :
    pathAndLeaf.Acyclic ∧ compiled "* *" = .ok lower ∧ pathAndLeaf.found 0 "* *" = .ok [2, 3, 3] ∧
      pathAndLeaf.found 0 "* *:first" = .ok [2] ∧ pathAndLeaf.foundFirst 0 "* *:first" = .ok (some 2) := by
  have h : pathAndLeaf.Acyclic := Tree.acyclic_of_ascending (by decide)
  obtain ⟨once, -, honce⟩ := found_first compiled_lower (by decide)
  obtain ⟨found, hfound, htake, hfirst⟩ := honce pathAndLeaf h 0
  rw [Tree.found_eq compiled_lower, findAll_lower h, Except.ok.injEq] at hfound
  rw [Tree.foundFirst_eq h compiled_lower, findAll_lower h] at hfirst
  refine ⟨h, compiled_lower, ?_, ?_, hfirst⟩
  · rw [Tree.found_eq compiled_lower, findAll_lower h]
  · rw [← hfound] at htake
    exact htake

end

end TreeQuery
