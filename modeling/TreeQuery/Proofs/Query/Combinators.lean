import TreeQuery.Proofs.Query.Outcome
import TreeQuery.Proofs.Search.Composition
import TreeQuery.Proofs.Selector.Trimmed

/-!
# Blanks and `>` between two texts

Between two texts that compile, blanks and `>` are operators: the text that they make compiles to the
parts of both texts, and `>` bounds the first part of the second text to one level. What the whole text
finds follows from what the two texts find by themselves, one below the finds of the other.

Main statement: the parts of the combined texts and, without `first`, their finds.
-/

namespace TreeQuery

/-- The parts with the first of them bounded to one level. -/
def belowByOne (parts : List Part) : List Part := parts.modifyHead fun part => { part with depth := some 1 }

/-- A bound has no flags. -/
theorem flagsOfParts_belowByOne (parts : List Part) : flagsOfParts (belowByOne parts) = flagsOfParts parts := by
  cases parts with
  | nil => rfl
  | cons part rest =>
    cases part
    rfl

section

variable {text text' : String} {first second : Selector}

/-- With blanks between them two texts compile to the parts of both, unless the first one ends with `>`. -/
theorem exists_compiled_blanks (hfirst : compiled text = .ok first) (hsecond : compiled text' = .ok second)
    (htrim : Text.trim text = text) (htrim' : Text.trim text' = text')
    (hlast : text.toList.getLast? ≠ some '>') {blanks : String} (hne : blanks ≠ "")
    (hblanks : ∀ c ∈ blanks.toList, Text.isAsciiBlank c = true) :
    ∃ both, compiled (text ++ blanks ++ text') = .ok both ∧ both.parts = first.parts ++ second.parts := by
  obtain ⟨both, hboth, hparts⟩ := (compiled_eq_ok_iff.mp hfirst).append_blanks (compiled_eq_ok_iff.mp hsecond)
    (Text.trimmed_of_trim_eq htrim) (Text.trimmed_of_trim_eq htrim') hlast (by simpa using hne) hblanks
  refine ⟨both, compiled_eq_ok_iff.mpr ?_, hparts⟩
  rwa [String.toList_append, String.toList_append, List.append_assoc]

/-- With `>` between them two texts compile to the parts of both, and the second one begins one level
below the first, unless it begins with a `>` of its own. -/
theorem exists_compiled_child (hfirst : compiled text = .ok first) (hsecond : compiled text' = .ok second)
    (htrim : Text.trim text = text) (htrim' : Text.trim text' = text')
    (hhead : text'.toList.head? ≠ some '>') {blanks blanks' : String}
    (hblanks : ∀ c ∈ blanks.toList, Text.isAsciiBlank c = true)
    (hblanks' : ∀ c ∈ blanks'.toList, Text.isAsciiBlank c = true) :
    ∃ both, compiled (text ++ blanks ++ ">" ++ blanks' ++ text') = .ok both ∧
      both.parts = first.parts ++ belowByOne second.parts := by
  obtain ⟨both, hboth, hparts⟩ := (compiled_eq_ok_iff.mp hfirst).append_child (compiled_eq_ok_iff.mp hsecond)
    (Text.trimmed_of_trim_eq htrim) (Text.trimmed_of_trim_eq htrim') hhead hblanks hblanks'
  refine ⟨both, compiled_eq_ok_iff.mpr ?_, hparts⟩
  simpa [String.toList_append] using hboth

/-- With `>` in front of it a text begins one level below the start. -/
theorem exists_compiled_mark (hsecond : compiled text' = .ok second) (htrim' : Text.trim text' = text')
    (hhead : text'.toList.head? ≠ some '>') :
    ∃ marked, compiled (">" ++ text') = .ok marked ∧ marked.parts = belowByOne second.parts := by
  have hnone : ∀ c ∈ ([] : List Char), Text.isAsciiBlank c = true := by simp
  obtain ⟨marked, hmarked, hparts⟩ := (compiled_eq_ok_iff.mp hsecond).mark
    (Text.trimmed_of_trim_eq htrim') hhead hnone
  refine ⟨marked, compiled_eq_ok_iff.mpr ?_, hparts⟩
  simpa [String.toList_append] using hmarked

/-- Two trimmed texts combine to a text of the parts of both, by blanks if the first one does not end with
`>`, and by `>` if the second one does not begin with it. Without `first` the combined text finds below
every find of the first text, in order, what the second text finds there, with `>` in front of it in the
other case. -/
theorem combined_texts (hfirst : compiled text = .ok first) (hsecond : compiled text' = .ok second)
    (htrim : Text.trim text = text) (htrim' : Text.trim text' = text') :
    (∀ blanks : String, text.toList.getLast? ≠ some '>' → blanks ≠ "" →
      (∀ c ∈ blanks.toList, Text.isAsciiBlank c = true) →
      ∃ both, compiled (text ++ blanks ++ text') = .ok both ∧
        both.parts = first.parts ++ second.parts) ∧
    (∀ blanks blanks' : String, text'.toList.head? ≠ some '>' →
      (∀ c ∈ blanks.toList, Text.isAsciiBlank c = true) →
      (∀ c ∈ blanks'.toList, Text.isAsciiBlank c = true) →
      ∃ both, compiled (text ++ blanks ++ ">" ++ blanks' ++ text') = .ok both ∧
        both.parts = first.parts ++ belowByOne second.parts) ∧
    ∀ tree : Tree, tree.Acyclic → first.flags = [] → second.flags = [] → ∀ root,
      ∃ found : List NodeId, tree.found root text = .ok found ∧
        (text.toList.getLast? ≠ some '>' → ∃ below : NodeId → List NodeId,
          (∀ node, tree.found node text' = .ok (below node)) ∧
            tree.found root (text ++ " " ++ text') = .ok (found.flatMap below)) ∧
        (text'.toList.head? ≠ some '>' → ∃ below : NodeId → List NodeId,
          (∀ node, tree.found node (">" ++ text') = .ok (below node)) ∧
            tree.found root (text ++ " > " ++ text') = .ok (found.flatMap below)) := by
  have hspace : ∀ c ∈ " ".toList, Text.isAsciiBlank c = true := by simp; decide
  refine ⟨fun blanks hlast hne hblanks =>
      exists_compiled_blanks hfirst hsecond htrim htrim' hlast hne hblanks,
    fun blanks blanks' hhead hblanks hblanks' =>
      exists_compiled_child hfirst hsecond htrim htrim' hhead hblanks hblanks', ?_⟩
  intro tree hacyclic hflags hflags' root
  refine ⟨(first.findAll tree root).1, Tree.found_eq hfirst tree root, fun hlast => ?_, fun hhead => ?_⟩
  · obtain ⟨both, hboth, hparts⟩ :=
      exists_compiled_blanks hfirst hsecond htrim htrim' hlast (by decide) hspace
    refine ⟨fun node => (second.findAll tree node).1, Tree.found_eq hsecond tree, ?_⟩
    rw [Tree.found_eq hboth, Selector.findAll_append hacyclic hparts hflags hflags']
  · obtain ⟨both, hboth, hparts⟩ :=
      exists_compiled_child hfirst hsecond htrim htrim' hhead hspace hspace
    obtain ⟨marked, hmarked, hmarkedParts⟩ := exists_compiled_mark hsecond htrim' hhead
    have hmarkedFlags : marked.flags = [] := by
      rw [marked.flags_eq, hmarkedParts, flagsOfParts_belowByOne, ← second.flags_eq, hflags']
    have htext : text ++ " > " ++ text' = text ++ " " ++ ">" ++ " " ++ text' := by
      simp [← String.toList_inj, String.toList_append]
    rw [← hmarkedParts] at hparts
    refine ⟨fun node => (marked.findAll tree node).1, Tree.found_eq hmarked tree, ?_⟩
    rw [htext, Tree.found_eq hboth, Selector.findAll_append hacyclic hparts hflags hmarkedFlags]

end

/-- The nodes without children. -/
def leaves : Selector := .simple (.not (.has (.simple .always)))

/-- The leaves below anything, and those among its children. The leaf of the path lies below two nodes
and is a child of one. -/
theorem combined_texts_leaves :
    pathAndLeaf.Acyclic ∧ compiled "*" = .ok (.simple .always) ∧ compiled ":not(:has(*))" = .ok leaves ∧
      pathAndLeaf.found 0 "* :not(:has(*))" = .ok [3, 3] ∧
      pathAndLeaf.found 0 "* > :not(:has(*))" = .ok [3] := by
  have h : pathAndLeaf.Acyclic := Tree.acyclic_of_ascending (by decide)
  have hparents : compiled ":has(*)" = .ok (.simple (.has (.simple .always))) :=
    (writesTest_has compiled_star (by decide)).compiled
  have hleaves : compiled ":not(:has(*))" = .ok leaves := (writesTest_not hparents (by decide)).compiled
  obtain ⟨near, hnear, hnearParts⟩ := exists_compiled_mark hleaves (by decide) (by decide)
  obtain rfl : near = ⟨⟨some 1, leaves.head.predicate⟩, []⟩ := by
    obtain ⟨head, rest⟩ := near
    cases hnearParts
    rfl
  obtain ⟨found, hfound, hblanks, hchild⟩ :=
    (combined_texts compiled_star hleaves (by decide) (by decide)).2.2 pathAndLeaf h rfl rfl 0
  obtain ⟨below, hbelow, hblanks⟩ := hblanks (by decide)
  obtain ⟨children, hchildren, hchild⟩ := hchild (by decide)
  simp only [Tree.found_eq compiled_star, Tree.found_eq hleaves, Tree.found_eq hnear, Except.ok.injEq,
    Recursive.findAll_eq h] at hfound hbelow hchildren
  have hroot : pathAndLeaf.children 0 = [1, 4] := rfl
  have hfirst : pathAndLeaf.children 1 = [2] := rfl
  have hsecond : pathAndLeaf.children 2 = [3] := rfl
  have hthird : pathAndLeaf.children 3 = [] := rfl
  have hleaf : pathAndLeaf.children 4 = [] := rfl
  refine ⟨h, compiled_star, hleaves, hblanks.trans ?_, hchild.trans ?_⟩ <;>
    simp [← hfound, ← hbelow, ← hchildren, leaves, Recursive.select, Recursive.stages,
      Recursive.stagesOf, Recursive.stage, Recursive.search, Recursive.descend_eq, Recursive.visit,
      Recursive.test, Selector.simple, hroot, hfirst, hsecond, hthird, hleaf, Trace.each, Trace.andThen,
      Trace.done, Trace.find, Trace.nodes]

end TreeQuery
