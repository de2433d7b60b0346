import TreeQuery.Proofs.Query.Combinators
import TreeQuery.Proofs.Search.Lookup
import TreeQuery.Proofs.Selector.Lookahead

/-!
# Lookups and selections

A lookup needs no selector: it walks below a node and asks one predicate. A selection of one part keeps the
same walk on a stack of its own, and gives up with the walk. So both find the same nodes, ask the same
tests in the same order and leave the same flags, on any arena and for any predicate.

Main statement: lookups by class, by tag and by `id` find what the texts for them select, at any depth from
the start for a text alone, among its children for a text behind `>`, and within any level for a selector
that is built by hand.
-/

namespace TreeQuery

/-- The selector of one part that looks down to a level. -/
def Selector.within (level : Option Nat) (predicate : Predicate) : Selector := ⟨⟨level, predicate⟩, []⟩

namespace Search

variable {tree : Tree}

/-- A search along one stage goes on as its walk does, and ends with it. -/
theorem next_single (test : Test) (walk : Walk) (run : Run) :
    Search.next tree [⟨test, [], walk⟩] run =
      match walk.next tree test run with
      | (none, run) => (none, run)
      | (some (node, after), run) => (some (node, [⟨test, [], after⟩]), run) := by
  rw [Search.next_cons]
  rcases walk.next tree test run with ⟨_ | ⟨node, after⟩, run'⟩
  · dsimp only
    rw [Search.next]
  · rfl

/-- A search along one stage finds what its walk does, in the same run. -/
theorem collect_single (test : Test) (walk : Walk) (run : Run) :
    Search.collect tree [⟨test, [], walk⟩] run = walk.collect tree test run := by
  fun_induction Walk.collect tree test walk run with
  | case1 walk run run' hnext => rw [Search.collect_eq, next_single, hnext]
  | case2 walk run node after run' hnext nodes last hcollect ih =>
    rw [Search.collect_eq, next_single, hnext]
    simp only [ih, hcollect]

end Search

namespace Tree

/-- All nodes below a node that a selector finds which is given as it is. -/
def foundBy (tree : Tree) (node : NodeId) (selector : Selector) : Except Selector.Error (List NodeId) :=
  (tree.selectAll node (.compiled selector) .empty).outcome.1.map Prod.fst

/-- A lookup is a selection along its predicate: with any predicate and in any run it finds the same nodes
and leaves the same run. -/
theorem nodesBy_eq_collect (tree : Tree) (start : NodeId) (predicate : Predicate) (level : Option Nat)
    (run : Run) :
    tree.nodesBy start predicate level run =
      ((Selector.within level predicate).search tree 0 start).collect tree run :=
  (Search.collect_single (predicate.test tree 0) (Walk.start tree start level) run).symm

/-- The first find of a lookup is that of the selection along its predicate, in the same run. -/
theorem firstNodeBy_eq_next (tree : Tree) (start : NodeId) (predicate : Predicate) (level : Option Nat)
    (run : Run) :
    tree.firstNodeBy start predicate level run =
      (((Selector.within level predicate).search tree 0 start).next tree run).map (Option.map Prod.fst) id := by
  have hsearch : (Selector.within level predicate).search tree 0 start =
      [⟨predicate.test tree 0, [], Walk.start tree start level⟩] := rfl
  rw [firstNodeBy, hsearch, Search.next_single]
  rcases (Walk.start tree start level).next tree (predicate.test tree 0) run with ⟨_ | ⟨node, after⟩, run'⟩ <;>
    rfl

/-- A fresh selector of one part finds what a fresh lookup finds. -/
theorem findAll_within (tree : Tree) (start : NodeId) (predicate : Predicate) (level : Option Nat) :
    (Selector.within level predicate).findAll tree start =
      tree.nodesBy start predicate level (freshRun predicate) := by
  have hflags : (Selector.within level predicate).flags = predicate.flags := by
    rw [Selector.flags_eq]
    simp [Selector.within, Selector.parts, flagsOfParts, Part.flags]
  rw [nodesBy_eq_collect, Selector.findAll, Selector.freshRun, freshRun, hflags]

/-- Given as it is, a selector of one part finds what a fresh lookup finds. -/
theorem foundBy_within (tree : Tree) (start : NodeId) (predicate : Predicate) (level : Option Nat) :
    tree.foundBy start (.within level predicate) =
      .ok (tree.nodesBy start predicate level (freshRun predicate)).1 := by
  rw [← findAll_within]
  rfl

/-- Finds at every level below a start that a text selects: by itself those at any level, behind `>` those
among the children, and as a selector that is built by hand those within each level. -/
structure Selected (tree : Tree) (start : NodeId) (text : String) (predicate : Predicate)
    (finds : Option Nat → List NodeId) : Prop where
  alone : tree.found start text = .ok (finds none)
  child : tree.found start (">" ++ text) = .ok (finds (some 1))
  built : ∀ level, tree.foundBy start (.within level predicate) = .ok (finds level)

end Tree

section

variable {name : String}

/-- An identifier has no blanks. -/
theorem isBlank_of_isIdentifier (h : Text.isIdentifier name.toList = true) {c : Char}
    (hc : c ∈ name.toList) : Text.isBlank c = false :=
  (Grammar.plain_of_isIdentifierChar ((Compound.name_of_isIdentifier h).all c hc)).2

/-- An identifier behind a mark is a single test if the grammar has it so. -/
theorem writesTest_named (h : Text.isIdentifier name.toList = true) {mark : Char} {text : String}
    {predicate : Predicate} (htext : text.toList = mark :: (name.toList ++ []))
    (hmark : Text.isBlank mark = false)
    (htest : Grammar.Test Grammar.Denotes (mark :: (name.toList ++ [])) predicate []) :
    WritesTest text predicate where
  trimmed := by
    rw [htext, List.append_nil]
    refine Text.trimmed_of_forall (List.forall_mem_cons.mpr ⟨hmark, fun c hc => ?_⟩)
    exact isBlank_of_isIdentifier h hc
  test := by
    rw [htext]
    exact htest

/-- A class behind its mark is a single test. -/
theorem writesTest_hasClass (h : Text.isIdentifier name.toList = true) :
    WritesTest ("." ++ name) (.hasClass name) := by
  refine writesTest_named h (by simp) (by decide : Text.isBlank '.' = false) ?_
  have htest : Grammar.Test Grammar.Denotes _ _ [] := .hasClass (Compound.name_of_isIdentifier h)
  rwa [String.ofList_toList] at htest

/-- An `id` behind its mark is a single test. -/
theorem writesTest_id (h : Text.isIdentifier name.toList = true) : WritesTest ("#" ++ name) (.id name) := by
  refine writesTest_named h (by simp) (by decide : Text.isBlank '#' = false) ?_
  have htest : Grammar.Test Grammar.Denotes _ _ [] := .id (Compound.name_of_isIdentifier h)
  rwa [String.ofList_toList] at htest

/-- An identifier compiles to its tag. -/
theorem compiled_tag (h : Text.isIdentifier name.toList = true) :
    compiled name = .ok (.simple (.ofTag name)) := by
  have hname := Compound.name_of_isIdentifier h
  have htrimmed := Text.trimmed_of_forall fun c hc => isBlank_of_isIdentifier h hc
  have hbody : Grammar.Body Grammar.Denotes (name.toList ++ []) [.tag _] [] := .tag hname (.done [])
  rw [List.append_nil] at hbody
  exact compiled_eq_ok_iff.mpr ((Grammar.denotes_iff_of_trimmed htrimmed).mpr (.last (.plain hbody hname.ne_nil)))

end

/-- A trimmed text of a single test selects what lookups with the test find. -/
theorem Tree.selected_nodesBy {text : String} {predicate : Predicate}
    (h : compiled text = .ok (.simple predicate)) (htrimmed : Text.Trimmed text.toList)
    (hhead : text.toList.head? ≠ some '>') (tree : Tree) (start : NodeId) :
    tree.Selected start text predicate
      fun level => (tree.nodesBy start predicate level (freshRun predicate)).1 := by
  refine ⟨?alone, ?child, fun level => ?built⟩
  case alone =>
    rw [Tree.found_eq h, ← findAll_within]
    rfl
  case child =>
    obtain ⟨⟨head, rest⟩, hmarked, hparts⟩ := exists_compiled_mark h htrimmed.trim_eq hhead
    cases hparts
    rw [Tree.found_eq hmarked, ← findAll_within]
    rfl
  case built => exact Tree.foundBy_within tree start predicate level

/-- With any predicate, in any run and down to any level a lookup finds the nodes that the search with the
selector of that one part finds, and both leave the same flags and log the same events, also when they stop
at their first find, which is the head of all finds. So lookups by class and by tag find what the text of an
identifier selects with and without its mark, those among the children what the text behind `>` selects, and
those within a level what the selector of the level does; a lookup by `id` finds the head of these. -/
theorem lookups_eq_selections (tree : Tree) (start : NodeId) :
    (∀ predicate level run,
      tree.nodesBy start predicate level run =
        ((Selector.within level predicate).search tree 0 start).collect tree run ∧
      tree.firstNodeBy start predicate level run =
        (((Selector.within level predicate).search tree 0 start).next tree run).map
          (Option.map Prod.fst) id ∧
      (tree.firstNodeBy start predicate level run).1 = (tree.nodesBy start predicate level run).1.head?) ∧
    ∀ name : String, Text.isIdentifier name.toList = true →
      tree.Selected start ("." ++ name) (.hasClass name) (tree.elementsByClass start name) ∧
      tree.Selected start name (.ofTag name) (tree.elementsByTag start name) ∧
      (∀ level, tree.firstElementByClass start name level = (tree.elementsByClass start name level).head? ∧
        tree.firstElementByTag start name level = (tree.elementsByTag start name level).head?) ∧
      ∃ finds, tree.Selected start ("#" ++ name) (.id name) finds ∧
        ∀ level, tree.elementById start name level = (finds level).head? := by
  refine ⟨fun predicate level run => ⟨tree.nodesBy_eq_collect start predicate level run,
    tree.firstNodeBy_eq_next start predicate level run,
    tree.firstNodeBy_eq_head? start predicate level run⟩, fun name hname => ?_⟩
  have hclass := writesTest_hasClass hname
  have hid := writesTest_id hname
  have htrimmed := Text.trimmed_of_forall fun c hc => isBlank_of_isIdentifier hname hc
  have hhead : name.toList.head? ≠ some '>' := by
    obtain ⟨c, tail, htail, hc⟩ := (Compound.name_of_isIdentifier hname).head
    rw [htail]
    exact fun heq => Grammar.ne_of_class hc (by decide) (Option.some.inj heq)
  refine ⟨Tree.selected_nodesBy hclass.compiled hclass.trimmed (by simp) tree start,
    Tree.selected_nodesBy (compiled_tag hname) htrimmed hhead tree start,
    fun level => ⟨tree.firstNodeBy_eq_head? .., tree.firstNodeBy_eq_head? ..⟩,
    _, Tree.selected_nodesBy hid.compiled hid.trimmed (by simp) tree start,
    fun level => tree.firstNodeBy_eq_head? ..⟩

/-- A list whose items are checked or not, with one that has both a class and an `id`. -/
def checklist : Tree :=
  ⟨#[⟨.document, none, [1], none, none⟩,
    ⟨.element "ul" (.ofList [("class", "done long")]), some 0, [2, 3], none, none⟩,
    ⟨.element "li" .empty, some 1, [], some 3, none⟩,
    ⟨.element "LI" (.ofList [("class", "done"), ("id", "done")]), some 1, [], none, some 2⟩]⟩

theorem wellFormed_checklist : checklist.WellFormed :=
  Tree.wellFormed_of_ascending (by decide) (by decide) (by decide)

/-- The list and its last item have the class, and the item has the `id` as well. -/
theorem nodesBy_checklist :
    checklist.elementsByClass 0 "done" none = [1, 3] ∧ checklist.elementsByClass 0 "done" (some 1) = [1] ∧
      (checklist.nodesBy 0 (.id "done") none (Tree.freshRun (.id "done"))).1 = [3] := by
  have hroot : checklist.children 0 = [1] := rfl
  have hlist : checklist.children 1 = [2, 3] := rfl
  have hfirst : checklist.children 2 = [] := rfl
  have hlast : checklist.children 3 = [] := rfl
  have hclass : checklist.hasClass 1 "done" = true ∧ checklist.hasClass 2 "done" = false ∧
    checklist.hasClass 3 "done" = true := by decide
  have hid : checklist.id? 1 = none ∧ checklist.id? 2 = none ∧ checklist.id? 3 = some "done" := by decide
  unfold Tree.elementsByClass
  refine ⟨?_, ?_, ?_⟩ <;> rw [Recursive.nodesBy_eq wellFormed_checklist.acyclic] <;>
    simp [Recursive.descend_eq, Recursive.visit, Recursive.test, hroot, hlist, hfirst, hlast, hclass, hid,
      Trace.each, Trace.andThen, Trace.done, Trace.find, Trace.nodes]

/-- What is done is found by class and by text alike, below the document and among its children, and by
`id` as the head of what its text selects. -/
theorem lookups_eq_selections_done :
    Text.isIdentifier "done".toList = true ∧
      checklist.elementsByClass 0 "done" none = [1, 3] ∧ checklist.found 0 ".done" = .ok [1, 3] ∧
      checklist.elementsByClass 0 "done" (some 1) = [1] ∧ checklist.found 0 ">.done" = .ok [1] ∧
      checklist.found 0 "#done" = .ok [3] ∧ checklist.elementById 0 "done" none = some 3 := by
  have hname : Text.isIdentifier "done".toList = true := by decide
  obtain ⟨hall, hchildren, hitem⟩ := nodesBy_checklist
  obtain ⟨hclass, -, -, finds, hid, hfirst⟩ := (lookups_eq_selections checklist 0).2 "done" hname
  have hfinds : finds none = [3] := by
    have hbuilt := hid.built none
    rw [Tree.foundBy_within, hitem] at hbuilt
    exact (Except.ok.inj hbuilt).symm
  refine ⟨hname, hall, ?_, hchildren, ?_, ?_, ?_⟩
  · rw [← hall]
    exact hclass.alone
  · rw [← hchildren]
    exact hclass.child
  · rw [← hfinds]
    exact hid.alone
  · rw [hfirst none, hfinds]
    rfl

end TreeQuery
