import TreeQuery.Proofs.Search.Simulation

/-!
# Searches that are asked for one find at a time

A search is asked for its next find again and again, also after it has said that there is none. The
answers are the finds of the recursive search in order and then nothing for ever. What the search
has done by then, flags and visits alike, is what the recursive search has done when it is stopped
right after the last of these finds.
-/

namespace TreeQuery

/-- Ask a cursor for its next node so many times. An exhausted cursor is asked all the same. -/
def Cursor.pulls (tree : Tree) : Nat → Run → Cursor → List (Option NodeId) × Cursor × Run
  | 0, run, cursor => ([], cursor, run)
  | count + 1, run, cursor =>
    let (found, cursor, run) := cursor.next tree run
    let (answers, cursor, run) := pulls tree count run cursor
    (found :: answers, cursor, run)

namespace Trace

/-- Right after the first find the run is that of the find. -/
theorem runAfter_find (node : NodeId) (found : Run) (rest : Trace) (start : Run) (count : Nat) :
    (Trace.mk ((node, found) :: rest.finds) rest.last).runAfter start (count + 1) =
      rest.runAfter found count := by
  cases count <;> rfl

/-- A trace without finds ends with its last run, whenever it is looked at behind its start. -/
theorem runAfter_done (run : Run) (count : Nat) : (done run).runAfter run count = run := by
  cases count <;> rfl

end Trace

namespace Recursive

variable {tree : Tree}

/-- The answers and the run of a paused search after any number of calls. -/
theorem pulls_ofSearch (h : tree.Acyclic) (count : Nat) (paused : Search) (run : Run) :
    (Cursor.pulls tree count run (.searching paused)).1 =
        (List.range count).map ((ofSearch h paused run).nodes[·]?) ∧
      (Cursor.pulls tree count run (.searching paused)).2.2 =
        (ofSearch h paused run).runAfter run count := by
  induction count generalizing paused run with
  | zero => exact ⟨rfl, rfl⟩
  | succ count ih =>
    rw [ofSearch_next h paused run, List.range_succ_eq_map, List.map_cons, List.map_map]
    simp only [Cursor.pulls, Cursor.next]
    rcases paused.next tree run with ⟨_ | ⟨node, after⟩, run'⟩
    · obtain ⟨hanswers, hrun⟩ := ih [] run'
      refine ⟨congrArg (none :: ·) (hanswers.trans ?_), hrun.trans ?_⟩
      · rfl
      · exact Trace.runAfter_done run' count
    · obtain ⟨hanswers, hrun⟩ := ih after run'
      refine ⟨congrArg (some node :: ·) (hanswers.trans ?_), hrun.trans ?_⟩
      · rfl
      · exact (Trace.runAfter_find node run' (ofSearch h after run') run count).symm

/-- All finds of a selector, and the run behind them. -/
theorem findAll_eq (h : tree.Acyclic) (selector : Selector) (node : NodeId) :
    selector.findAll tree node = ((select h 0 selector node selector.freshRun).nodes,
      (select h 0 selector node selector.freshRun).last) := by
  rw [Selector.findAll, collect_eq_trace h, ofSearch_search]

/-- The first find of a selector, and the run right after it. -/
theorem findFirst_eq (h : tree.Acyclic) (selector : Selector) (node : NodeId) :
    selector.findFirst tree node = ((select h 0 selector node selector.freshRun).nodes.head?,
      (select h 0 selector node selector.freshRun).runAfter selector.freshRun 1) := by
  rw [← ofSearch_search h, ofSearch_next, Selector.findFirst]
  rcases (selector.search tree 0 node).next tree selector.freshRun with ⟨_ | ⟨found, after⟩, run'⟩ <;>
    rfl

end Recursive

/-- A search below an acyclic arena gives the finds of the recursive search one by one and then
nothing for ever. After any number of calls its flags and its log are those of the recursive search
stopped right after the last find that was given. So the first find of a selector is the head of all
its finds, and nothing behind it is tested. -/
theorem pulls_search_eq_recursive {tree : Tree} (h : tree.Acyclic) (selector : Selector) (base : Nat)
    (node : NodeId) (run : Run) (count : Nat) :
    (Cursor.pulls tree count run (.searching (selector.search tree base node))).1 =
        (List.range count).map ((Recursive.select h base selector node run).nodes[·]?) ∧
      (Cursor.pulls tree count run (.searching (selector.search tree base node))).2.2 =
        (Recursive.select h base selector node run).runAfter run count ∧
      selector.findAll tree node =
        ((Recursive.select h 0 selector node selector.freshRun).nodes,
          (Recursive.select h 0 selector node selector.freshRun).last) ∧
      selector.findFirst tree node =
        ((selector.findAll tree node).1.head?,
          (Recursive.select h 0 selector node selector.freshRun).runAfter selector.freshRun 1) ∧
      ∀ source functions, Prod.fst <$> tree.selectFirst node source functions =
        (fun found => found.1.head?) <$> tree.selectAll node source functions := by
  have hpulls := Recursive.pulls_ofSearch h count (selector.search tree base node) run
  rw [Recursive.ofSearch_search] at hpulls
  refine ⟨hpulls.1, hpulls.2, Recursive.findAll_eq h selector node, ?_, ?_⟩
  · rw [Recursive.findFirst_eq h, Recursive.findAll_eq h]
  · intro source functions
    simp only [Tree.selectFirst, Tree.selectAll, map_bind, map_pure]
    congr 1
    funext compiled
    rw [Recursive.findFirst_eq h, Recursive.findAll_eq h]

/-- A document with two texts that share their only child. -/
def sharedChild : Tree :=
  ⟨#[⟨.document, none, [1, 2], none, none⟩, ⟨.text "a", some 0, [3], some 2, none⟩,
    ⟨.text "b", some 0, [3], none, some 1⟩, ⟨.text "c", some 2, [], none, none⟩]⟩

/-- The first child of anything that has a child, where a spent flag is asked on the way. -/
def firstGrandchild : Selector :=
  ⟨⟨none, .all [.has ⟨⟨some 1, .custom fun _ _ => true⟩, []⟩, .not (.first true)]⟩,
    [⟨some 1, .first false⟩]⟩

/-- The shared child is reached twice, but its flag lets it pass once. The caller's test looks at it
below either parent, the second time only when the search is asked again. -/
theorem pulls_search_sharedChild :
    sharedChild.Acyclic ∧
      (Cursor.pulls sharedChild 3 firstGrandchild.freshRun
        (.searching (firstGrandchild.search sharedChild 0 0))).1 = [some 3, none, none] ∧
      (Cursor.pulls sharedChild 1 firstGrandchild.freshRun
        (.searching (firstGrandchild.search sharedChild 0 0))).2.2.visits = [3] ∧
      (Cursor.pulls sharedChild 2 firstGrandchild.freshRun
        (.searching (firstGrandchild.search sharedChild 0 0))).2.2.visits = [3, 3] := by
  have h : sharedChild.Acyclic := Tree.acyclic_of_ascending (by decide)
  have hroot : sharedChild.children 0 = [1, 2] := rfl
  have hleft : sharedChild.children 1 = [3] := rfl
  have hright : sharedChild.children 2 = [3] := rfl
  have hshared : sharedChild.children 3 = [] := rfl
  have hfresh : firstGrandchild.freshRun = .ofFlags [true, false] := rfl
  have hpulls := pulls_search_eq_recursive h firstGrandchild 0 0 firstGrandchild.freshRun
  rw [(hpulls 3).1, (hpulls 1).2.1, (hpulls 2).2.1, hfresh]
  refine ⟨h, ?_, ?_, ?_⟩ <;>
    simp [Recursive.select, Recursive.stages, Recursive.stagesOf, Recursive.stage, Recursive.search,
      Recursive.descend_eq, Recursive.visit, Recursive.test, Recursive.testAll, firstGrandchild, hroot,
      hleft, hright, hshared, Trace.each, Trace.andThen, Trace.done, Trace.find, Trace.nodes,
      Trace.runAfter, Run.ofFlags, Run.visit, Run.ask, Run.visits, Run.log, Event.visited?, List.filterMap,
      Part.flags, Predicate.flags, flagsOfTests, flagsOfParts, Selector.flags, List.range, List.range.loop]

end TreeQuery
