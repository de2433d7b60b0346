import TreeQuery.Proofs.Search.Recursive
import TreeQuery.Search.Session

/-!
# Paused searches do what the recursion does

A paused walk stands for what it still has to do, frame by frame, and a paused search for what its
walks still have to do, level by level. One step of the stacks takes the first find off that trace
and leaves the rest of it, so any number of steps follows the recursion find by find.

Main statement: after any number of calls a search has given the finds of the recursion in order and
nothing behind them, and its run is the run of the recursion right after the last of these finds.
-/

namespace TreeQuery

namespace Recursive

variable {tree : Tree}

/-- What is still to come of a paused walk. -/
def ofWalk (h : tree.Acyclic) (test : Test) (found : NodeId → Run → Trace) : Walk → Run → Trace
  | [] => .done
  | frame :: below => fun run =>
    (Trace.each (visit h test found (some frame.bound)) frame.pending run).andThen
      (ofWalk h test found below)

/-- What is still to come of a paused search. -/
def ofSearch (h : tree.Acyclic) : Search → Run → Trace
  | [] => .done
  | level :: below => fun run =>
    (ofWalk h level.test (search h level.rest) level.walk run).andThen (ofSearch h below)

/-- A walk that cannot advance has nothing to do. -/
theorem ofWalk_of_advance_none (h : tree.Acyclic) (test : Test) (found : NodeId → Run → Trace)
    {walk : Walk} (hadvance : walk.advance tree = none) : ofWalk h test found walk = .done := by
  induction walk with
  | nil => rfl
  | cons frame below ih =>
    obtain ⟨pending, bound⟩ := frame
    cases pending with
    | nil =>
      funext run
      simp [ofWalk, ih (by simpa [Walk.advance] using hadvance)]
    | cons child pending => simp [Walk.advance] at hadvance

/-- Advancing a walk takes one child off it: the test of that child and what follows if it holds. The
way down from the child is the first thing that the walk still has to do. -/
theorem ofWalk_of_advance (h : tree.Acyclic) (test : Test) (found : NodeId → Run → Trace)
    {walk after : Walk} {node : NodeId} (hadvance : walk.advance tree = some (node, after)) (run : Run) :
    ofWalk h test found walk run =
      (if (test node run).1 then found node (test node run).2
        else .done (test node run).2).andThen (ofWalk h test found after) := by
  induction walk with
  | nil => simp [Walk.advance] at hadvance
  | cons frame below ih =>
    obtain ⟨pending, bound⟩ := frame
    cases pending with
    | nil =>
      rw [← ih (by simpa [Walk.advance] using hadvance)]
      simp [ofWalk]
    | cons child pending =>
      simp only [Walk.advance, Option.some.injEq, Prod.mk.injEq] at hadvance
      obtain ⟨rfl, rfl⟩ := hadvance
      have hbelow : ofWalk h test found
          (if 1 < bound then ⟨tree.children child, bound - 1⟩ :: ⟨pending, bound⟩ :: below
            else ⟨pending, bound⟩ :: below) =
          fun run => (descend h test found (some (bound - 1)) child run).andThen
            (ofWalk h test found (⟨pending, bound⟩ :: below)) := by
        funext run
        by_cases hbound : 1 < bound
        · rw [if_pos hbound, descend_eq, if_neg (by simp; omega)]
          rfl
        · rw [if_neg hbound, descend_eq, if_pos (by simp; omega), Trace.done_andThen]
      rw [hbelow]
      simp only [ofWalk, Trace.each, visit, Trace.andThen_assoc, Option.map_some]

/-- The search for the next node that passes follows the trace of the walk up to that node. -/
theorem ofWalk_next (h : tree.Acyclic) (test : Test) (found : NodeId → Run → Trace) (walk : Walk)
    (run : Run) :
    ofWalk h test found walk run =
      match walk.next tree test run with
      | (none, run) => .done run
      | (some (node, after), run) => (found node run).andThen (ofWalk h test found after) := by
  fun_induction Walk.next tree test walk run with
  | case1 walk run hadvance => rw [ofWalk_of_advance_none h test found hadvance]
  | case2 walk run node after hadvance run' htest =>
    rw [ofWalk_of_advance h test found hadvance, htest]
    rfl
  | case3 walk run node after hadvance run' htest ih =>
    rw [ofWalk_of_advance h test found hadvance, htest, ← ih]
    rfl

/-- A walk that has just begun does what going down does. The horizon lies below every path. -/
theorem ofWalk_start (h : tree.Acyclic) (test : Test) (found : NodeId → Run → Trace) (node : NodeId)
    (depth : Option Nat) :
    ofWalk h test found (.start tree node depth) = descend h test found depth node := by
  unfold Walk.start
  split
  next hzero => rw [descend_eq, if_pos hzero, ofWalk]
  next hpos =>
    have hbound : descend h test found (some (depth.getD tree.horizon)) node =
        descend h test found depth node := by
      cases depth with
      | some levels => rfl
      | none =>
        -- no path is longer than the arena, so the horizon leaves nothing out
        apply descend_some_eq_none h test found
        intro count last hpath
        have := hpath.le_size h
        simp only [Option.getD_none, Tree.horizon]
        omega
    have hne : some (depth.getD tree.horizon) ≠ some 0 := by
      cases depth with
      | some levels => exact hpos
      | none => simp [Tree.horizon]
    rw [← hbound, descend_eq, if_neg hne]
    funext run
    simp [ofWalk]

/-- Entering a stage below a node adds what the rest of the chain finds there. -/
theorem ofSearch_enter (h : tree.Acyclic) (node : NodeId) (stage : Stage) (rest : List Stage)
    (below : Search) (run : Run) :
    ofSearch h (Search.enter tree node stage rest :: below) run =
      (search h (stage :: rest) node run).andThen (ofSearch h below) := by
  rw [ofSearch, search]
  simp only [Search.enter]
  rw [ofWalk_start]

/-- The search for the next find follows the trace of the search up to that find. -/
theorem ofSearch_next (h : tree.Acyclic) (paused : Search) (run : Run) :
    ofSearch h paused run =
      match paused.next tree run with
      | (none, run) => .done run
      | (some (node, after), run) => (Trace.find node run).andThen (ofSearch h after) := by
  fun_induction Search.next tree paused run with
  | case1 run => rfl
  | case2 run level below run' hwalk ih =>
    rw [ofSearch]
    simp only
    rw [ofWalk_next, hwalk, ← ih]
    rfl
  | case3 run level below node walk run' hwalk paused hrest =>
    rw [ofSearch]
    simp only
    rw [ofWalk_next, hwalk]
    simp only [paused, hrest, search, ofSearch, Trace.andThen_assoc]
  | case4 run level below node walk run' hwalk paused stage rest hrest ih =>
    rw [← ih, ofSearch_enter, ofSearch]
    simp only
    rw [ofWalk_next, hwalk]
    simp only [paused, hrest, ofSearch, Trace.andThen_assoc]

/-- A search that has just begun does what the recursion does. -/
theorem ofSearch_start (h : tree.Acyclic) (node : NodeId) (stage : Stage) (rest : List Stage) :
    ofSearch h (.start tree node stage rest) = search h (stage :: rest) node := by
  funext run
  rw [Search.start, ofSearch_enter, ofSearch, Trace.andThen_done]

/-- The first find of a search that has just begun is the first find of the recursion, and its run is
the run of the recursion at that find. -/
theorem next_start (h : tree.Acyclic) (node : NodeId) (stage : Stage) (rest : List Stage) (run : Run) :
    ((Search.start tree node stage rest).next tree run).1.isSome =
        !(search h (stage :: rest) node run).finds.isEmpty ∧
      ((Search.start tree node stage rest).next tree run).2 =
        (search h (stage :: rest) node run).runAfter run 1 := by
  have htrace := ofSearch_next h (Search.start tree node stage rest) run
  rw [ofSearch_start] at htrace
  rw [htrace]
  rcases (Search.start tree node stage rest).next tree run with ⟨_ | ⟨found, after⟩, run'⟩ <;>
    simp [Trace.done, Trace.find_andThen, Trace.runAfter]

mutual

/-- A predicate tests as its recursive test does. -/
theorem test_eq (h : tree.Acyclic) :
    ∀ (base : Nat) (predicate : Predicate), test h base predicate = predicate.test tree base
  | _, .always => rfl
  | _, .tag _ => rfl
  | _, .id _ => rfl
  | _, .hasClass _ => rfl
  | base, .all tests => by
    funext node run
    simp only [test, Predicate.test]
    rw [testAll_eq h base tests]
  | base, .not inner => by
    funext node run
    simp only [test, Predicate.test]
    rw [test_eq h base inner]
  | base, .has selector => by
    funext node run
    simp only [test, Predicate.test]
    rw [stages_eq h base selector]
    have hnext := next_start h node (selector.stages tree base).1 (selector.stages tree base).2 run
    exact Prod.ext hnext.1.symm hnext.2.symm
  | _, .first _ => rfl
  | _, .custom _ => rfl
termination_by structural _ predicate => predicate

/-- A list of tests tests as its recursive tests do. -/
theorem testAll_eq (h : tree.Acyclic) :
    ∀ (base : Nat) (tests : List Predicate), testAll h base tests = TreeQuery.testAll tree base tests
  | _, [] => rfl
  | base, first :: rest => by
    funext node run
    have hfirst := test_eq h base first
    have hrest := testAll_eq h (base + first.flags.length) rest
    rcases hanswer : first.test tree base node run with ⟨_ | _, run'⟩ <;>
      simp only [testAll, TreeQuery.testAll, hfirst, hrest, hanswer]
termination_by structural _ tests => tests

/-- A part becomes the stage of its recursive test. -/
theorem stage_eq (h : tree.Acyclic) :
    ∀ (base : Nat) (part : Part), stage h base part = part.stage tree base
  | base, ⟨_, predicate⟩ => by
    simp only [stage, Part.stage]
    rw [test_eq h base predicate]
termination_by structural _ part => part

/-- A list of parts becomes the stages of their recursive tests. -/
theorem stagesOf_eq (h : tree.Acyclic) :
    ∀ (base : Nat) (parts : List Part), stagesOf h base parts = TreeQuery.stagesOf tree base parts
  | _, [] => rfl
  | base, part :: rest => by
    simp only [stagesOf, TreeQuery.stagesOf]
    rw [stage_eq h base part, stagesOf_eq h (base + part.flags.length) rest]
termination_by structural _ parts => parts

/-- A selector becomes the stages of the recursive tests of its parts. -/
theorem stages_eq (h : tree.Acyclic) : ∀ (base : Nat) (selector : Selector),
    stages h base selector = (selector.stages tree base).1 :: (selector.stages tree base).2
  | base, ⟨head, rest⟩ => by
    simp only [stages, Selector.stages]
    rw [stage_eq h base head, stagesOf_eq h (base + head.flags.length) rest]
termination_by structural _ selector => selector

end

/-- The search for a selector does what its recursion does. -/
theorem ofSearch_search (h : tree.Acyclic) (selector : Selector) (base : Nat) (node : NodeId) :
    ofSearch h (selector.search tree base node) = select h base selector node := by
  rw [Selector.search]
  funext run
  rw [ofSearch_start, select, stages_eq]

/-- Collecting gives all finds of the trace and leaves its last run. -/
theorem collect_eq_trace (h : tree.Acyclic) (paused : Search) (run : Run) :
    paused.collect tree run = ((ofSearch h paused run).nodes, (ofSearch h paused run).last) := by
  fun_induction Search.collect tree paused run with
  | case1 paused run run' hnext =>
    rw [ofSearch_next, hnext]
    rfl
  | case2 paused run node after run' hnext nodes last hcollect ih =>
    rw [ofSearch_next, hnext]
    rw [hcollect] at ih
    simp only [Trace.find_andThen, Trace.nodes, List.map_cons]
    obtain ⟨rfl, rfl⟩ := Prod.mk.inj ih
    rfl

end Recursive

end TreeQuery
