import TreeQuery.Proofs.Tree.Descent
import TreeQuery.Search.Query

/-!
# Searching by recursion

The search of the library pauses after every find, so it keeps its place in explicit stacks. Below
an acyclic tree the same search can be said as a plain recursion that runs to its end. For every
child in order it tests the child; if the test holds, it goes on from there with the rest of the
chain, which ends in a find; then, whether the test held or not, it goes down to the children of the
child, with one level less.

The recursion records its finds, and with each the run as it was at that find. So it also says what
a search that is stopped after some find has done by then.
-/

namespace TreeQuery

/-- What a search does: its finds in order, each with the run at that moment, and the run at the end. -/
structure Trace where
  finds : List (NodeId × Run)
  last : Run

namespace Trace

/-- Nothing is found. -/
def done (run : Run) : Trace := ⟨[], run⟩

/-- One node is found, which leaves the run alone. -/
def find (node : NodeId) (run : Run) : Trace := ⟨[(node, run)], run⟩

/-- One trace and then another, which begins with the run that the first one leaves. -/
def andThen (first : Trace) (next : Run → Trace) : Trace :=
  ⟨first.finds ++ (next first.last).finds, (next first.last).last⟩

/-- The traces of a list of places, one after another. -/
def each {α : Type} (visit : α → Run → Trace) : List α → Run → Trace
  | [], run => done run
  | place :: rest, run => (visit place run).andThen (each visit rest)

/-- The nodes that are found, in order. -/
def nodes (trace : Trace) : List NodeId := trace.finds.map Prod.fst

/-- The run right after a number of finds, or at the end if there are fewer. -/
def runAfter (trace : Trace) (start : Run) : Nat → Run
  | 0 => start
  | count + 1 => (trace.finds[count]?.map Prod.snd).getD trace.last

@[simp] theorem done_andThen (run : Run) (next : Run → Trace) : (done run).andThen next = next run := rfl

@[simp] theorem andThen_done (trace : Trace) : trace.andThen done = trace := by
  simp [andThen, done]

@[simp] theorem andThen_assoc (trace : Trace) (second third : Run → Trace) :
    (trace.andThen second).andThen third = trace.andThen fun run => (second run).andThen third := by
  simp [andThen]

/-- What is done at a find happens before everything that follows the find. -/
theorem find_andThen (node : NodeId) (run : Run) (next : Run → Trace) :
    (find node run).andThen next = ⟨(node, run) :: (next run).finds, (next run).last⟩ := rfl

@[simp] theorem each_nil {α : Type} (visit : α → Run → Trace) : each visit [] = done := rfl

/-- Traces of places that are reached by a map. -/
theorem each_map {α β : Type} (visit : β → Run → Trace) (f : α → β) (places : List α) :
    each visit (places.map f) = each (fun place => visit (f place)) places := by
  induction places with
  | nil => rfl
  | cons place rest ih =>
    funext run
    simp only [List.map_cons, each, ih]

/-- Only what the visits do at the places of the list matters. -/
theorem each_congr {α : Type} {first second : α → Run → Trace} {places : List α}
    (h : ∀ place ∈ places, first place = second place) : each first places = each second places := by
  induction places with
  | nil => rfl
  | cons place rest ih =>
    funext run
    simp only [each]
    rw [h place List.mem_cons_self, ih fun other hother => h other (List.mem_cons_of_mem _ hother)]

end Trace

namespace Recursive

variable {tree : Tree}

/-- Go down from a node: test every child in order, let `found` go on from those that pass, and then
go down from the child with one level less. -/
def descend (h : tree.Acyclic) (test : Test) (found : NodeId → Run → Trace) (depth : Option Nat)
    (node : NodeId) (run : Run) : Trace :=
  if depth = some 0 then .done run
  else
    Trace.each (fun child run =>
      let (answer, run) := test child.1 run
      (if answer then found child.1 run else .done run).andThen
        (descend h test found (depth.map (· - 1)) child.1)) (tree.children node).attach run
termination_by h.wellFounded.wrap node
decreasing_by exact child.2

/-- Search below a node along a chain of stages. Behind the last stage the node itself is found. -/
def search (h : tree.Acyclic) : List Stage → NodeId → Run → Trace
  | [], node => .find node
  | stage :: rest, node => descend h stage.test (search h rest) stage.depth node

mutual

/-- Test a node, where `has` searches by recursion and stops at the first find. -/
def test (h : tree.Acyclic) : Nat → Predicate → NodeId → Run → Bool × Run
  | _, .always, _, run => (true, run)
  | _, .tag name, node, run => (Text.sameIgnoringCase (tree.nodeName node) name, run)
  | _, .id value, node, run => (tree.id? node == some value, run)
  | _, .hasClass name, node, run => (tree.hasClass node name, run)
  | base, .all tests, node, run => testAll h base tests node run
  | base, .not inner, node, run =>
    let (answer, run) := test h base inner node run
    (!answer, run)
  | base, .has selector, node, run =>
    let trace := search h (stages h base selector) node run
    (!trace.finds.isEmpty, trace.runAfter run 1)
  | base, .first _, _, run => run.ask base
  | _, .custom answer, node, run => (answer tree node, run.visit node)
termination_by structural _ predicate => predicate

/-- Make the tests in order, up to the first that fails. -/
def testAll (h : tree.Acyclic) : Nat → List Predicate → NodeId → Run → Bool × Run
  | _, [], _, run => (true, run)
  | base, first :: rest, node, run =>
    match test h base first node run with
    | (true, run) => testAll h (base + first.flags.length) rest node run
    | (false, run) => (false, run)
termination_by structural _ tests => tests

/-- The stage of a part. -/
def stage (h : tree.Acyclic) : Nat → Part → Stage
  | base, ⟨depth, predicate⟩ => ⟨depth, test h base predicate⟩
termination_by structural _ part => part

/-- The stages of a list of parts. -/
def stagesOf (h : tree.Acyclic) : Nat → List Part → List Stage
  | _, [] => []
  | base, part :: rest => stage h base part :: stagesOf h (base + part.flags.length) rest
termination_by structural _ parts => parts

/-- The stages of a selector. -/
def stages (h : tree.Acyclic) : Nat → Selector → List Stage
  | base, ⟨head, rest⟩ => stage h base head :: stagesOf h (base + head.flags.length) rest
termination_by structural _ selector => selector

end

/-- The search for a selector below a node; the flags of the selector are counted from `base`. -/
def select (h : tree.Acyclic) (base : Nat) (selector : Selector) (node : NodeId) (run : Run) : Trace :=
  search h (stages h base selector) node run

/-- What is done at a child: its test, what follows a test that holds, and the way down from it. -/
def visit (h : tree.Acyclic) (test : Test) (found : NodeId → Run → Trace) (depth : Option Nat)
    (child : NodeId) (run : Run) : Trace :=
  (if (test child run).1 then found child (test child run).2 else .done (test child run).2).andThen
    (descend h test found (depth.map (· - 1)) child)

/-- Going down visits the children in order, unless the depth is used up. -/
theorem descend_eq (h : tree.Acyclic) (test : Test) (found : NodeId → Run → Trace)
    (depth : Option Nat) (node : NodeId) :
    descend h test found depth node =
      if depth = some 0 then .done else .each (visit h test found depth) (tree.children node) := by
  funext run
  rw [descend]
  split
  · rfl
  · change Trace.each (fun child => visit h test found depth child.1) (tree.children node).attach run = _
    rw [← Trace.each_map (visit h test found depth), List.attach_map_subtype_val]

/-- A bound that no path goes beyond is as good as none. -/
theorem descend_some_eq_none (h : tree.Acyclic) (test : Test) (found : NodeId → Run → Trace)
    {bound : Nat} {node : NodeId} (hpaths : ∀ count last, tree.Below count node last → count ≤ bound) :
    descend h test found (some bound) node = descend h test found none node := by
  induction bound generalizing node with
  | zero =>
    have hnil : tree.children node = [] := by
      apply List.eq_nil_iff_forall_not_mem.mpr
      intro child hchild
      have := hpaths 1 child (.step hchild (.here child))
      omega
    simp [descend_eq, hnil]
  | succ bound ih =>
    rw [descend_eq, descend_eq, if_neg (by simp), if_neg (by simp)]
    apply Trace.each_congr
    intro child hchild
    funext run
    have hbelow : descend h test found (some bound) child = descend h test found none child :=
      ih fun count last hpath => by
        have := hpaths (count + 1) last (.step hchild hpath)
        omega
    simp only [visit, Option.map_some, Option.map_none, Nat.add_sub_cancel, hbelow]

end Recursive

end TreeQuery
