import TreeQuery.Proofs.Search.Pulls
import TreeQuery.Proofs.Tree.Isomorphism

/-!
# Searches that are carried over

Where a map of places carries what lies below a node over into another tree, it carries the searches
there over as well. A test of the library reads the name, the attributes and the class tokens of a node,
asks its flags, or searches below the node. The map keeps all of that, so the tests in the other tree
give the same answers and raise the same flags, and every find is found at the place it is mapped to.

A test of a caller may look at anything in the arena, and its visits are logged by their places. So the
predicates in question have no such test inside of them.

Main statement: without callers' tests, the finds in the other tree are the places of the finds.
-/

namespace TreeQuery

mutual

/-- No test of a caller stands in a predicate. -/
def Predicate.CallerFree : Predicate → Prop
  | .always => True
  | .tag _ => True
  | .id _ => True
  | .hasClass _ => True
  | .all tests => TestsCallerFree tests
  | .not test => test.CallerFree
  | .has selector => selector.CallerFree
  | .first _ => True
  | .custom _ => False
termination_by structural predicate => predicate

/-- No test of a caller stands in a list of predicates. -/
def TestsCallerFree : List Predicate → Prop
  | [] => True
  | test :: rest => test.CallerFree ∧ TestsCallerFree rest
termination_by structural tests => tests

/-- No test of a caller stands in a part. -/
def Part.CallerFree : Part → Prop
  | ⟨_, predicate⟩ => predicate.CallerFree
termination_by structural part => part

/-- No test of a caller stands in a list of parts. -/
def PartsCallerFree : List Part → Prop
  | [] => True
  | part :: rest => part.CallerFree ∧ PartsCallerFree rest
termination_by structural parts => parts

/-- No test of a caller stands in a selector. -/
def Selector.CallerFree : Selector → Prop
  | ⟨head, rest⟩ => head.CallerFree ∧ PartsCallerFree rest
termination_by structural selector => selector

end

namespace Trace

/-- A trace with its finds carried over by a map of places. -/
def carry (f : NodeId → NodeId) (trace : Trace) : Trace :=
  ⟨trace.finds.map fun found => (f found.1, found.2), trace.last⟩

variable (f : NodeId → NodeId)

@[simp] theorem carry_done (run : Run) : (done run).carry f = done run := rfl

@[simp] theorem carry_find (node : NodeId) (run : Run) : (find node run).carry f = find (f node) run := rfl

@[simp] theorem carry_andThen (trace : Trace) (next : Run → Trace) :
    (trace.andThen next).carry f = (trace.carry f).andThen fun run => (next run).carry f := by
  simp [carry, andThen]

@[simp] theorem nodes_carry (trace : Trace) : (trace.carry f).nodes = trace.nodes.map f := by
  simp [carry, nodes]

@[simp] theorem isEmpty_carry (trace : Trace) : (trace.carry f).finds.isEmpty = trace.finds.isEmpty := by
  simp [carry]

/-- The runs at the finds stay as they are. -/
@[simp] theorem runAfter_carry (trace : Trace) (start : Run) (count : Nat) :
    (trace.carry f).runAfter start count = trace.runAfter start count := by
  cases count with
  | zero => rfl
  | succ count => simp [carry, runAfter, Function.comp_def]

variable {f}

/-- Traces of mapped places are carried over where the trace of every place is. -/
theorem each_carry {visit visit' : NodeId → Run → Trace} {places : List NodeId}
    (h : ∀ place ∈ places, ∀ run, visit' (f place) run = (visit place run).carry f) (run : Run) :
    each visit' (places.map f) run = (each visit places run).carry f := by
  induction places generalizing run with
  | nil => rfl
  | cons place rest ih =>
    have hrest : each visit' (rest.map f) = fun run => (each visit rest run).carry f :=
      funext (ih fun other hother => h other (List.mem_cons_of_mem place hother))
    simp only [List.map_cons, each, carry_andThen]
    rw [h place List.mem_cons_self, hrest]

end Trace

namespace Recursive

variable {tree tree' : Tree} {root : NodeId} {f : NodeId → NodeId}

/-- A test answers at the mapped places as another one does at the places themselves, and leaves the
same run. -/
def Agrees (tree : Tree) (root : NodeId) (f : NodeId → NodeId) (test test' : Test) : Prop :=
  ∀ node, tree.Reaches root node → ∀ run, test' (f node) run = test node run

/-- A stage goes down as far as another one, and its test agrees with the test there. -/
def StagesAgree (tree : Tree) (root : NodeId) (f : NodeId → NodeId) (stage stage' : Stage) : Prop :=
  stage'.depth = stage.depth ∧ Agrees tree root f stage.test stage'.test

/-- Going down is carried over where the test agrees and what follows it is carried over. -/
theorem descend_carry (h : tree.Acyclic) (h' : tree'.Acyclic) (hcarries : tree.Carries tree' root f)
    {test test' : Test} {found found' : NodeId → Run → Trace} (htest : Agrees tree root f test test')
    (hfound : ∀ node, tree.Reaches root node → ∀ run, found' (f node) run = (found node run).carry f)
    (depth : Option Nat) {node : NodeId} (hnode : tree.Reaches root node) (run : Run) :
    descend h' test' found' depth (f node) run = (descend h test found depth node run).carry f := by
  induction node using h.wellFounded.induction generalizing depth run with
  | h node ih =>
    rw [descend_eq, descend_eq]
    split
    · rfl
    · rw [hcarries.children hnode]
      refine Trace.each_carry (fun child hchild run => ?_) run
      have hreached := hnode.child hchild
      have hbelow : descend h' test' found' (depth.map (· - 1)) (f child) =
          fun run => (descend h test found (depth.map (· - 1)) child run).carry f :=
        funext (ih child hchild (depth.map (· - 1)) hreached)
      simp only [visit, htest child hreached, hbelow, Trace.carry_andThen]
      split
      · rw [hfound child hreached]
      · rfl

/-- A search is carried over where its stages agree. -/
theorem search_carry (h : tree.Acyclic) (h' : tree'.Acyclic) (hcarries : tree.Carries tree' root f)
    {stages stages' : List Stage}
    (hstages : List.Forall₂ (StagesAgree tree root f) stages stages') {node : NodeId}
    (hnode : tree.Reaches root node) (run : Run) :
    search h' stages' (f node) run = (search h stages node run).carry f := by
  induction hstages generalizing node run with
  | nil => rfl
  | @cons stage stage' rest rest' hstage _ ih =>
    rw [search, search, hstage.1]
    exact descend_carry h h' hcarries hstage.2 (fun child hchild run => ih hchild run) stage.depth hnode run

mutual

/-- Without callers' tests a test in the other tree agrees with the test in the first one. -/
theorem test_carry (h : tree.Acyclic) (h' : tree'.Acyclic) (hcarries : tree.Carries tree' root f) :
    ∀ (base : Nat) (predicate : Predicate), predicate.CallerFree →
      Agrees tree root f (test h base predicate) (test h' base predicate)
  | _, .always, _ => fun _ _ _ => rfl
  | _, .tag _, _ => fun node hnode run => by simp only [test, hcarries.nodeName_eq hnode]
  | _, .id _, _ => fun node hnode run => by simp only [test, Tree.id?, hcarries.attribute?_eq hnode]
  | _, .hasClass _, _ => fun node hnode run => by simp only [test, hcarries.hasClass_eq hnode]
  | base, .all tests, hfree => fun node hnode run => testAll_carry h h' hcarries base tests hfree node hnode run
  | base, .not inner, hfree => fun node hnode run => by
    simp only [test, test_carry h h' hcarries base inner hfree node hnode run]
  | base, .has selector, hfree => fun node hnode run => by
    have hsearch := search_carry h h' hcarries (stages_carry h h' hcarries base selector hfree) hnode run
    simp only [test, hsearch, Trace.isEmpty_carry, Trace.runAfter_carry]
  | _, .first _, _ => fun _ _ _ => rfl
  | _, .custom _, hfree => hfree.elim
termination_by structural _ predicate => predicate

/-- Without callers' tests a list of tests agrees. -/
theorem testAll_carry (h : tree.Acyclic) (h' : tree'.Acyclic) (hcarries : tree.Carries tree' root f) :
    ∀ (base : Nat) (tests : List Predicate), TestsCallerFree tests →
      Agrees tree root f (testAll h base tests) (testAll h' base tests)
  | _, [], _ => fun _ _ _ => rfl
  | base, first :: rest, hfree => fun node hnode run => by
    have hfirst := test_carry h h' hcarries base first hfree.1 node hnode
    have hrest := testAll_carry h h' hcarries (base + first.flags.length) rest hfree.2 node hnode
    simp only [testAll, hfirst, hrest]
termination_by structural _ tests => tests

/-- Without callers' tests the stage of a part agrees. -/
theorem stage_carry (h : tree.Acyclic) (h' : tree'.Acyclic) (hcarries : tree.Carries tree' root f) :
    ∀ (base : Nat) (part : Part), part.CallerFree →
      StagesAgree tree root f (stage h base part) (stage h' base part)
  | base, ⟨_, predicate⟩, hfree => ⟨rfl, test_carry h h' hcarries base predicate hfree⟩
termination_by structural _ part => part

/-- Without callers' tests the stages of a list of parts agree. -/
theorem stagesOf_carry (h : tree.Acyclic) (h' : tree'.Acyclic) (hcarries : tree.Carries tree' root f) :
    ∀ (base : Nat) (parts : List Part), PartsCallerFree parts →
      List.Forall₂ (StagesAgree tree root f) (stagesOf h base parts) (stagesOf h' base parts)
  | _, [], _ => .nil
  | base, part :: rest, hfree =>
    .cons (stage_carry h h' hcarries base part hfree.1)
      (stagesOf_carry h h' hcarries (base + part.flags.length) rest hfree.2)
termination_by structural _ parts => parts

/-- Without callers' tests the stages of a selector agree. -/
theorem stages_carry (h : tree.Acyclic) (h' : tree'.Acyclic) (hcarries : tree.Carries tree' root f) :
    ∀ (base : Nat) (selector : Selector), selector.CallerFree →
      List.Forall₂ (StagesAgree tree root f) (stages h base selector) (stages h' base selector)
  | base, ⟨head, rest⟩, hfree =>
    .cons (stage_carry h h' hcarries base head hfree.1)
      (stagesOf_carry h h' hcarries (base + head.flags.length) rest hfree.2)
termination_by structural _ selector => selector

end

end Recursive

namespace Tree.Carries

variable {tree tree' : Tree} {root : NodeId} {f : NodeId → NodeId}

/-- The finds of a selector below a root are carried over. -/
theorem findAll_eq (hcarries : tree.Carries tree' root f) (h : tree.Acyclic) (h' : tree'.Acyclic)
    {selector : Selector} (hfree : selector.CallerFree) :
    (selector.findAll tree' (f root)).1 = (selector.findAll tree root).1.map f := by
  have hsearch := Recursive.search_carry h h' hcarries (Recursive.stages_carry h h' hcarries 0 selector hfree)
    (Reaches.refl root) selector.freshRun
  rw [Recursive.findAll_eq h, Recursive.findAll_eq h', Recursive.select, Recursive.select, hsearch,
    Trace.nodes_carry]

/-- A predicate gives the root the answer that it gives the place that the root is mapped to. -/
theorem answer_eq (hcarries : tree.Carries tree' root f) (h : tree.Acyclic) (h' : tree'.Acyclic)
    {predicate : Predicate} (hfree : predicate.CallerFree) :
    predicate.answer tree' (f root) = predicate.answer tree root := by
  rw [Predicate.answer, Predicate.answer, ← Recursive.test_eq h, ← Recursive.test_eq h',
    Recursive.test_carry h h' hcarries 0 predicate hfree root (Reaches.refl root)]

end Tree.Carries

end TreeQuery
