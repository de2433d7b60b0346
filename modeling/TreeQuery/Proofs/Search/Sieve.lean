import TreeQuery.Proofs.Search.Coupling
import TreeQuery.Proofs.Search.Pulls

/-!
# One more test at the end of a chain

A test behind the last one of a chain is made at the finds of the chain and nowhere else. If it asks
none of the flags of the chain, the chain does not notice: it goes on from every find as it did before.
So the new test sifts the old finds, one after another and each in the run that the tests before it
have left.

Main statement: the finds of a selector with a test chained behind its last predicate are those finds of
the selector that pass the test, where the test keeps its own flags from find to find.
-/

namespace TreeQuery

namespace Test

/-- A test and, where it holds, a second one. -/
def guarded (test extra : Test) : Test := fun node run =>
  if (test node run).1 then extra node (test node run).2 else (false, (test node run).2)

/-- The nodes of a list that pass a test, which is made at each in order, and the run behind them. -/
def sift (test : Test) : List NodeId → Run → List NodeId × Run
  | [], run => ([], run)
  | node :: rest, run =>
    ((if (test node run).1 then [node] else []) ++ (test.sift rest (test node run).2).1,
      (test.sift rest (test node run).2).2)

/-- Lists one behind the other are sifted one after the other. -/
theorem sift_append (test : Test) (first second : List NodeId) (run : Run) :
    test.sift (first ++ second) run =
      ((test.sift first run).1 ++ (test.sift second (test.sift first run).2).1,
        (test.sift second (test.sift first run).2).2) := by
  induction first generalizing run with
  | nil => rfl
  | cons node rest ih => simp only [List.cons_append, sift, ih, List.append_assoc]

/-- Sifting by a test that answers alike in all runs is filtering. -/
theorem sift_eq_filter {test : Test} {passes : NodeId → Bool}
    (h : ∀ node run, (test node run).1 = passes node) (nodes : List NodeId) (run : Run) :
    (test.sift nodes run).1 = nodes.filter passes := by
  induction nodes generalizing run with
  | nil => rfl
  | cons node rest ih =>
    simp only [sift, h, ih, List.filter_cons]
    split <;> rfl

/-- A flag that is down lets the first node through and no other; one that is up lets none through. -/
theorem sift_ask (flag : Nat) (nodes : List NodeId) (run : Run) :
    (sift (fun _ run => run.ask flag) nodes run).1 = if run.fired flag then [] else nodes.take 1 := by
  induction nodes generalizing run with
  | nil => simp [sift]
  | cons node rest ih =>
    simp only [sift, ih, Run.fired_ask, if_true, List.append_nil]
    unfold Run.ask
    split <;> simp

/-- Sifting is confined to the flags of the test. -/
theorem Confined.sift {own : Nat → Prop} {test : Test} (h : test.Confined own) (nodes : List NodeId) :
    TreeQuery.Confined own (test.sift nodes) := by
  induction nodes with
  | nil => exact .pure []
  | cons node rest ih =>
    exact (h node).bind (fun answer run =>
      ((if answer then [node] else []) ++ (test.sift rest run).1, (test.sift rest run).2)) fun _ =>
        ih.map _

end Test

namespace Recursive

variable {tree : Tree} {own theirs : Nat → Prop} {extra : Test}

/-- One search finds what is left of the finds of another when a further test sifts them. The flags of
the test develop as if it were made alone. -/
def Sifts (theirs : Nat → Prop) (extra : Test) (finds : List NodeId) (run : Run) (sifted : List NodeId)
    (last : Run) : Prop :=
  sifted = (extra.sift finds run).1 ∧ Run.Alike theirs (extra.sift finds run).2 last

/-- Searches one after another are sifted one after the other. -/
theorem joins_sifts (hextra : extra.Confined theirs) : Joins theirs (Sifts theirs extra) where
  done := fun run => ⟨rfl, .refl theirs run⟩
  append := by
    intro finds run others between more others' last h h'
    obtain ⟨hnodes, htheirs⟩ := h
    obtain ⟨hnodes', htheirs'⟩ := h'
    have hsift := hextra.sift more _ _ htheirs
    rw [Sifts, Test.sift_append]
    refine ⟨?_, (hsift.2.alike htheirs).trans htheirs'⟩
    rw [hnodes, hnodes', hsift.1]
  before := by
    intro first run finds others last hframe h
    have hsift := hextra.sift finds _ _ hframe
    exact ⟨h.1.trans hsift.1.symm, (hsift.2.alike hframe).trans h.2⟩

/-- A find is sifted by making the further test at it. -/
theorem coupled_sifts_find (hextra : extra.Confined theirs) (hdisjoint : ∀ flag, own flag → ¬ theirs flag)
    (node : NodeId) :
    Coupled own (Sifts theirs extra) (.find node)
      (fun run => if (extra node run).1 then .find node (extra node run).2 else .done (extra node run).2) := by
  intro left right halike
  have hframe := (hextra node).alike_of_disjoint (fun flag htheirs hown => hdisjoint flag hown htheirs) right
  have hown := halike.trans hframe
  simp only [Trace.find, Trace.nodes, List.map_cons, List.map_nil, Sifts, Test.sift, List.append_nil]
  cases (extra node right).1 with
  | false => exact ⟨⟨rfl, .refl theirs _⟩, hown⟩
  | true => exact ⟨⟨rfl, .refl theirs _⟩, hown⟩

/-- A test behind the last one of a chain of stages sifts the finds of the chain. -/
theorem coupled_sifts (h : tree.Acyclic) (hextra : extra.Confined theirs)
    (hdisjoint : ∀ flag, own flag → ¬ theirs flag) {stages : List Stage}
    (hstages : ∀ stage ∈ stages, stage.test.Confined own) (last : Stage)
    (hlast : last.test.Confined own) (node : NodeId) :
    Coupled own (Sifts theirs extra) (Recursive.search h (stages ++ [last]) node)
      (Recursive.search h (stages ++ [⟨last.depth, last.test.guarded extra⟩]) node) := by
  have hjoins := joins_sifts hextra
  rw [search_append, search_append]
  refine .searchThen h hjoins hdisjoint hstages (fun node => ?_) node
  refine .descend h hjoins (fun child => ?_) last.depth node
  have hguarded : (fun run => if (last.test.guarded extra child run).1
      then Trace.find child (last.test.guarded extra child run).2
      else .done (last.test.guarded extra child run).2) = fun run => if (last.test child run).1
        then if (extra child (last.test child run).2).1
          then Trace.find child (extra child (last.test child run).2).2
          else .done (extra child (last.test child run).2).2
        else .done (last.test child run).2 := by
    funext run
    by_cases hanswer : (last.test child run).1 = true
    · simp only [Test.guarded, if_pos hanswer]
    · simp only [Test.guarded, if_neg hanswer, Bool.false_eq_true, if_false]
  simp only [Recursive.search, hguarded]
  exact .of_test hjoins hdisjoint (hlast child) (coupled_sifts_find hextra hdisjoint child)

/-- The stages of parts one behind the other, whose flags are counted on. -/
theorem stagesOf_append (h : tree.Acyclic) (base : Nat) (first second : List Part) :
    stagesOf h base (first ++ second) =
      stagesOf h base first ++ stagesOf h (base + (flagsOfParts first).length) second := by
  induction first generalizing base with
  | nil => rfl
  | cons part rest ih =>
    simp only [List.cons_append, stagesOf, flagsOfParts, List.length_append, ih, Nat.add_assoc]

/-- The stages of a selector are those of its parts. -/
theorem stages_eq_stagesOf (h : tree.Acyclic) (base : Nat) (selector : Selector) :
    stages h base selector = stagesOf h base selector.parts := by
  cases selector
  rfl

end Recursive

/-- The flags of parts one behind the other. -/
theorem flagsOfParts_append (first second : List Part) :
    flagsOfParts (first ++ second) = flagsOfParts first ++ flagsOfParts second := by
  induction first with
  | nil => rfl
  | cons part rest ih => simp only [List.cons_append, flagsOfParts, ih, List.append_assoc]

/-- The flags of a selector are those of its parts. -/
theorem Selector.flags_eq (selector : Selector) : selector.flags = flagsOfParts selector.parts := by
  cases selector
  rfl

/-- The flags of tests one behind the other. -/
theorem flagsOfTests_append (first second : List Predicate) :
    flagsOfTests (first ++ second) = flagsOfTests first ++ flagsOfTests second := by
  induction first with
  | nil => rfl
  | cons test rest ih => simp only [List.cons_append, flagsOfTests, ih, List.append_assoc]

/-- A test chained behind another has its flags behind those of the other. -/
theorem Predicate.flags_chain (earlier : Option Predicate) (extra : Predicate) :
    (Predicate.chain earlier extra).flags = (earlier.getD .always).flags ++ extra.flags := by
  unfold chain
  split
  · simp [Predicate.flags]
  · simp [Predicate.flags, flagsOfTests_append, flagsOfTests]
  · simp [Predicate.flags, flagsOfTests]

/-- Tests one behind the other are made one after the other. -/
theorem testAll_append (tree : Tree) (base : Nat) (first second : List Predicate) :
    testAll tree base (first ++ second) =
      Test.guarded (testAll tree base first)
        (testAll tree (base + (flagsOfTests first).length) second) := by
  induction first generalizing base with
  | nil => rfl
  | cons test rest ih =>
    funext node run
    simp only [List.cons_append, testAll, flagsOfTests, Test.guarded, List.length_append, ih,
      Nat.add_assoc]
    rcases test.test tree base node run with ⟨_ | _, run'⟩ <;> rfl

/-- A list of one test. -/
theorem testAll_singleton (tree : Tree) (base : Nat) (test : Predicate) :
    testAll tree base [test] = test.test tree base := by
  funext node run
  simp only [testAll]
  rcases test.test tree base node run with ⟨_ | _, run'⟩ <;> rfl

/-- A test chained behind another is made where the other holds. -/
theorem Predicate.test_chain (tree : Tree) (base : Nat) (earlier : Option Predicate)
    (extra : Predicate) :
    (Predicate.chain earlier extra).test tree base =
      Test.guarded ((earlier.getD .always).test tree base)
        (extra.test tree (base + (earlier.getD .always).flags.length)) := by
  unfold chain
  split
  next => rfl
  next tests =>
    have happend := testAll_append tree base tests [extra]
    rw [testAll_singleton] at happend
    exact happend
  next other _ =>
    have happend := testAll_append tree base [other] [extra]
    rw [testAll_singleton, testAll_singleton, flagsOfTests, flagsOfTests, List.append_nil] at happend
    exact happend

/-- A test chained behind the last predicate of a selector has its flags behind all others. -/
theorem Selector.flags_chain {selector guarded : Selector} {init : List Part} {depth : Option Nat}
    {earlier : Option Predicate} {extra : Predicate}
    (hparts : selector.parts = init ++ [⟨depth, earlier.getD .always⟩])
    (hguarded : guarded.parts = init ++ [⟨depth, .chain earlier extra⟩]) :
    guarded.flags = selector.flags ++ extra.flags := by
  rw [selector.flags_eq, guarded.flags_eq, hparts, hguarded, flagsOfParts_append, flagsOfParts_append]
  simp only [flagsOfParts, Part.flags, Predicate.flags_chain, List.append_nil, List.append_assoc]

/-- The stages of a selector are those of its first parts and, behind them, that of its last one. -/
theorem Recursive.stages_eq_concat {tree : Tree} (h : tree.Acyclic) {selector : Selector}
    {init : List Part} {depth : Option Nat} {predicate : Predicate}
    (hparts : selector.parts = init ++ [⟨depth, predicate⟩]) :
    stages h 0 selector =
      stagesOf h 0 init ++ [⟨depth, predicate.test tree (flagsOfParts init).length⟩] := by
  rw [stages_eq_stagesOf, hparts, stagesOf_append, Nat.zero_add]
  simp only [stagesOf, stage, test_eq]

/-- A selector with a test chained behind its last predicate finds what the test lets through of the
finds of the selector. -/
theorem Selector.findAll_chain {tree : Tree} (h : tree.Acyclic) {selector guarded : Selector}
    {init : List Part} {depth : Option Nat} {earlier : Option Predicate} {extra : Predicate}
    (hparts : selector.parts = init ++ [⟨depth, earlier.getD .always⟩])
    (hguarded : guarded.parts = init ++ [⟨depth, .chain earlier extra⟩]) (node : NodeId) :
    (guarded.findAll tree node).1 =
      (Test.sift (extra.test tree selector.flags.length) (selector.findAll tree node).1
        guarded.freshRun).1 := by
  -- the flags of the selector stand in front, and those of the new test behind them
  have hextra := extra.confined_test tree selector.flags.length
  have hdisjoint : ∀ flag, Stretch 0 selector.flags.length flag →
      ¬ Stretch selector.flags.length extra.flags.length flag := fun _ hown => hown.not_behind _
  have hstages := selector.confined_stages tree 0
  rw [← Recursive.stages_eq h, Recursive.stages_eq_concat h hparts, List.forall_mem_append,
    List.forall_mem_singleton] at hstages
  have halike : Run.Alike (Stretch 0 selector.flags.length) selector.freshRun guarded.freshRun := by
    rw [freshRun, freshRun, flags_chain hparts hguarded]
    exact Run.alike_ofFlags_append _ _
  have hlength : (flagsOfParts init).length + (earlier.getD .always).flags.length =
      selector.flags.length := by
    rw [selector.flags_eq, hparts, flagsOfParts_append, List.length_append]
    simp only [flagsOfParts, Part.flags, List.append_nil]
  rw [Recursive.findAll_eq h, Recursive.findAll_eq h, Recursive.select, Recursive.select,
    Recursive.stages_eq_concat h hparts, Recursive.stages_eq_concat h hguarded, Predicate.test_chain,
    hlength]
  exact (Recursive.coupled_sifts h hextra hdisjoint hstages.1 ⟨depth, _⟩ hstages.2 node _ _ halike).1.1

end TreeQuery
