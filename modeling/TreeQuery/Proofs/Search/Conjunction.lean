import TreeQuery.Proofs.Search.Sieve

/-!
# Predicates that are chained one behind the other

The tests of a compound are chained from left to right. What they are chained to takes one shape after
another: the first test by itself, then a conjunction, which takes every further test as its last. A first
test that is a conjunction already is taken for that one, and gets the others as tests of its own. None of
this can be told from what the tests do. Whatever their shape, they are made in turn, up to the first that
fails, with the flags of each test behind those of the tests before it.

Main statement: what the tests of a list are chained to gives the answer and leaves the run, flags and
visits alike, that the tests do when they are made in turn.
-/

namespace TreeQuery

/-- What tests are chained to, from left to right, if there is any. -/
def Predicate.chained (tests : List Predicate) : Option Predicate :=
  tests.foldl (fun earlier test => some (chain earlier test)) none

/-- Tests are made on a node in turn, up to the first that fails: the answer, and the run that is left. The
flags of a test are counted behind those of the tests before it. -/
inductive InTurn (tree : Tree) (node : NodeId) : Nat → List Predicate → Run → Bool × Run → Prop
  | passed (base : Nat) (run : Run) : InTurn tree node base [] run (true, run)
  | failed {base : Nat} {test : Predicate} {run after : Run} (rest : List Predicate)
      (h : test.test tree base node run = (false, after)) :
      InTurn tree node base (test :: rest) run (false, after)
  | onward {base : Nat} {test : Predicate} {rest : List Predicate} {run between : Run}
      {result : Bool × Run} (h : test.test tree base node run = (true, between))
      (others : InTurn tree node (base + test.flags.length) rest between result) :
      InTurn tree node base (test :: rest) run result

/-- A conjunction makes its tests in turn. -/
theorem testAll_eq_iff_inTurn {tree : Tree} {node : NodeId} {base : Nat} {tests : List Predicate}
    {run : Run} {result : Bool × Run} :
    testAll tree base tests node run = result ↔ InTurn tree node base tests run result := by
  constructor
  · intro h
    induction tests generalizing base run with
    | nil =>
      rw [testAll] at h
      exact h ▸ .passed base run
    | cons test rest ih =>
      rw [testAll] at h
      split at h
      next between htest => exact .onward htest (ih h)
      next after htest => exact h ▸ .failed rest htest
  · intro h
    induction h with
    | passed base run => rfl
    | failed rest h => rw [testAll, h]
    | onward h others ih =>
      rw [testAll, h]
      exact ih

namespace Predicate

/-- One more test is chained behind what the others are chained to. -/
theorem chained_concat (tests : List Predicate) (last : Predicate) :
    chained (tests ++ [last]) = some (chain (chained tests) last) := by
  rw [chained, List.foldl_append]
  rfl

/-- Where there is a test there is something that the tests are chained to. -/
theorem exists_chained (first : Predicate) (rest : List Predicate) :
    ∃ predicate, chained (first :: rest) = some predicate := by
  rcases List.eq_nil_or_concat (first :: rest) with hnil | ⟨init, last, hconcat⟩
  · cases hnil
  · rw [hconcat, List.concat_eq_append, chained_concat]
    exact ⟨_, rfl⟩

/-- Chaining keeps the flags of the tests in their order. -/
theorem flags_chained (tests : List Predicate) :
    ((chained tests).getD .always).flags = flagsOfTests tests := by
  induction tests using List.reverseRecOn with
  | nil => rfl
  | append_singleton tests last ih =>
    rw [chained_concat, Option.getD_some, flags_chain, ih, flagsOfTests_append, flagsOfTests, flagsOfTests,
      List.append_nil]

/-- What tests are chained to does what the conjunction of the tests does. -/
theorem test_chained (tree : Tree) (base : Nat) (tests : List Predicate) :
    ((chained tests).getD .always).test tree base = testAll tree base tests := by
  induction tests using List.reverseRecOn with
  | nil => rfl
  | append_singleton tests last ih =>
    rw [chained_concat, Option.getD_some, test_chain, flags_chained, ih, testAll_append, testAll_singleton]

end Predicate

/-- Tests one behind the other are shown with flags that are counted on. -/
theorem testsWithFlags_append (fired : Nat → Bool) (base : Nat) (first second : List Predicate) :
    testsWithFlags fired base (first ++ second) =
      testsWithFlags fired base first ++
        testsWithFlags fired (base + (flagsOfTests first).length) second := by
  induction first generalizing base with
  | nil => rfl
  | cons test rest ih =>
    simp only [List.cons_append, testsWithFlags, flagsOfTests, List.length_append, ih, Nat.add_assoc]

namespace Predicate

/-- A test chained behind another is shown with its flags behind those of the other. -/
theorem withFlags_chain (fired : Nat → Bool) (base : Nat) (earlier extra : Predicate) :
    (chain (some earlier) extra).withFlags fired base =
      chain (some (earlier.withFlags fired base))
        (extra.withFlags fired (base + earlier.flags.length)) := by
  cases earlier with
  | all tests =>
    simp only [chain, withFlags, testsWithFlags_append, testsWithFlags, flags]
  | always => rfl
  | tag name => rfl
  | id value => rfl
  | hasClass name => rfl
  | not test => rfl
  | has selector => rfl
  | first fired => rfl
  | custom test => rfl

/-- Chaining shows every test with its own flags. -/
theorem withFlags_chained (fired : Nat → Bool) (base : Nat) (tests : List Predicate) :
    chained (testsWithFlags fired base tests) = (chained tests).map (withFlags fired base) := by
  induction tests using List.reverseRecOn with
  | nil => rfl
  | append_singleton tests last ih =>
    have hflags := flags_chained tests
    rw [testsWithFlags_append, testsWithFlags, testsWithFlags, chained_concat, chained_concat, ih, ← hflags]
    cases chained tests with
    | none => rfl
    | some earlier => exact congrArg some (withFlags_chain fired base earlier last).symm

/-- Tests that are chained one behind the other, from nothing on, are made in turn: on every node, in every
run and wherever the flags are counted from, the answer, the visits and the flags are those of the tests
made from left to right up to the first that fails. Each test keeps its flags, and it makes no difference
whether a conjunction takes a further test as its last or stands as a test in front of it. -/
theorem chained_in_turn (first : Predicate) (rest : List Predicate) :
    ∃ predicate, chained (first :: rest) = some predicate ∧
      predicate.flags = flagsOfTests (first :: rest) ∧
      (∀ fired base, chained (testsWithFlags fired base (first :: rest)) =
        some (predicate.withFlags fired base)) ∧
      (∀ tree base node run result, predicate.test tree base node run = result ↔
        InTurn tree node base (first :: rest) run result) ∧
      ∀ (earlier extra : Predicate) (tree : Tree) (base : Nat),
        (chain (some earlier) extra).test tree base = (Predicate.all [earlier, extra]).test tree base := by
  obtain ⟨predicate, hpredicate⟩ := exists_chained first rest
  have hflags := flags_chained (first :: rest)
  have htest := fun tree base => test_chained tree base (first :: rest)
  rw [hpredicate, Option.getD_some] at hflags
  simp only [hpredicate, Option.getD_some] at htest
  refine ⟨predicate, hpredicate, hflags, fun fired base => ?_, fun tree base node run result => ?_,
    fun earlier extra tree base => ?_⟩
  · rw [withFlags_chained, hpredicate, Option.map_some]
  · rw [htest]
    exact testAll_eq_iff_inTurn
  · exact test_chained tree base [earlier, extra]

end Predicate

end TreeQuery
