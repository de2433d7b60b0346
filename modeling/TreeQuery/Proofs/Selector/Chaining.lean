import TreeQuery.Proofs.Selector.Grammar

/-!
# Chaining the tests of a compound

The compiler has no list of tests. It chains each test to what it has so far, which is nothing, a single
test or a conjunction, and takes a conjunction that it finds there for its own. The grammar conjoins the
list of all tests at once. Both come to the same because no test of a text is a conjunction by itself.

Main statements: a test chained to the conjunction of others makes the conjunction of all of them, and the
tests that a compound has are none of them conjunctions.
-/

namespace TreeQuery.Grammar

variable {Inner : List Char → Selector → Prop}

/-- A predicate that is no conjunction. -/
def Single (predicate : Predicate) : Prop := ∀ tests, predicate ≠ .all tests

/-- What the next test is chained to behind some tests: nothing, or their conjunction. -/
def soFar (tests : List Predicate) : Option Predicate :=
  if tests.isEmpty then none else some (conjunction tests)

/-- Behind all tests of a compound stands their conjunction. -/
theorem soFar_getD (tests : List Predicate) : (soFar tests).getD .always = conjunction tests := by
  cases tests <;> rfl

/-- A test chained to the conjunction of others makes the conjunction of all of them. -/
theorem chain_soFar {tests : List Predicate} (h : ∀ test ∈ tests, Single test) (test : Predicate) :
    Predicate.chain (soFar tests) test = conjunction (tests ++ [test]) := by
  match tests with
  | [] => rfl
  | [first] =>
    have hfirst := h first List.mem_cons_self
    change Predicate.chain (some first) test = .all [first, test]
    unfold Predicate.chain
    split
    next hnone => cases hnone
    next hall => exact absurd (Option.some.inj hall) (hfirst _)
    next hsome => rw [Option.some.inj hsome]
  | first :: second :: rest => rfl

/-- The same for what the next test is chained to. -/
theorem some_chain_soFar {tests : List Predicate} (h : ∀ test ∈ tests, Single test) (test : Predicate) :
    some (Predicate.chain (soFar tests) test) = soFar (tests ++ [test]) := by
  rw [chain_soFar h, soFar, if_neg (by simp)]

/-- The test for a tag has the characters of the tag in lower case. -/
theorem ofTag_ofList (name : List Char) :
    Predicate.ofTag (.ofList name) = .tag (.ofList (name.map Char.toLower)) := by
  rw [Predicate.ofTag, Text.lower, String.toList_ofList]

/-- The test for a tag is no conjunction. -/
theorem single_tag (name : String) : ∀ predicate ∈ [Predicate.tag name], Single predicate :=
  List.forall_mem_singleton.mpr fun _ heq => by cases heq

/-- A test is no conjunction. -/
theorem Test.single {text rest : List Char} {predicate : Predicate} (h : Test Inner text predicate rest) :
    Single predicate := by
  intro tests heq
  cases h <;> cases heq

/-- A test behind others brings in no conjunction. -/
theorem Test.single_concat {text rest : List Char} {before : List Predicate} {test : Predicate}
    (h : Test Inner text test rest) (hbefore : ∀ predicate ∈ before, Single predicate) :
    ∀ predicate ∈ before ++ [test], Single predicate :=
  List.forall_mem_append.mpr ⟨hbefore, List.forall_mem_singleton.mpr h.single⟩

/-- None of a run of tests is a conjunction. -/
theorem Tests.single {text rest : List Char} {predicates : List Predicate}
    (h : Tests Inner text predicates rest) : ∀ predicate ∈ predicates, Single predicate := by
  induction h with
  | done rest => exact List.forall_mem_nil _
  | more first others ih => exact List.forall_mem_cons.mpr ⟨first.single, ih⟩

/-- None of the tests of a compound is a conjunction. -/
theorem Body.single {text rest : List Char} {predicates : List Predicate}
    (h : Body Inner text predicates rest) : ∀ predicate ∈ predicates, Single predicate := by
  cases h with
  | any tests => exact tests.single
  | tag hname tests => exact List.forall_mem_append.mpr ⟨single_tag _, tests.single⟩
  | bare tests => exact tests.single

end TreeQuery.Grammar
