import TreeQuery.Proofs.Search.Moves

/-!
# Searches along confined tests

A walk whose test is confined to some flags is confined to them, step by step and as a whole, and so
is a search along confined tests. The flags of a predicate are a stretch that begins at its base; by
recursion through the predicates inside of it, its test is confined to that stretch.

Main statement: the search for a selector makes confined tests only, whatever it is asked for.
-/

namespace TreeQuery

variable {own : Nat → Prop}

/-- The search for the next node of a walk is confined if its test is. -/
theorem Walk.confined_next (tree : Tree) {test : Test} (h : test.Confined own) (walk : Walk) :
    Confined own (walk.next tree test) := by
  intro left right halike
  fun_induction Walk.next tree test walk left generalizing right with
  | case1 walk left hadvance =>
    rw [Walk.next_eq, hadvance]
    exact ⟨rfl, .refl own left right⟩
  | case2 walk left node after hadvance left' htest =>
    obtain ⟨right', hright, hruns⟩ := (h node).exists_abreast halike htest
    rw [Walk.next_eq, hadvance]
    simp only [hright]
    exact ⟨trivial, hruns⟩
  | case3 walk left node after hadvance left' htest ih =>
    obtain ⟨right', hright, hruns⟩ := (h node).exists_abreast halike htest
    obtain ⟨hvalue, hruns'⟩ := ih right' (hruns.alike halike)
    rw [Walk.next_eq tree test walk right, hadvance]
    simp only [hright]
    exact ⟨hvalue, hruns.trans hruns'⟩

namespace Search

/-- A search all of whose tests are confined: those under way and those behind them. -/
def Confined (own : Nat → Prop) (search : Search) : Prop :=
  ∀ level ∈ search, level.test.Confined own ∧ ∀ stage ∈ level.rest, stage.test.Confined own

/-- A search that begins with confined stages is confined. -/
theorem confined_enter (tree : Tree) {below : Search} (hbelow : Search.Confined own below) {stage : Stage}
    {rest : List Stage} (hstage : stage.test.Confined own)
    (hrest : ∀ stage ∈ rest, stage.test.Confined own) (node : NodeId) :
    Search.Confined own (enter tree node stage rest :: below) := by
  intro level hlevel
  rcases List.mem_cons.mp hlevel with rfl | hlevel
  · exact ⟨hstage, hrest⟩
  · exact hbelow level hlevel

/-- Where a walk has got to is nothing to the tests of its level. -/
theorem Confined.set_walk {level : Level} {below : Search}
    (h : Search.Confined own (level :: below)) (walk : Walk) :
    Search.Confined own ({ level with walk } :: below) := by
  intro other hother
  rcases List.mem_cons.mp hother with rfl | hother
  · exact h level List.mem_cons_self
  · exact h other (List.mem_cons_of_mem level hother)

/-- The search after a find makes no other tests. -/
theorem Confined.next {tree : Tree} {search after : Search} (h : search.Confined own) {node : NodeId} {run : Run}
    (hnext : (search.next tree run).1 = some (node, after)) : after.Confined own := by
  fun_induction Search.next tree search run with
  | case1 => simp at hnext
  | case2 run level below run' hwalk ih =>
    exact ih (fun other hother => h other (List.mem_cons_of_mem level hother)) hnext
  | case3 run level below found walk run' hwalk paused hrest =>
    simp only [Option.some.injEq, Prod.mk.injEq] at hnext
    obtain ⟨rfl, rfl⟩ := hnext
    exact h.set_walk walk
  | case4 run level below found walk run' hwalk paused stage rest hrest ih =>
    have hstages := (h level List.mem_cons_self).2
    rw [hrest, List.forall_mem_cons] at hstages
    exact ih (confined_enter tree (h.set_walk walk) hstages.1 hstages.2 found) hnext

/-- The search for the next find is confined if the tests are. -/
theorem confined_next (tree : Tree) {search : Search} (h : search.Confined own) :
    TreeQuery.Confined own (search.next tree) := by
  intro left right halike
  fun_induction Search.next tree search left generalizing right with
  | case1 left =>
    rw [Search.next]
    exact ⟨rfl, .refl own left right⟩
  | case2 left level below left' hwalk ih =>
    have hwalks := Walk.confined_next tree (h level List.mem_cons_self).1 level.walk
    obtain ⟨right', hright, hruns⟩ := hwalks.exists_abreast halike hwalk
    obtain ⟨hvalue, hruns'⟩ :=
      ih (fun other hother => h other (List.mem_cons_of_mem level hother)) right' (hruns.alike halike)
    rw [next_cons tree level below right, hright]
    exact ⟨hvalue, hruns.trans hruns'⟩
  | case3 left level below found walk left' hwalk paused hrest =>
    have hwalks := Walk.confined_next tree (h level List.mem_cons_self).1 level.walk
    obtain ⟨right', hright, hruns⟩ := hwalks.exists_abreast halike hwalk
    rw [next_cons tree level below right, hright]
    simp only [paused, hrest]
    exact ⟨trivial, hruns⟩
  | case4 left level below found walk left' hwalk paused stage rest hrest ih =>
    have hstages := (h level List.mem_cons_self).2
    rw [hrest, List.forall_mem_cons] at hstages
    have hwalks := Walk.confined_next tree (h level List.mem_cons_self).1 level.walk
    obtain ⟨right', hright, hruns⟩ := hwalks.exists_abreast halike hwalk
    obtain ⟨hvalue, hruns'⟩ := ih (confined_enter tree (h.set_walk walk) hstages.1 hstages.2 found) right'
      (hruns.alike halike)
    rw [next_cons tree level below right, hright]
    simp only [paused, hrest] at hvalue hruns' ⊢
    exact ⟨hvalue, hruns.trans hruns'⟩

/-- Collecting all finds is confined if the tests are. -/
theorem confined_collect (tree : Tree) {search : Search} (h : search.Confined own) :
    TreeQuery.Confined own (search.collect tree) := by
  intro left right halike
  fun_induction Search.collect tree search left generalizing right with
  | case1 search left left' hnext =>
    obtain ⟨right', hright, hruns⟩ := (confined_next tree h).exists_abreast halike hnext
    rw [collect_eq, hright]
    exact ⟨rfl, hruns⟩
  | case2 search left node after left' hnext nodes last hcollect ih =>
    obtain ⟨right', hright, hruns⟩ := (confined_next tree h).exists_abreast halike hnext
    obtain ⟨hnodes, hruns'⟩ := ih (h.next (congrArg Prod.fst hnext)) right' (hruns.alike halike)
    rw [hcollect] at hnodes hruns'
    rw [collect_eq, hright]
    exact ⟨congrArg (node :: ·) hnodes, hruns.trans hruns'⟩

end Search

/-- The flags that are counted from a first one. -/
def Stretch (first length flag : Nat) : Prop := first ≤ flag ∧ flag < first + length

/-- The first part of a stretch. -/
theorem Stretch.left {first length flag : Nat} (h : Stretch first length flag) (more : Nat) :
    Stretch first (length + more) flag := ⟨h.1, Nat.lt_of_lt_of_le h.2 (by omega)⟩

/-- The part of a stretch behind a first part. -/
theorem Stretch.right {first length more flag : Nat} (h : Stretch (first + length) more flag) :
    Stretch first (length + more) flag := ⟨Nat.le_trans (by omega) h.1, Nat.lt_of_lt_of_le h.2 (by omega)⟩

/-- Nothing is in the first stretch and in the one behind it. -/
theorem Stretch.not_behind {length flag : Nat} (h : Stretch 0 length flag) (more : Nat) :
    ¬ Stretch length more flag := fun hbehind =>
  Nat.not_lt.mpr hbehind.1 (by simpa using h.2)

/-- A test that is confined to some flags is confined to more flags. -/
theorem Test.Confined.mono {more : Nat → Prop} {test : Test} (h : test.Confined own)
    (hmore : ∀ flag, own flag → more flag) : test.Confined more := fun node => (h node).mono hmore

mutual

/-- The test of a predicate is confined to its flags. -/
theorem Predicate.confined_test (tree : Tree) : ∀ (base : Nat) (predicate : Predicate),
    Test.Confined (Stretch base predicate.flags.length) (predicate.test tree base)
  | _, .always, _ => .pure true
  | _, .tag name, node => .pure _
  | _, .id value, node => .pure _
  | _, .hasClass name, node => .pure _
  | base, .all tests, node => confined_testAll tree base tests node
  | base, .not inner, node => (Predicate.confined_test tree base inner node).map not
  | base, .has selector, node => by
    obtain ⟨hstage, hrest⟩ := List.forall_mem_cons.mp (Selector.confined_stages tree base selector)
    have hempty : Search.Confined (Stretch base selector.flags.length) [] := by simp [Search.Confined]
    have hsearch := Search.confined_enter tree hempty hstage hrest node
    exact (Search.confined_next tree hsearch).map Option.isSome
  | base, .first fired, _ => confined_ask ⟨Nat.le_refl base, by simp [Predicate.flags]⟩
  | _, .custom answer, node => confined_visit _ node
termination_by structural _ predicate => predicate

/-- Making tests in order is confined to their flags. -/
theorem confined_testAll (tree : Tree) : ∀ (base : Nat) (tests : List Predicate),
    Test.Confined (Stretch base (flagsOfTests tests).length) (testAll tree base tests)
  | _, [], _ => .pure true
  | base, first :: rest, node => by
    have hfirst := (Predicate.confined_test tree base first node).mono
      fun _ h => h.left (flagsOfTests rest).length
    have hrest := (confined_testAll tree (base + first.flags.length) rest node).mono
      fun _ h => Stretch.right h
    have hall := hfirst.bind (fun answer run =>
      if answer then testAll tree (base + first.flags.length) rest node run else (false, run)) fun run => by
        cases (first.test tree base node run).1
        · exact .pure false
        · exact hrest
    rw [flagsOfTests, List.length_append]
    convert hall using 1
    funext run
    rw [testAll]
    rcases first.test tree base node run with ⟨_ | _, run'⟩ <;> rfl
termination_by structural _ tests => tests

/-- The test of a part is confined to its flags. -/
theorem Part.confined_stage (tree : Tree) : ∀ (base : Nat) (part : Part),
    (part.stage tree base).test.Confined (Stretch base part.flags.length)
  | base, ⟨_, predicate⟩ => Predicate.confined_test tree base predicate
termination_by structural _ part => part

/-- The tests of a list of parts are confined to their flags. -/
theorem confined_stagesOf (tree : Tree) : ∀ (base : Nat) (parts : List Part),
    ∀ stage ∈ stagesOf tree base parts, stage.test.Confined (Stretch base (flagsOfParts parts).length)
  | _, [], stage, hstage => by simp [stagesOf] at hstage
  | base, part :: rest, stage, hstage => by
    rw [flagsOfParts, List.length_append]
    rcases List.mem_cons.mp hstage with rfl | hstage
    · exact (Part.confined_stage tree base part).mono fun _ h => h.left _
    · exact (confined_stagesOf tree (base + part.flags.length) rest stage hstage).mono fun _ h => h.right
termination_by structural _ parts => parts

/-- The tests of a selector are confined to its flags. -/
theorem Selector.confined_stages (tree : Tree) : ∀ (base : Nat) (selector : Selector),
    ∀ stage ∈ (selector.stages tree base).1 :: (selector.stages tree base).2,
      stage.test.Confined (Stretch base selector.flags.length)
  | base, ⟨head, rest⟩, stage, hstage => by
    rw [Selector.flags, List.length_append]
    rcases List.mem_cons.mp hstage with rfl | hstage
    · exact (Part.confined_stage tree base head).mono fun _ h => h.left _
    · exact (confined_stagesOf tree (base + head.flags.length) rest stage hstage).mono fun _ h => h.right
termination_by structural _ selector => selector

end

/-- The search for a selector is confined to the flags of the selector. -/
theorem Selector.confined_search (selector : Selector) (tree : Tree) (base : Nat) (node : NodeId) :
    (selector.search tree base node).Confined (Stretch base selector.flags.length) := by
  obtain ⟨hstage, hrest⟩ := List.forall_mem_cons.mp (selector.confined_stages tree base)
  exact Search.confined_enter tree (by simp [Search.Confined]) hstage hrest node

end TreeQuery
