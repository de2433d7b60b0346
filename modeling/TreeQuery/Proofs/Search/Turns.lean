import Mathlib.Data.List.Forall2
import Mathlib.Logic.Relation
import TreeQuery.Proofs.Selector.Throughout
import TreeQuery.Search.Query

/-!
# Searching turn by turn, without a horizon

The walk of a part that has no bound gets the horizon of the tree, which makes every walk a finite thing.
Here no bound is no bound. A search is said by what it does turn after turn, and a test or a call comes to
something only if a finite number of turns leads to it: on an arena with cycles there may be no end of turns,
and then it comes to nothing.

Main statement: where every part has a bound, in the chain and inside of every `has`, each test comes to the
answer of the library, each call to the next find of the library, and after finitely many calls there is none.
-/

namespace TreeQuery

/-- Every part of a selector has a bound, in the chain and inside of every `has`. -/
def Selector.Bounded (selector : Selector) : Prop :=
  selector.Throughout AnyTest fun depth => depth.isSome = true

namespace Turns

/-- The children of one node that a walk has still to visit, and the bound that applies to them. -/
structure Layer where
  pending : List NodeId
  bound : Option Nat

/-- The layers of a walk that begins below a node. -/
def start (tree : Tree) (node : NodeId) (depth : Option Nat) : List Layer :=
  if depth = some 0 then [] else [⟨tree.children node, depth⟩]

/-- One turn of a walk. A layer that has no children left is left behind. Otherwise the next child is taken,
and its own children are put on top if the bound lets the walk go down. -/
inductive Turn (tree : Tree) : List Layer → Option NodeId → List Layer → Prop
  | leave {bound : Option Nat} {below : List Layer} : Turn tree (⟨[], bound⟩ :: below) none below
  | down {child : NodeId} {pending : List NodeId} {bound : Option Nat} {below : List Layer}
      (hbound : ∀ levels ∈ bound, 1 < levels) :
      Turn tree (⟨child :: pending, bound⟩ :: below) (some child)
        (⟨tree.children child, bound.map (· - 1)⟩ :: ⟨pending, bound⟩ :: below)
  | flat {child : NodeId} {pending : List NodeId} {levels : Nat} {below : List Layer}
      (hlevels : levels ≤ 1) :
      Turn tree (⟨child :: pending, some levels⟩ :: below) (some child) (⟨pending, some levels⟩ :: below)

/-- What testing a node may come to: the answer, and the run that it leaves. -/
abbrev Asking := NodeId → Run → Bool → Run → Prop

/-- What looking for the next match of a walk comes to. -/
inductive NextMatch (tree : Tree) (asks : Asking) :
    List Layer → Run → Option (NodeId × List Layer) → Run → Prop
  | exhausted {run : Run} : NextMatch tree asks [] run none run
  | leave {walk after : List Layer} {run last : Run} {outcome : Option (NodeId × List Layer)}
      (turn : Turn tree walk none after) (rest : NextMatch tree asks after run outcome last) :
      NextMatch tree asks walk run outcome last
  | hit {walk after : List Layer} {child : NodeId} {run last : Run} (turn : Turn tree walk (some child) after)
      (answer : asks child run true last) : NextMatch tree asks walk run (some (child, after)) last
  | miss {walk after : List Layer} {child : NodeId} {run middle last : Run}
      {outcome : Option (NodeId × List Layer)} (turn : Turn tree walk (some child) after)
      (answer : asks child run false middle) (rest : NextMatch tree asks after middle outcome last) :
      NextMatch tree asks walk run outcome last

/-- One stage of a chain: how deep it looks, and what its test may come to. -/
structure Stage where
  depth : Option Nat
  asks : Asking

/-- A stage that is under way: what its test may come to, the stages behind it, and the layers of its walk. -/
structure Level where
  asks : Asking
  rest : List Stage
  walk : List Layer

/-- Begin a stage below a node. -/
def enter (tree : Tree) (node : NodeId) (stage : Stage) (rest : List Stage) : Level :=
  ⟨stage.asks, rest, start tree node stage.depth⟩

/-- What a call for the next find of a search comes to. -/
inductive NextFind (tree : Tree) : List Level → Run → Option (NodeId × List Level) → Run → Prop
  | exhausted {run : Run} : NextFind tree [] run none run
  | leave {level : Level} {below : List Level} {run middle last : Run}
      {outcome : Option (NodeId × List Level)} (walk : NextMatch tree level.asks level.walk run none middle)
      (others : NextFind tree below middle outcome last) : NextFind tree (level :: below) run outcome last
  | find {level : Level} {below : List Level} {node : NodeId} {after : List Layer} {run last : Run}
      (hlast : level.rest = []) (walk : NextMatch tree level.asks level.walk run (some (node, after)) last) :
      NextFind tree (level :: below) run (some (node, { level with walk := after } :: below)) last
  | enter {level : Level} {below : List Level} {stage : Stage} {rest : List Stage} {node : NodeId}
      {after : List Layer} {run middle last : Run} {outcome : Option (NodeId × List Level)}
      (hnext : level.rest = stage :: rest)
      (walk : NextMatch tree level.asks level.walk run (some (node, after)) middle)
      (others : NextFind tree (enter tree node stage rest :: { level with walk := after } :: below) middle
        outcome last) : NextFind tree (level :: below) run outcome last

/-- What calls up to the first one without a find come to: the finds in order, and the run at the end. -/
inductive Exhausts (tree : Tree) : List Level → Run → List NodeId → Run → Prop
  | done {levels : List Level} {run last : Run} (call : NextFind tree levels run none last) :
      Exhausts tree levels run [] last
  | find {levels after : List Level} {node : NodeId} {finds : List NodeId} {run middle last : Run}
      (call : NextFind tree levels run (some (node, after)) middle)
      (others : Exhausts tree after middle finds last) : Exhausts tree levels run (node :: finds) last

mutual

/-- What testing a node comes to. The `has` predicate makes one call of a search of its own. -/
def Answers (tree : Tree) : Nat → Predicate → Asking
  | _, .always => fun _ run answer last => answer = true ∧ last = run
  | _, .tag name => fun node run answer last =>
    answer = Text.sameIgnoringCase (tree.nodeName node) name ∧ last = run
  | _, .id value => fun node run answer last => answer = (tree.id? node == some value) ∧ last = run
  | _, .hasClass name => fun node run answer last => answer = tree.hasClass node name ∧ last = run
  | base, .all tests => AnswersAll tree base tests
  | base, .not inner => fun node run answer last => Answers tree base inner node run (!answer) last
  | base, .has selector => fun node run answer last =>
    match stages tree base selector with
    | (stage, rest) =>
      ∃ found, NextFind tree [enter tree node stage rest] run found last ∧ answer = found.isSome
  | base, .first _ => fun _ run answer last => (answer, last) = run.ask base
  | _, .custom test => fun node run answer last => answer = test tree node ∧ last = run.visit node
termination_by structural _ predicate => predicate

/-- What making tests in order comes to, up to the first that fails. -/
def AnswersAll (tree : Tree) : Nat → List Predicate → Asking
  | _, [] => fun _ run answer last => answer = true ∧ last = run
  | base, first :: rest => fun node run answer last =>
    (∃ middle, Answers tree base first node run true middle ∧
        AnswersAll tree (base + first.flags.length) rest node middle answer last) ∨
      Answers tree base first node run false last ∧ answer = false
termination_by structural _ tests => tests

/-- The stage of a part. -/
def stage (tree : Tree) : Nat → Part → Stage
  | base, ⟨depth, predicate⟩ => ⟨depth, Answers tree base predicate⟩
termination_by structural _ part => part

/-- The stages of a list of parts. -/
def stagesOf (tree : Tree) : Nat → List Part → List Stage
  | _, [] => []
  | base, part :: rest => stage tree base part :: stagesOf tree (base + part.flags.length) rest
termination_by structural _ parts => parts

/-- The first stage of a selector and those behind it. -/
def stages (tree : Tree) : Nat → Selector → Stage × List Stage
  | base, ⟨head, rest⟩ => (stage tree base head, stagesOf tree (base + head.flags.length) rest)
termination_by structural _ selector => selector

end

/-- The levels of the search for a selector below a node; the flags of the selector are counted from `base`. -/
def search (tree : Tree) (base : Nat) (selector : Selector) (node : NodeId) : List Level :=
  match stages tree base selector with
  | (stage, rest) => [enter tree node stage rest]

/-- The layers of a walk of the library. -/
def layers (walk : Walk) : List Layer := walk.map fun frame => ⟨frame.pending, some frame.bound⟩

/-- A test may come to what a test of the library does. -/
def Settles (asks : Asking) (test : Test) : Prop := ∀ node run, asks node run (test node run).1 (test node run).2

/-- A stage has a bound, and the stage of the library has the same; its test comes to what the other does. -/
structure StageSettles (stage : Stage) (other : TreeQuery.Stage) : Prop where
  depth : stage.depth = other.depth
  bounded : other.depth.isSome = true
  asks : Settles stage.asks other.test

/-- A level stands where a level of the library does, and its tests come to what the others do. -/
structure LevelSettles (level : Level) (other : TreeQuery.Level) : Prop where
  asks : Settles level.asks other.test
  rest : List.Forall₂ StageSettles level.rest other.rest
  walk : level.walk = layers other.walk

variable {tree : Tree}

/-- A walk that has just begun with a bound has the layers of the library's. -/
theorem start_eq {depth : Option Nat} (hbounded : depth.isSome = true) (node : NodeId) :
    start tree node depth = layers (.start tree node depth) := by
  obtain ⟨levels, rfl⟩ := Option.isSome_iff_exists.mp hbounded
  rw [start, Walk.start]
  split <;> rfl

/-- A walk that cannot advance comes to its end. -/
theorem nextMatch_of_advance_none {asks : Asking} {walk : Walk} (h : walk.advance tree = none) (run : Run) :
    NextMatch tree asks (layers walk) run none run := by
  induction walk with
  | nil => exact .exhausted
  | cons frame below ih =>
    obtain ⟨pending, bound⟩ := frame
    cases pending with
    | nil => exact .leave .leave (ih (by simpa [Walk.advance] using h))
    | cons child pending => simp [Walk.advance] at h

/-- A walk that advances leaves some layers behind, and then takes the node that it advances to. -/
theorem exists_turn_of_advance {walk after : Walk} {node : NodeId} (h : walk.advance tree = some (node, after)) :
    ∃ middle, Relation.ReflTransGen (Turn tree · none ·) (layers walk) middle ∧
      Turn tree middle (some node) (layers after) := by
  induction walk with
  | nil => simp [Walk.advance] at h
  | cons frame below ih =>
    obtain ⟨pending, bound⟩ := frame
    cases pending with
    | nil =>
      obtain ⟨middle, hleaves, hturn⟩ := ih (by simpa [Walk.advance] using h)
      exact ⟨middle, .head .leave hleaves, hturn⟩
    | cons child pending =>
      simp only [Walk.advance, Option.some.injEq, Prod.mk.injEq] at h
      obtain ⟨rfl, rfl⟩ := h
      refine ⟨_, .refl, ?_⟩
      split
      next hbound => exact .down fun levels hlevels => Option.mem_some_iff.mp hlevels ▸ hbound
      next hbound => exact .flat (Nat.le_of_not_lt hbound)

/-- Leaving layers behind makes no difference to the next match. -/
theorem NextMatch.of_leaves {asks : Asking} {walk middle : List Layer} {run last : Run}
    {outcome : Option (NodeId × List Layer)} (hleaves : Relation.ReflTransGen (Turn tree · none ·) walk middle)
    (hmatch : NextMatch tree asks middle run outcome last) : NextMatch tree asks walk run outcome last := by
  induction hleaves using Relation.ReflTransGen.head_induction_on with
  | refl => exact hmatch
  | head hturn _ ih => exact .leave hturn ih

/-- Looking for the next match comes to the match of the library. -/
theorem nextMatch_next {asks : Asking} {test : Test} (h : Settles asks test) (walk : Walk) (run : Run) :
    NextMatch tree asks (layers walk) run
      ((walk.next tree test run).1.map fun found => (found.1, layers found.2)) (walk.next tree test run).2 := by
  fun_induction Walk.next tree test walk run with
  | case1 walk run hadvance => exact nextMatch_of_advance_none hadvance run
  | case2 walk run node after hadvance run' htest =>
    obtain ⟨middle, hleaves, hturn⟩ := exists_turn_of_advance hadvance
    have hanswer := h node run
    rw [htest] at hanswer
    exact .of_leaves hleaves (.hit hturn hanswer)
  | case3 walk run node after hadvance run' htest ih =>
    obtain ⟨middle, hleaves, hturn⟩ := exists_turn_of_advance hadvance
    have hanswer := h node run
    rw [htest] at hanswer
    exact .of_leaves hleaves (.miss hturn hanswer ih)

/-- Looking for the next match of a level comes to the match of the library. -/
theorem LevelSettles.nextMatch {level : Level} {other : TreeQuery.Level} (h : LevelSettles level other)
    {run run' : Run} {found : Option (NodeId × Walk)} (hwalk : other.walk.next tree other.test run = (found, run')) :
    NextMatch tree level.asks level.walk run (found.map fun found => (found.1, layers found.2)) run' := by
  have hmatch : NextMatch tree level.asks _ run _ _ := nextMatch_next h.asks other.walk run
  rwa [hwalk, ← h.walk] at hmatch

/-- A level with another walk still stands where the library's level does with that walk. -/
theorem LevelSettles.setWalk {level : Level} {other : TreeQuery.Level} (h : LevelSettles level other)
    (walk : Walk) : LevelSettles { level with walk := layers walk } { other with walk } :=
  ⟨h.asks, h.rest, rfl⟩

/-- What a call comes to is what the call of the library does: none, or the same node, and levels that stand
where those of the library do. -/
def FindSettles (found : Option (NodeId × List Level)) (other : Option (NodeId × Search)) : Prop :=
  Option.Rel (fun found other => found.1 = other.1 ∧ List.Forall₂ LevelSettles found.2 other.2) found other

/-- A call finds something where the call of the library does. -/
theorem FindSettles.isSome_eq {found : Option (NodeId × List Level)} {other : Option (NodeId × Search)}
    (h : FindSettles found other) : found.isSome = other.isSome := by
  cases h with
  | none => rfl
  | some => rfl

/-- Beginning a stage that has a bound stands where the library begins it. -/
theorem levelSettles_enter {stage : Stage} {other : TreeQuery.Stage} {rest : List Stage}
    {others : List TreeQuery.Stage} (hstage : StageSettles stage other)
    (hrest : List.Forall₂ StageSettles rest others) (node : NodeId) :
    LevelSettles (enter tree node stage rest) (Search.enter tree node other others) where
  asks := hstage.asks
  rest := hrest
  walk := by
    rw [enter, Search.enter, hstage.depth]
    exact start_eq hstage.bounded node

/-- A call for the next find comes to the find of the library. -/
theorem exists_nextFind (tree : Tree) {levels : List Level} {search : Search}
    (h : List.Forall₂ LevelSettles levels search) (run : Run) :
    ∃ found, NextFind tree levels run found (search.next tree run).2 ∧
      FindSettles found (search.next tree run).1 := by
  fun_induction Search.next tree search run generalizing levels with
  | case1 run =>
    cases h
    exact ⟨none, .exhausted, .none⟩
  | case2 run other below run' hwalk ih =>
    obtain ⟨level, levels, hlevel, hbelow, rfl⟩ := List.forall₂_cons_right_iff.mp h
    obtain ⟨found, hfind, hfound⟩ := ih hbelow
    exact ⟨found, .leave (hlevel.nextMatch hwalk) hfind, hfound⟩
  | case3 run other below node walk run' hwalk paused =>
    rename_i hrest
    obtain ⟨level, levels, hlevel, hbelow, rfl⟩ := List.forall₂_cons_right_iff.mp h
    have hlast := hlevel.rest
    rw [hrest, List.forall₂_nil_right_iff] at hlast
    exact ⟨_, .find hlast (hlevel.nextMatch hwalk), .some ⟨rfl, .cons (hlevel.setWalk walk) hbelow⟩⟩
  | case4 run other below node walk run' hwalk paused stage rest hrest =>
    rename_i ih
    obtain ⟨level, levels, hlevel, hbelow, rfl⟩ := List.forall₂_cons_right_iff.mp h
    have hnext := hlevel.rest
    rw [hrest] at hnext
    obtain ⟨first, others, hfirst, hothers, heq⟩ := List.forall₂_cons_right_iff.mp hnext
    obtain ⟨found, hfind, hfound⟩ :=
      ih (.cons (levelSettles_enter hfirst hothers node) (.cons (hlevel.setWalk walk) hbelow))
    exact ⟨found, .enter heq (hlevel.nextMatch hwalk) hfind, hfound⟩

/-- Calls up to the first one without a find come to the finds that the library collects. -/
theorem exhausts_collect {levels : List Level} {search : Search}
    (h : List.Forall₂ LevelSettles levels search) (run : Run) :
    Exhausts tree levels run (search.collect tree run).1 (search.collect tree run).2 := by
  fun_induction Search.collect tree search run generalizing levels with
  | case1 search run run' hnext =>
    obtain ⟨found, hfind, hfound⟩ := exists_nextFind tree h run
    rw [hnext] at hfind hfound
    cases hfound
    exact .done hfind
  | case2 search run node after run' hnext nodes last hcollect ih =>
    obtain ⟨found, hfind, hfound⟩ := exists_nextFind tree h run
    rw [hnext] at hfind hfound
    cases hfound with
    | some hfound =>
      obtain ⟨rfl, hafter⟩ := hfound
      have hrest := ih hafter
      rw [hcollect] at hrest
      exact .find hfind hrest

mutual

/-- Testing a node comes to the answer of the library, if every part inside of the predicate has a bound. -/
theorem settles_test : ∀ (base : Nat) {predicate : Predicate},
    predicate.Throughout AnyTest (fun depth => depth.isSome = true) →
      Settles (Answers tree base predicate) (predicate.test tree base)
  | _, .always, _ => fun _ _ => ⟨rfl, rfl⟩
  | _, .tag _, _ => fun _ _ => ⟨rfl, rfl⟩
  | _, .id _, _ => fun _ _ => ⟨rfl, rfl⟩
  | _, .hasClass _, _ => fun _ _ => ⟨rfl, rfl⟩
  | base, .all _, hbounded => settles_testAll base hbounded.2
  | base, .not inner, hbounded => fun node run => by
    simp only [Answers, Predicate.test, Bool.not_not]
    exact settles_test base hbounded.2 node run
  | base, .has selector, hbounded => fun node run => by
    obtain ⟨hstage, hrest⟩ := stages_settle base hbounded.2
    obtain ⟨found, hfind, hfound⟩ :=
      exists_nextFind tree (.cons (levelSettles_enter hstage hrest node) .nil) run
    exact ⟨found, hfind, hfound.isSome_eq.symm⟩
  | _, .first _, _ => fun _ _ => rfl
  | _, .custom _, _ => fun _ _ => ⟨rfl, rfl⟩
termination_by structural _ predicate => predicate

/-- Making tests in order comes to the answer of the library. -/
theorem settles_testAll : ∀ (base : Nat) {tests : List Predicate},
    TestsThroughout AnyTest (fun depth => depth.isSome = true) tests →
      Settles (AnswersAll tree base tests) (testAll tree base tests)
  | _, [], _ => fun _ _ => ⟨rfl, rfl⟩
  | base, first :: rest, hbounded => fun node run => by
    have hfirst := settles_test base hbounded.1 node run
    have hrest := settles_testAll (base + first.flags.length) hbounded.2 node
    simp only [AnswersAll, testAll]
    rcases hanswer : first.test tree base node run with ⟨_ | _, run'⟩
    · rw [hanswer] at hfirst
      exact Or.inr ⟨hfirst, rfl⟩
    · rw [hanswer] at hfirst
      exact Or.inl ⟨run', hfirst, hrest run'⟩
termination_by structural _ tests => tests

/-- The stage of a part with a bound settles. -/
theorem stage_settles : ∀ (base : Nat) {part : Part},
    part.Throughout AnyTest (fun depth => depth.isSome = true) →
      StageSettles (stage tree base part) (part.stage tree base)
  | base, ⟨_, _⟩, hbounded => ⟨rfl, hbounded.1, settles_test base hbounded.2⟩
termination_by structural _ part => part

/-- The stages of parts with bounds settle. -/
theorem stagesOf_settle : ∀ (base : Nat) {parts : List Part},
    PartsThroughout AnyTest (fun depth => depth.isSome = true) parts →
      List.Forall₂ StageSettles (stagesOf tree base parts) (TreeQuery.stagesOf tree base parts)
  | _, [], _ => .nil
  | base, part :: _, hbounded =>
    .cons (stage_settles base hbounded.1) (stagesOf_settle (base + part.flags.length) hbounded.2)
termination_by structural _ parts => parts

/-- The stages of a bounded selector settle. -/
theorem stages_settle : ∀ (base : Nat) {selector : Selector},
    selector.Throughout AnyTest (fun depth => depth.isSome = true) →
      StageSettles (stages tree base selector).1 (selector.stages tree base).1 ∧
        List.Forall₂ StageSettles (stages tree base selector).2 (selector.stages tree base).2
  | base, ⟨head, _⟩, hbounded =>
    ⟨stage_settles base hbounded.1, stagesOf_settle (base + head.flags.length) hbounded.2⟩
termination_by structural _ selector => selector

end

/-- The search for a bounded selector stands where the library's does. -/
theorem search_settles {selector : Selector} (hbounded : selector.Bounded) (base : Nat) (node : NodeId) :
    List.Forall₂ LevelSettles (search tree base selector node) (selector.search tree base node) := by
  obtain ⟨hstage, hrest⟩ := stages_settle base hbounded
  exact .cons (levelSettles_enter hstage hrest node) .nil

end Turns

end TreeQuery
