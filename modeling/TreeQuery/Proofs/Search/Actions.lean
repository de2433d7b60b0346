import TreeQuery.Proofs.Search.Confinement
import TreeQuery.Proofs.Selector.Reading

/-!
# The steps of a session

A step of a session opens a cursor over a selector, moves a cursor on, or asks a selector. What it does
with the run is confined: a selector that is asked, and a cursor that was opened over it, ask the flags
of that selector and no others.

Main statement: every step is one of the three actions, with its part in them confined.
-/

namespace TreeQuery

mutual

/-- A predicate shows its own flags and no others. -/
theorem Predicate.withFlags_congr {fired fired' : Nat → Bool} : ∀ (base : Nat) (predicate : Predicate),
    (∀ flag, Stretch base predicate.flags.length flag → fired flag = fired' flag) →
      predicate.withFlags fired base = predicate.withFlags fired' base
  | _, .always, _ => rfl
  | _, .tag _, _ => rfl
  | _, .id _, _ => rfl
  | _, .hasClass _, _ => rfl
  | base, .all tests, h => congrArg Predicate.all (testsWithFlags_congr base tests h)
  | base, .not inner, h => congrArg Predicate.not (Predicate.withFlags_congr base inner h)
  | base, .has selector, h => congrArg Predicate.has (Selector.withFlags_congr base selector h)
  | base, .first _, h => congrArg Predicate.first (h base ⟨Nat.le_refl base, Nat.lt_succ_self base⟩)
  | _, .custom _, _ => rfl
termination_by structural _ predicate => predicate

/-- A list of tests shows its own flags and no others. -/
theorem testsWithFlags_congr {fired fired' : Nat → Bool} : ∀ (base : Nat) (tests : List Predicate),
    (∀ flag, Stretch base (flagsOfTests tests).length flag → fired flag = fired' flag) →
      testsWithFlags fired base tests = testsWithFlags fired' base tests
  | _, [], _ => rfl
  | base, first :: rest, h => by
    rw [flagsOfTests, List.length_append] at h
    have hfirst := Predicate.withFlags_congr base first fun flag hflag => h flag (hflag.left _)
    have hrest := testsWithFlags_congr _ rest fun flag hflag => h flag hflag.right
    rw [testsWithFlags, testsWithFlags, hfirst, hrest]
termination_by structural _ tests => tests

/-- A part shows its own flags and no others. -/
theorem Part.withFlags_congr {fired fired' : Nat → Bool} : ∀ (base : Nat) (part : Part),
    (∀ flag, Stretch base part.flags.length flag → fired flag = fired' flag) →
      part.withFlags fired base = part.withFlags fired' base
  | base, ⟨depth, predicate⟩, h => congrArg (Part.mk depth) (Predicate.withFlags_congr base predicate h)
termination_by structural _ part => part

/-- A list of parts shows its own flags and no others. -/
theorem partsWithFlags_congr {fired fired' : Nat → Bool} : ∀ (base : Nat) (parts : List Part),
    (∀ flag, Stretch base (flagsOfParts parts).length flag → fired flag = fired' flag) →
      partsWithFlags fired base parts = partsWithFlags fired' base parts
  | _, [], _ => rfl
  | base, part :: rest, h => by
    rw [flagsOfParts, List.length_append] at h
    have hpart := Part.withFlags_congr base part fun flag hflag => h flag (hflag.left _)
    have hrest := partsWithFlags_congr _ rest fun flag hflag => h flag hflag.right
    rw [partsWithFlags, partsWithFlags, hpart, hrest]
termination_by structural _ parts => parts

/-- A selector shows its own flags and no others. -/
theorem Selector.withFlags_congr {fired fired' : Nat → Bool} : ∀ (base : Nat) (selector : Selector),
    (∀ flag, Stretch base selector.flags.length flag → fired flag = fired' flag) →
      selector.withFlags fired base = selector.withFlags fired' base
  | base, ⟨head, rest⟩, h => by
    rw [Selector.flags, List.length_append] at h
    have hhead := Part.withFlags_congr base head fun flag hflag => h flag (hflag.left _)
    have hrest := partsWithFlags_congr _ rest fun flag hflag => h flag hflag.right
    rw [Selector.withFlags, Selector.withFlags, hhead, hrest]
termination_by structural _ selector => selector

end

namespace Cursor

variable {own : Nat → Prop}

/-- A cursor all of whose tests are confined. -/
def Confined (own : Nat → Prop) : Cursor → Prop
  | .searching search => search.Confined own
  | .walking test _ => test.Confined own
  | .dropped => True

/-- A cursor that is confined to some flags is confined to more flags. -/
theorem Confined.mono {more : Nat → Prop} {cursor : Cursor} (h : cursor.Confined own)
    (hmore : ∀ flag, own flag → more flag) : cursor.Confined more := by
  cases cursor with
  | searching search =>
    intro level hlevel
    obtain ⟨htest, hrest⟩ := h level hlevel
    exact ⟨htest.mono hmore, fun stage hstage => (hrest stage hstage).mono hmore⟩
  | walking test walk => exact Test.Confined.mono h hmore
  | dropped => trivial

/-- A way to move a cursor on that is confined and leaves the cursor so. -/
structure Moves {α : Type} (own : Nat → Prop) (act : Run → α × Cursor × Run) : Prop where
  confined : TreeQuery.Confined own fun run => (((act run).1, (act run).2.1), (act run).2.2)
  keeps : ∀ run, (act run).2.1.Confined own

/-- The next node of a confined cursor. -/
theorem moves_next (tree : Tree) {cursor : Cursor} (h : cursor.Confined own) :
    Moves own fun run => cursor.next tree run := by
  cases cursor with
  | searching search =>
    constructor
    · convert (Search.confined_next tree h).map fun found =>
        (found.map Prod.fst, Cursor.searching ((found.map Prod.snd).getD [])) using 1
      funext run
      rw [next]
      rcases search.next tree run with ⟨_ | ⟨node, after⟩, run'⟩ <;> rfl
    · intro run
      rw [next]
      rcases hnext : search.next tree run with ⟨_ | ⟨node, after⟩, run'⟩
      · simp [Confined, Search.Confined]
      · exact h.next (congrArg Prod.fst hnext)
  | walking test walk =>
    constructor
    · convert (Walk.confined_next tree h walk).map fun found =>
        (found.map Prod.fst, Cursor.walking test ((found.map Prod.snd).getD [])) using 1
      funext run
      rw [next]
      rcases walk.next tree test run with ⟨_ | ⟨node, after⟩, run'⟩ <;> rfl
    · intro run
      rw [next]
      rcases walk.next tree test run with ⟨_ | ⟨node, after⟩, run'⟩ <;> exact h
  | dropped => exact ⟨.pure (none, dropped), fun _ => trivial⟩

/-- The next nodes of a confined cursor. -/
theorem moves_take (tree : Tree) (count : Nat) {cursor : Cursor} (h : cursor.Confined own) :
    Moves own fun run => take tree count run cursor := by
  induction count generalizing cursor with
  | zero => exact ⟨.pure ([], cursor), fun _ => h⟩
  | succ count ih =>
    have hnext := moves_next tree h
    constructor
    · convert hnext.confined.bind (fun found run => match found with
        | (none, cursor) => (([], cursor), run)
        | (some node, cursor) => (((node :: (take tree count run cursor).1),
            (take tree count run cursor).2.1), (take tree count run cursor).2.2)) ?_ using 1
      · funext run
        rw [take]
        rcases cursor.next tree run with ⟨_ | node, cursor', run'⟩ <;> rfl
      · intro run
        have hkeeps := hnext.keeps run
        rcases hfound : cursor.next tree run with ⟨_ | node, cursor', run'⟩
        · exact .pure ([], cursor')
        · rw [hfound] at hkeeps
          exact (ih hkeeps).confined.map fun found => (node :: found.1, found.2)
    · intro run
      have hkeeps := hnext.keeps run
      rw [take]
      rcases hfound : cursor.next tree run with ⟨_ | node, cursor', run'⟩
      · rw [hfound] at hkeeps
        exact hkeeps
      · rw [hfound] at hkeeps
        exact (ih hkeeps).keeps run'

end Cursor

namespace Session

/-- What a step does, by what it acts on. -/
inductive Action where
  /-- Open a cursor over a selector. -/
  | opens (selector : Nat) (cursor : Tree → Selector → Nat → Cursor)
  /-- Move a cursor on. -/
  | moves (cursor : Nat) (act : Tree → Cursor → Run → Answer × Cursor × Run)
  /-- Ask a selector. -/
  | asks (selector : Nat) (act : Tree → Selector → Nat → Run → Answer × Run)

/-- Do what an action says. -/
def perform (session : Session) : Action → Answer × Session
  | .opens index cursor =>
    session.withSelector index fun selector base => session.addCursor (cursor session.tree selector base)
  | .moves index act => session.withCursor index fun cursor => act session.tree cursor session.run
  | .asks index act =>
    session.withSelector index fun selector base =>
      let (answer, run) := act session.tree selector base session.run
      (answer, { session with run })

/-- The action of a step. -/
def Step.action : Step → Action
  | .select index node => .opens index fun tree selector base => .searching (selector.search tree base node)
  | .enumerate index node depth =>
    .opens index fun tree selector base =>
      .walking (selector.head.predicate.test tree base) (.start tree node depth)
  | .next index =>
    .moves index fun tree cursor run =>
      (.found (cursor.next tree run).1, (cursor.next tree run).2)
  | .take index count =>
    .moves index fun tree cursor run =>
      (.collected (cursor.take tree count run).1, (cursor.take tree count run).2)
  | .drop index => .moves index fun _ _ run => (.dropped, .dropped, run)
  | .all index node =>
    .asks index fun tree selector base run =>
      let (nodes, run) := (selector.search tree base node).collect tree run
      (.collected nodes, run)
  | .first index node =>
    .asks index fun tree selector base run =>
      let (found, run) := (selector.search tree base node).next tree run
      (.found (found.map Prod.fst), run)
  | .nodeMatches index node =>
    .asks index fun tree selector base run =>
      match selector.toPredicate with
      | .error error => (.refused error, run)
      | .ok predicate =>
        let (answer, run) := predicate.test tree base node run
        (.truth answer, run)
  | .test index node =>
    .asks index fun tree selector base run =>
      let (answer, run) := selector.head.predicate.test tree base node run
      (.truth answer, run)
  | .look index =>
    .asks index fun _ selector base run => (.selector (selector.withFlags run.fired base), run)

/-- A step does what its action says. -/
theorem step_eq_perform (session : Session) (step : Step) : session.step step = session.perform step.action := by
  cases step with
  | nodeMatches index node =>
    simp only [Session.step, perform, Step.action, withSelector]
    cases session.selectors[index]? with
    | none => rfl
    | some entry =>
      dsimp only
      cases entry.1.toPredicate <;> rfl
  | _ => rfl

/-- The part of a step in its action is confined to the flags of the selector that it is about. -/
def Action.Confined : Action → Prop
  | .opens _ cursor =>
    ∀ tree selector base, (cursor tree selector base).Confined (Stretch base selector.flags.length)
  | .moves _ act => ∀ tree own (cursor : Cursor), cursor.Confined own → Cursor.Moves own (act tree cursor)
  | .asks _ act =>
    ∀ tree selector base, TreeQuery.Confined (Stretch base selector.flags.length) (act tree selector base)

/-- The first predicate of a selector is confined to the flags of the selector. -/
theorem confined_head (tree : Tree) (base : Nat) (selector : Selector) :
    Test.Confined (Stretch base selector.flags.length) (selector.head.predicate.test tree base) := by
  have hstages := selector.confined_stages tree base
  obtain ⟨⟨depth, predicate⟩, rest⟩ := selector
  exact hstages _ List.mem_cons_self

/-- Every step is confined. -/
theorem Step.confined_action (step : Step) : step.action.Confined := by
  cases step with
  | select index node => exact fun tree selector base => selector.confined_search tree base node
  | enumerate index node depth => exact fun tree selector base => confined_head tree base selector
  | next index =>
    intro tree own cursor h
    have hnext := Cursor.moves_next tree h
    exact ⟨hnext.confined.map fun found => (Answer.found found.1, found.2), hnext.keeps⟩
  | take index count =>
    intro tree own cursor h
    have htake := Cursor.moves_take tree count h
    exact ⟨htake.confined.map fun found => (Answer.collected found.1, found.2), htake.keeps⟩
  | drop index => exact fun tree own cursor h => ⟨.pure (Answer.dropped, Cursor.dropped), fun _ => trivial⟩
  | all index node =>
    exact fun tree selector base =>
      (Search.confined_collect tree (selector.confined_search tree base node)).map Answer.collected
  | first index node =>
    exact fun tree selector base =>
      (Search.confined_next tree (selector.confined_search tree base node)).map
        fun found => Answer.found (found.map Prod.fst)
  | nodeMatches index node =>
    intro tree selector base
    dsimp only [Step.action]
    cases hsimple : selector.toPredicate with
    | error error => exact .pure _
    | ok predicate =>
      rw [Grammar.toPredicate_eq_ok_iff.mp hsimple]
      exact (confined_head tree base (.simple predicate) node).map Answer.truth
  | test index node =>
    exact fun tree selector base => (confined_head tree base selector node).map Answer.truth
  | look index =>
    intro tree selector base left right halike
    exact ⟨congrArg Answer.selector (selector.withFlags_congr base halike), .refl _ left right⟩

end Session

end TreeQuery
