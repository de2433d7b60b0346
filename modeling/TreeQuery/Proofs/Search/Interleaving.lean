import TreeQuery.Proofs.Search.Ownership

/-!
# Interleaved searches

The steps of a session may come in any order, on any of its selectors and cursors. All of them move one
run on, so a `first` can answer yes only the first time that anything asks it. A selector without `first`
has no part in that: steps on it, or on a cursor that was opened over it, leave all flags alone, and they
answer what they would answer if nothing else had been going on.

For the second statement the steps on one selector and one cursor are taken out of a session and made in
one of their own. The two sessions stay twins: the cursor is at the same place in both, although their
runs have nothing to do with each other.

Main statement: what the steps of a session do to the flags, and which of the steps they depend on.
-/

namespace TreeQuery.Session

/-- Whether an action is on one selector by itself or on one cursor. Opening a cursor is on the cursor. -/
def concerns (session : Session) (selector cursor : Nat) : Action → Bool
  | .opens index _ => index < session.selectors.length && cursor == session.cursors.length
  | .moves index _ => index == cursor
  | .asks index _ => index == selector

/-- A step as it is made where its cursor is the only one. -/
def Step.alone : Step → Step
  | .next _ => .next 0
  | .take _ count => .take 0 count
  | .drop _ => .drop 0
  | step => step

/-- The answer of an action as it is given where its cursor is the only one. A cursor that is opened
gets the first place. -/
def Action.answerAlone : Action → Answer → Answer
  | .opens _ _, .opened _ => .opened 0
  | _, answer => answer

/-- Those of some steps that are on one selector by itself or on one cursor, with their answers and
events, as they are where all other steps are left out. -/
def extract (selector cursor : Nat) (session : Session) : List Step → List (Step × Answer × List Event)
  | [] => []
  | step :: rest =>
    let (answer, after) := session.make step
    let others := after.extract selector cursor rest
    if session.concerns selector cursor step.action then
      (step.alone, step.action.answerAlone answer, after.run.log) :: others
    else others

/-- A selector without `first`, if there is one at all. -/
def Flagless (session : Session) (index : Nat) : Prop :=
  ∀ entry ∈ session.selectors[index]?, entry.1.flags = []

/-- A selector without `first` has no flags. -/
theorem Flagless.not_flagsOf {session : Session} {index : Nat} (h : session.Flagless index) (flag : Nat) :
    ¬ session.flagsOf index flag := by
  intro hflag
  obtain ⟨entry, hentry, hfirst, hlast⟩ := hflag
  rw [h entry hentry, List.length_nil] at hlast
  omega

section

variable {session : Session} {owners : List Nat}

/-- Of all answers of a `first` only the first can be yes, and it is if the flag was down. -/
theorem Owned.getElem?_answers (h : session.Owned owners) (list : List Step) {flag place : Nat}
    {answer : Bool} (hanswer :
      (((session.steps list).1.flatMap Prod.snd).filterMap (Event.answer? flag))[place]? = some answer) :
    answer = true ↔ place = 0 ∧ session.run.fired flag = false := by
  obtain ⟨moves, hevents, -⟩ := h.steps_moves list
  have hspent : Spent (session.run.fired flag) (session.run.forget.answers flag)
      (session.run.forget.fired flag) := .unasked
  rw [hevents] at hanswer
  exact (Run.spent_moves hspent moves).getElem? hanswer

/-- Steps lower no flag. -/
theorem Owned.fired_steps (h : session.Owned owners) {flag : Nat} (hfired : session.run.fired flag = true)
    (list : List Step) : (session.steps list).2.run.fired flag = true := by
  obtain ⟨moves, -, hlast⟩ := h.steps_moves list
  have hup : session.run.forget.fired flag = true := hfired
  rw [hlast]
  exact Run.fired_moves_of_fired hup moves

/-- A step on a selector without `first` leaves the flags. -/
theorem Owned.fired_make (h : session.Owned owners) {step : Step} {index : Nat}
    (hindex : index ∈ step.action.on? owners) (hflagless : session.Flagless index) :
    (session.make step).2.run.fired = session.run.fired := by
  funext flag
  refine h.fired_make_of_not_flagsOf fun other hother => ?_
  obtain rfl := Option.mem_unique hother hindex
  exact hflagless.not_flagsOf flag

end

/-- An action as it is made where its cursor is the only one. -/
def Action.alone : Action → Action
  | .moves _ act => .moves 0 act
  | action => action

/-- A step by itself makes its action by itself. -/
theorem Step.action_alone (step : Step) : step.alone.action = step.action.alone := by
  cases step <;> rfl

/-- A session, and another one that has only the cursor at some place of the first. The cursor is
confined to no flags, so it is nothing to it that the runs differ. -/
structure Twins (place : Nat) (whole alone : Session) : Prop where
  tree_eq : alone.tree = whole.tree
  selectors_eq : alone.selectors = whole.selectors
  cursors_eq : alone.cursors = whole.cursors[place]?.toList
  confined : ∀ cursor ∈ whole.cursors[place]?, cursor.Confined fun _ => False

section

variable {index place : Nat} {whole alone : Session} {action : Action}

/-- The runs of twins may be any. -/
theorem Twins.set_run (h : Twins place whole alone) (run run' : Run) :
    Twins place { whole with run } { alone with run := run' } :=
  ⟨h.tree_eq, h.selectors_eq, h.cursors_eq, h.confined⟩

/-- What the part of an action without flags is confined to. -/
theorem Flagless.confined {α : Type} {session : Session} (h : session.Flagless index) {selector : Selector}
    {base : Nat} (hentry : session.selectors[index]? = some (selector, base)) {act : Run → α × Run}
    (hact : TreeQuery.Confined (Stretch base selector.flags.length) act) :
    TreeQuery.Confined (fun _ => False) act :=
  hact.mono fun flag hflag => h.not_flagsOf flag ⟨_, hentry, hflag⟩

/-- An action has the same answer in both twins, by the same moves, and leaves them twins. -/
structure InStep (place : Nat) (whole alone : Session) (action : Action) : Prop where
  answer_eq : (alone.perform action.alone).1 = action.answerAlone (whole.perform action).1
  abreast : Run.Abreast (fun _ => False) whole.run alone.run (whole.perform action).2.run
    (alone.perform action.alone).2.run
  twins : Twins place (whole.perform action).2 (alone.perform action.alone).2

/-- Opening the cursor of the twins over a selector without `first`. -/
theorem Twins.opens {cursor : Tree → Selector → Nat → Cursor} (h : Twins whole.cursors.length whole alone)
    (hcursor : (Action.opens index cursor).Confined) (hlt : index < whole.selectors.length)
    (hindex : whole.Flagless index) : InStep whole.cursors.length whole alone (.opens index cursor) := by
  have hentry := List.getElem?_eq_getElem hlt
  generalize whole.selectors[index] = entry at hentry
  have hnone : alone.cursors = [] := by simp [h.cursors_eq]
  have hperform : whole.perform (.opens index cursor) =
      whole.addCursor (cursor whole.tree entry.1 entry.2) := by
    simp only [Session.perform, withSelector, hentry]
  have hperform' : alone.perform (.opens index cursor) =
      alone.addCursor (cursor whole.tree entry.1 entry.2) := by
    simp only [Session.perform, withSelector, h.selectors_eq, hentry, h.tree_eq]
  constructor <;> simp only [Action.alone, hperform, hperform', addCursor, hnone]
  · rfl
  · exact .refl _ _ _
  · refine ⟨h.tree_eq, h.selectors_eq, by simp, fun new hnew => ?_⟩
    rw [List.getElem?_concat_length, Option.mem_some_iff] at hnew
    subst hnew
    exact (hcursor whole.tree entry.1 entry.2).mono fun flag hflag =>
      hindex.not_flagsOf flag ⟨entry, hentry, hflag⟩

/-- Moving the cursor of the twins on. -/
theorem Twins.moves {act : Tree → Cursor → Run → Answer × Cursor × Run} (h : Twins place whole alone)
    (hact : (Action.moves place act).Confined) : InStep place whole alone (.moves place act) := by
  cases hcursor : whole.cursors[place]? with
  | none =>
    have hnone : alone.cursors = [] := by rw [h.cursors_eq, hcursor]; rfl
    constructor <;> simp only [Session.perform, Action.alone, withCursor, hcursor, hnone, List.getElem?_nil]
    · rfl
    · exact .refl _ _ _
    · exact h
  | some cursor =>
    have hsingle : alone.cursors = [cursor] := by rw [h.cursors_eq, hcursor]; rfl
    have hlt := (List.getElem?_eq_some_iff.mp hcursor).1
    have hmoves := hact whole.tree _ cursor (h.confined cursor hcursor)
    obtain ⟨hvalue, hruns⟩ := hmoves.confined whole.run alone.run fun _ hflag => hflag.elim
    obtain ⟨hanswer, hnext⟩ := Prod.mk.inj hvalue
    constructor <;> simp only [Session.perform, Action.alone, withCursor, hcursor, hsingle,
      List.getElem?_cons_zero, h.tree_eq]
    · exact hanswer.symm
    · exact hruns
    · refine ⟨rfl, h.selectors_eq, by simp [List.getElem?_set_self hlt, hnext], fun new hnew => ?_⟩
      rw [List.getElem?_set_self hlt, Option.mem_some_iff] at hnew
      subst hnew
      exact hmoves.keeps whole.run

/-- Asking a selector without `first`, in both twins. -/
theorem Twins.asks {act : Tree → Selector → Nat → Run → Answer × Run} (h : Twins place whole alone)
    (hact : (Action.asks index act).Confined) (hindex : whole.Flagless index) :
    InStep place whole alone (.asks index act) := by
  cases hentry : whole.selectors[index]? with
  | none =>
    constructor <;> simp only [Session.perform, Action.alone, withSelector, h.selectors_eq, hentry]
    · rfl
    · exact .refl _ _ _
    · exact h
  | some entry =>
    have hfree := hindex.confined hentry (hact whole.tree entry.1 entry.2)
    obtain ⟨hvalue, hruns⟩ := hfree whole.run alone.run fun _ hflag => hflag.elim
    constructor <;> simp only [Session.perform, Action.alone, withSelector, h.selectors_eq, hentry, h.tree_eq]
    · exact hvalue.symm
    · exact hruns
    · exact ⟨rfl, rfl, h.cursors_eq, h.confined⟩

/-- An action on the selector or the cursor does the same in both twins. -/
theorem Twins.perform (h : Twins place whole alone) (haction : action.Confined)
    (hindex : whole.Flagless index) (hopens : place = whole.cursors.length →
      ∀ other ∈ action.opens? whole.selectors.length, whole.Flagless other)
    (hconcerns : whole.concerns index place action = true) : InStep place whole alone action := by
  cases action with
  | opens other cursor =>
    simp only [concerns, Bool.and_eq_true, decide_eq_true_eq, beq_iff_eq] at hconcerns
    obtain ⟨hlt, rfl⟩ := hconcerns
    exact h.opens haction hlt (hopens rfl other (by simp [Action.opens?, hlt]))
  | moves other act =>
    obtain rfl : other = place := beq_iff_eq.mp hconcerns
    exact h.moves haction
  | asks other act =>
    obtain rfl : other = index := beq_iff_eq.mp hconcerns
    exact h.asks haction hindex

/-- An action on anything else leaves twins as they are. -/
theorem Twins.perform_other (h : Twins place whole alone)
    (hconcerns : whole.concerns index place action = false) :
    Twins place (whole.perform action).2 alone := by
  have hsame : (whole.perform action).2.cursors[place]? = whole.cursors[place]? := by
    cases action with
    | opens other cursor =>
      rw [Session.perform, withSelector]
      cases hentry : whole.selectors[other]? with
      | none => rfl
      | some entry =>
        have hne : place ≠ whole.cursors.length := by
          simpa [concerns, (List.getElem?_eq_some_iff.mp hentry).1] using hconcerns
        dsimp only [addCursor]
        rw [List.getElem?_append]
        split
        · rfl
        · rw [List.getElem?_eq_none (by simp; omega), List.getElem?_eq_none (by omega)]
    | moves other act =>
      rw [Session.perform, withCursor]
      cases whole.cursors[other]? with
      | none => rfl
      | some cursor => exact List.getElem?_set_ne (by simpa [concerns] using hconcerns)
    | asks other act =>
      rw [Session.perform, withSelector]
      cases whole.selectors[other]? <;> rfl
  obtain ⟨htree, hselectors⟩ := perform_frame whole action
  refine ⟨h.tree_eq.trans htree.symm, h.selectors_eq.trans hselectors.symm, ?_, ?_⟩
  · rw [hsame, h.cursors_eq]
  · rw [hsame]
    exact h.confined

/-- The steps on the selector or the cursor answer the same in both twins, by the same events, where
the other twin makes no more than these steps. -/
theorem Twins.steps {owners : List Nat} (h : Twins place whole alone) (howned : whole.Owned owners)
    (hindex : whole.Flagless index) (list : List Step)
    (hplace : ∀ owner ∈ (owners ++ ownersOf whole.selectors.length list)[place]?, whole.Flagless owner) :
    (alone.steps ((whole.extract index place list).map Prod.fst)).1 =
      (whole.extract index place list).map Prod.snd := by
  induction list generalizing whole alone owners with
  | nil => rfl
  | cons step rest ih =>
    rw [ownersOf_cons, ← List.append_assoc] at hplace
    have hflagless : ∀ other, whole.Flagless other → (whole.make step).2.Flagless other := by
      intro other hother
      rwa [Flagless, (whole.make_frame step).2]
    have hrest : ∀ alone', Twins place (whole.make step).2 alone' →
        (alone'.steps (((whole.make step).2.extract index place rest).map Prod.fst)).1 =
          ((whole.make step).2.extract index place rest).map Prod.snd := by
      refine fun alone' htwins => ih htwins (howned.make step) (hflagless index hindex) fun owner howner => ?_
      rw [(whole.make_frame step).2] at howner
      exact hflagless owner (hplace owner howner)
    simp only [extract]
    cases hconcerns : whole.concerns index place step.action with
    | false =>
      -- a step that does not concern the cursor leaves it and its twin as they are
      refine hrest alone ?_
      rw [make_eq]
      exact (h.set_run whole.run.forget alone.run).perform_other hconcerns
    | true =>
      -- the step may open the cursor itself, and then over a selector without flags
      have hopens : place = whole.cursors.length →
          ∀ other ∈ step.action.opens? whole.selectors.length, whole.Flagless other := by
        intro heq other hother
        apply hplace
        rw [heq, howned.length_eq, Option.mem_def.mp hother]
        simp
      obtain ⟨hanswer, hruns, htwins⟩ := (h.set_run whole.run.forget alone.run.forget).perform
        step.confined_action hindex hopens hconcerns
      rw [← step.action_alone, ← make_eq, ← make_eq] at hanswer hruns htwins
      have hlog := hruns.log_eq (fun _ hflag => hflag.elim) rfl rfl
      simp only [if_true, List.map_cons, steps_cons, hanswer, hlog, hrest _ htwins]

end

/-- A session is its own twin when it begins, wherever the cursor will be. -/
theorem twins_sharing (tree : Tree) (selectors : List (Selector × Nat)) (run : Run) (place : Nat) :
    Twins place (sharing tree selectors run) (sharing tree selectors run) :=
  ⟨rfl, rfl, by simp [sharing], by simp [sharing]⟩

/-- In whatever order steps are made over selectors and the cursors that were opened over them, and
whichever of their flags the selectors share, a `first` answers yes only the first time that it is
asked, and then if its flag was down at first; and no flag that is up comes down. A step on a selector
without `first`, or on a cursor over it, leaves all flags as they are. The steps on such a selector and
on one such cursor have the same answers, by the same events, if all other steps are left out. -/
theorem steps_fire_once_undisturbed (tree : Tree) (selectors : List (Selector × Nat)) (run : Run) :
    (∀ steps flag place answer,
      ((((sharing tree selectors run).steps steps).1.flatMap Prod.snd).filterMap (Event.answer? flag))[place]? =
          some answer →
        (answer = true ↔ place = 0 ∧ run.fired flag = false)) ∧
    (∀ before after flag, ((sharing tree selectors run).steps before).2.run.fired flag = true →
      ((sharing tree selectors run).steps (before ++ after)).2.run.fired flag = true) ∧
    (∀ before step, ∀ index ∈ step.action.on? (ownersOf selectors.length before),
      (sharing tree selectors run).Flagless index →
        ((sharing tree selectors run).steps (before ++ [step])).2.run.fired =
          ((sharing tree selectors run).steps before).2.run.fired) ∧
    ∀ steps index place, (sharing tree selectors run).Flagless index →
      (∀ owner ∈ (ownersOf selectors.length steps)[place]?, (sharing tree selectors run).Flagless owner) →
        ((sharing tree selectors run).steps
            (((sharing tree selectors run).extract index place steps).map Prod.fst)).1 =
          ((sharing tree selectors run).extract index place steps).map Prod.snd := by
  have howned := owned_sharing tree selectors run
  refine ⟨fun steps flag place answer => howned.getElem?_answers steps, fun before after flag hfired => ?_,
    fun before step index hindex hflagless => ?_,
    fun steps index place hindex => (twins_sharing tree selectors run place).steps howned hindex steps⟩
  · rw [steps_append]
    exact (howned.steps before).fired_steps hfired after
  · have hafter : ((sharing tree selectors run).steps before).2.Flagless index := by
      rwa [Flagless, steps_selectors]
    rw [steps_append]
    exact (howned.steps before).fired_make hindex hafter

/-- A document with one text. -/
def oneText : Tree := ⟨#[⟨.document, none, [1], none, none⟩, ⟨.text "a", some 0, [], none, none⟩]⟩

/-- A selector with a flag, one around the same flag, and one without. -/
def sharedAndFree : List (Selector × Nat) :=
  [(.simple (.first false), 0), (.simple (.not (.first false)), 0), (.simple .always, 1)]

/-- A flag that is up lets nothing through. -/
theorem next_spent {run : Run} (h : run.fired 0 = true) :
    Walk.next oneText (fun _ run => run.ask 0) [⟨[1], 1⟩] run = (none, (run.ask 0).2) := by
  have hask : run.ask 0 = (false, (run.ask 0).2) := Prod.ext (by rw [Run.ask_fst, h]; rfl) rfl
  have hbehind : ∀ run, Walk.next oneText (fun _ run => run.ask 0) [⟨[], 1⟩] run = (none, run) := by
    intro run
    rw [Walk.next_eq]
    rfl
  rw [Walk.next_eq]
  dsimp only [Walk.advance]
  rw [hask]
  exact hbehind _

/-- Without a flag the text is found. -/
theorem next_free (run : Run) :
    Walk.next oneText (fun _ run => (true, run)) [⟨[1], 1⟩] run = (some (1, [⟨[], 1⟩]), run) := by
  rw [Walk.next_eq]
  rfl

/-- Two cursors, and a test in between that spends the flag of the first. -/
def crossing : List Step :=
  [.enumerate 0 0 (some 1), .enumerate 2 0 (some 1), .test 1 0, .next 0, .next 1]

/-- The cursor over the selector with a flag finds nothing any more, and the other one finds what it
finds by itself. -/
theorem steps_fire_once_undisturbed_crossing :
    ((sharing oneText sharedAndFree (.ofFlags [])).steps crossing).1.map Prod.fst =
        [.opened 0, .opened 1, .truth false, .found none, .found (some 1)] ∧
      (∀ answer, ((((sharing oneText sharedAndFree (.ofFlags [])).steps crossing).1.flatMap Prod.snd).filterMap
        (Event.answer? 0))[1]? = some answer → answer = false) ∧
      ((sharing oneText sharedAndFree (.ofFlags [])).steps [.enumerate 2 0 (some 1), .next 0]).1 =
        [(.opened 0, []), (.found (some 1), [])] := by
  obtain ⟨hanswers, -, -, halone⟩ := steps_fire_once_undisturbed oneText sharedAndFree (.ofFlags [])
  have hwalk : Walk.start oneText 0 (some 1) = [⟨[1], 1⟩] := rfl
  have hextract : (sharing oneText sharedAndFree (.ofFlags [])).extract 2 1 crossing =
      [(.enumerate 2 0 (some 1), .opened 0, []), (.next 0, .found (some 1), [])] := by
    simp [extract, make, concerns, Step.action, Step.alone, Action.answerAlone, step, withSelector,
      withCursor, addCursor, sharing, sharedAndFree, crossing, Cursor.next, hwalk, next_spent, next_free,
      Selector.simple, Predicate.test, Run.forget, Run.log, Run.fired_ask]
  have hflagless : (sharing oneText sharedAndFree (.ofFlags [])).Flagless 2 := fun entry hentry => by
    obtain rfl : (Selector.simple .always, 1) = entry := Option.some.inj hentry
    rfl
  have hsteps := halone crossing 2 1 hflagless fun owner howner => by
    obtain rfl : 2 = owner := Option.some.inj howner
    exact hflagless
  rw [hextract] at hsteps
  refine ⟨?_, fun answer hanswer => ?_, hsteps⟩
  · simp [steps, step, withSelector, withCursor, addCursor, sharing, sharedAndFree, crossing,
      Cursor.next, hwalk, next_spent, next_free, Selector.simple, Predicate.test, Run.forget, Run.ofFlags,
      Run.fired_ask, Run.ask_fst]
  · simpa using hanswers crossing 0 1 answer hanswer

end TreeQuery.Session
