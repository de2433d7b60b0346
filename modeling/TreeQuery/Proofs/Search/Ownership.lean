import TreeQuery.Proofs.Search.Actions
import TreeQuery.Proofs.Search.Spent

/-!
# The owners of cursors

A cursor belongs to the selector that it was opened over. In a session every cursor is confined to the
flags of its owner: it begins so, and no step changes that. So a step asks flags of the one selector that
it is on, and the events of steps are those of the moves that they make.

Main statements: what one step does to cursors and to the run, and what any number of steps does.
-/

namespace TreeQuery.Session

/-- The selector of the cursor that an action opens, if there are so many selectors. -/
def Action.opens? (count : Nat) : Action → Option Nat
  | .opens index _ => if index < count then some index else none
  | .moves _ _ => none
  | .asks _ _ => none

/-- The selectors of the cursors that steps open, in the order of the places that the cursors get. -/
def ownersOf (count : Nat) (steps : List Step) : List Nat :=
  steps.filterMap fun step => step.action.opens? count

/-- The selector that an action is on. That of a cursor is the one that it was opened over. -/
def Action.on? (owners : List Nat) : Action → Option Nat
  | .opens index _ => some index
  | .moves index _ => owners[index]?
  | .asks index _ => some index

/-- Make a step where nothing has happened yet, as a session makes each of its steps. -/
def make (session : Session) (step : Step) : Answer × Session :=
  { session with run := session.run.forget }.step step

/-- The flags of a selector. -/
def flagsOf (session : Session) (index flag : Nat) : Prop :=
  ∃ entry ∈ session.selectors[index]?, Stretch entry.2 entry.1.flags.length flag

/-- A session whose cursors were opened over these selectors. -/
structure Owned (session : Session) (owners : List Nat) : Prop where
  length_eq : session.cursors.length = owners.length
  confined : ∀ {place owner : Nat} {cursor : Cursor}, session.cursors[place]? = some cursor →
    owners[place]? = some owner → cursor.Confined (session.flagsOf owner)

/-- A session begins without cursors. -/
theorem owned_sharing (tree : Tree) (selectors : List (Selector × Nat)) (run : Run) :
    (sharing tree selectors run).Owned [] :=
  ⟨rfl, fun hcursor _ => by simp [sharing] at hcursor⟩

/-- An action leaves the tree and the selectors. -/
theorem perform_frame (session : Session) (action : Action) :
    (session.perform action).2.tree = session.tree ∧
      (session.perform action).2.selectors = session.selectors := by
  cases action with
  | opens index cursor =>
    rw [perform, withSelector]
    cases session.selectors[index]? <;> exact ⟨rfl, rfl⟩
  | moves index act =>
    rw [perform, withCursor]
    cases session.cursors[index]? <;> exact ⟨rfl, rfl⟩
  | asks index act =>
    rw [perform, withSelector]
    cases session.selectors[index]? <;> exact ⟨rfl, rfl⟩

section

variable {session : Session} {owners : List Nat} {action : Action}

/-- The run is nothing to the cursors. -/
theorem Owned.set_run (h : session.Owned owners) (run : Run) : { session with run }.Owned owners :=
  ⟨h.length_eq, h.confined⟩

/-- A cursor that is confined to the flags of a selector may be opened over it. -/
theorem Owned.addCursor (h : session.Owned owners) {cursor : Cursor} {owner : Nat}
    (hcursor : cursor.Confined (session.flagsOf owner)) :
    (session.addCursor cursor).2.Owned (owners ++ [owner]) := by
  refine ⟨by simp [Session.addCursor, h.length_eq], fun {place other new} hnew hother => ?_⟩
  dsimp only [Session.addCursor] at hnew
  rw [List.getElem?_append] at hnew hother
  rw [h.length_eq] at hnew
  split at hnew
  next hlt =>
    rw [if_pos hlt] at hother
    exact h.confined hnew hother
  next hle =>
    rw [if_neg hle] at hother
    obtain rfl := List.mem_singleton.mp (List.mem_of_getElem? hnew)
    obtain rfl := List.mem_singleton.mp (List.mem_of_getElem? hother)
    exact hcursor

/-- A cursor may be moved on as long as it stays confined to the flags of its owner. -/
theorem Owned.setCursor (h : session.Owned owners) {place : Nat} {cursor : Cursor}
    (hcursor : ∀ owner, owners[place]? = some owner → cursor.Confined (session.flagsOf owner)) (run : Run) :
    { session with cursors := session.cursors.set place cursor, run }.Owned owners := by
  refine ⟨by simp [h.length_eq], fun {other owner new} hnew howner => ?_⟩
  rcases eq_or_ne place other with rfl | hne
  · rw [List.getElem?_set_self'] at hnew
    obtain ⟨old, hold, rfl⟩ := Option.map_eq_some_iff.mp hnew
    exact hcursor owner howner
  · rw [List.getElem?_set_ne hne] at hnew
    exact h.confined hnew howner

/-- After an action the cursors were opened over the same selectors as before, and a new one over the
selector that the action names. -/
theorem Owned.perform (h : session.Owned owners) (haction : action.Confined) :
    (session.perform action).2.Owned (owners ++ (action.opens? session.selectors.length).toList) := by
  cases action with
  | opens index cursor =>
    rw [Session.perform, withSelector, Action.opens?]
    cases hentry : session.selectors[index]? with
    | none =>
      rw [if_neg (Nat.not_lt.mpr (List.getElem?_eq_none_iff.mp hentry)), Option.toList_none, List.append_nil]
      exact h
    | some entry =>
      rw [if_pos (List.getElem?_eq_some_iff.mp hentry).1]
      exact h.addCursor ((haction session.tree entry.1 entry.2).mono
        fun flag hflag => ⟨entry, hentry, hflag⟩)
  | moves index act =>
    rw [Session.perform, withCursor, Action.opens?, Option.toList_none, List.append_nil]
    cases hcursor : session.cursors[index]? with
    | none => exact h
    | some cursor =>
      exact h.setCursor (fun owner howner =>
        (haction session.tree _ cursor (h.confined hcursor howner)).keeps session.run) _
  | asks index act =>
    rw [Session.perform, withSelector, Action.opens?, Option.toList_none, List.append_nil]
    cases session.selectors[index]? with
    | none => exact h
    | some entry => exact h.set_run _

/-- An action moves the run on by asking flags of the selector that it is on. -/
theorem Owned.exists_moves (h : session.Owned owners) (haction : action.Confined) :
    ∃ list : List Move,
      (∀ move ∈ list, move.Within fun flag => ∃ index ∈ action.on? owners, session.flagsOf index flag) ∧
        (session.perform action).2.run = session.run.moves list := by
  cases action with
  | opens index cursor =>
    refine ⟨[], by simp, ?_⟩
    rw [Session.perform, withSelector]
    cases session.selectors[index]? <;> rfl
  | moves index act =>
    cases hcursor : session.cursors[index]? with
    | none => exact ⟨[], by simp, by simp [Session.perform, withCursor, hcursor, Run.moves]⟩
    | some cursor =>
      have hlt : index < owners.length := h.length_eq ▸ (List.getElem?_eq_some_iff.mp hcursor).1
      have howner : owners[index]? = some owners[index] := List.getElem?_eq_getElem hlt
      -- the cursor asks the flags of the selector that it was opened over, and no others
      have hact := (haction session.tree _ cursor (h.confined hcursor howner)).confined
      have hown : ∀ flag, session.flagsOf owners[index] flag →
          ∃ other ∈ (Action.moves index act).on? owners, session.flagsOf other flag :=
        fun flag hflag => ⟨_, howner, hflag⟩
      obtain ⟨list, hlist, hmoves⟩ := (hact.mono hown).exists_moves session.run
      refine ⟨list, hlist, ?_⟩
      simp only [Session.perform, withCursor, hcursor]
      exact hmoves
  | asks index act =>
    cases hentry : session.selectors[index]? with
    | none => exact ⟨[], by simp, by simp [Session.perform, withSelector, hentry, Run.moves]⟩
    | some entry =>
      have hact := haction session.tree entry.1 entry.2
      have hown : ∀ flag, Stretch entry.2 entry.1.flags.length flag →
          ∃ other ∈ (Action.asks index act).on? owners, session.flagsOf other flag :=
        fun flag hflag => ⟨index, rfl, entry, hentry, hflag⟩
      obtain ⟨list, hlist, hmoves⟩ := (hact.mono hown).exists_moves session.run
      refine ⟨list, hlist, ?_⟩
      simp only [Session.perform, withSelector, hentry]
      exact hmoves

/-- A step is made by its action. -/
theorem make_eq (session : Session) (step : Step) :
    session.make step = { session with run := session.run.forget }.perform step.action :=
  step_eq_perform _ step

/-- The first of some steps, and the others behind it. -/
theorem steps_cons (session : Session) (step : Step) (rest : List Step) :
    session.steps (step :: rest) =
      (((session.make step).1, (session.make step).2.run.log) :: ((session.make step).2.steps rest).1,
        ((session.make step).2.steps rest).2) := rfl

/-- A step leaves the tree and the selectors. -/
theorem make_frame (session : Session) (step : Step) :
    (session.make step).2.tree = session.tree ∧ (session.make step).2.selectors = session.selectors := by
  rw [make_eq]
  exact perform_frame { session with run := session.run.forget } step.action

/-- After a step the cursors were opened over the same selectors as before, and a new one over the
selector that the step names. -/
theorem Owned.make (h : session.Owned owners) (step : Step) :
    (session.make step).2.Owned (owners ++ (step.action.opens? session.selectors.length).toList) := by
  rw [make_eq]
  exact (h.set_run session.run.forget).perform step.confined_action

/-- A step leaves the flags that the selector which it is on does not have. -/
theorem Owned.fired_make_of_not_flagsOf (h : session.Owned owners) {step : Step} {flag : Nat}
    (hflag : ∀ index ∈ step.action.on? owners, ¬ session.flagsOf index flag) :
    (session.make step).2.run.fired flag = session.run.fired flag := by
  obtain ⟨moves, hmoves, hrun⟩ := (h.set_run session.run.forget).exists_moves step.confined_action
  rw [make_eq, hrun]
  refine Run.fired_moves_of_not_own _ hmoves fun hown => ?_
  obtain ⟨index, hindex, hown⟩ := hown
  exact hflag index hindex hown

/-- Steps are made one part after the other. -/
theorem steps_append (session : Session) (before after : List Step) :
    (session.steps (before ++ after)).2 = ((session.steps before).2.steps after).2 := by
  induction before generalizing session with
  | nil => rfl
  | cons step rest ih => simp only [List.cons_append, steps_cons, ih]

/-- Steps leave the selectors. -/
theorem steps_selectors (session : Session) (list : List Step) :
    (session.steps list).2.selectors = session.selectors := by
  induction list generalizing session with
  | nil => rfl
  | cons step rest ih =>
    rw [steps_cons]
    exact (ih _).trans (session.make_frame step).2

/-- The cursor that the first of some steps opens comes before those of the others. -/
theorem ownersOf_cons (count : Nat) (step : Step) (rest : List Step) :
    ownersOf count (step :: rest) = (step.action.opens? count).toList ++ ownersOf count rest := by
  rw [ownersOf, ownersOf, List.filterMap_cons]
  cases step.action.opens? count <;> rfl

/-- After steps the cursors were opened over the same selectors as before, and new ones over those that
the steps name. -/
theorem Owned.steps (h : session.Owned owners) (list : List Step) :
    (session.steps list).2.Owned (owners ++ ownersOf session.selectors.length list) := by
  induction list generalizing session owners with
  | nil =>
    change session.Owned (owners ++ [])
    rwa [List.append_nil]
  | cons step rest ih =>
    have hrest := ih (h.make step)
    rw [(session.make_frame step).2, List.append_assoc] at hrest
    rwa [steps_cons, ownersOf_cons]

/-- Steps move the run on, and their events are those of the moves. -/
theorem Owned.steps_moves (h : session.Owned owners) (list : List Step) :
    ∃ moves : List Move,
      (session.steps list).1.flatMap Prod.snd = (session.run.forget.moves moves).log ∧
        (session.steps list).2.run.fired = (session.run.forget.moves moves).fired := by
  induction list generalizing session owners with
  | nil => exact ⟨[], rfl, rfl⟩
  | cons step rest ih =>
    obtain ⟨first, -, hfirst⟩ := (h.set_run session.run.forget).exists_moves step.confined_action
    obtain ⟨others, hevents, hfired⟩ := ih (h.make step)
    obtain ⟨hlog, hmoves⟩ := (session.run.forget.moves first).moves_forget others
    rw [← make_eq] at hfirst
    rw [hfirst] at hevents hfired
    refine ⟨first ++ others, ?_, ?_⟩
    · rw [steps_cons, List.flatMap_cons, Run.moves_append, hlog, hevents, hfirst]
    · rw [steps_cons, Run.moves_append, hmoves, hfired]

end

end TreeQuery.Session
