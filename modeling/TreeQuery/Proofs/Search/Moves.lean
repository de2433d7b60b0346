import Mathlib.Tactic.Common
import TreeQuery.Search.Session

/-!
# What tests do to a run

A test moves the run on: it asks flags and logs visits, and nothing else. The flags of a selector are
a stretch of all the flags, so its tests ask no others, and what they find hangs on no others. Said of
two runs that agree on the stretch: a search makes the same moves in both and gives the same answer.

Main statements: the tests of a predicate, and with them every step of a search along such tests, are
confined to the stretch of their flags.
-/

namespace TreeQuery

/-- One thing that a test does to the run. -/
inductive Move where
  | ask (flag : Nat)
  | visit (node : NodeId)

/-- A move that asks no flags but its own. -/
def Move.Within (own : Nat → Prop) : Move → Prop
  | .ask flag => own flag
  | .visit _ => True

namespace Run

/-- The run after a move. -/
def move (run : Run) : Move → Run
  | .ask flag => (run.ask flag).2
  | .visit node => run.visit node

/-- The run after moves, one behind another. -/
def moves (run : Run) (list : List Move) : Run := list.foldl move run

/-- Two runs in which the same of these flags are up. -/
def Alike (own : Nat → Prop) (left right : Run) : Prop :=
  ∀ flag, own flag → left.fired flag = right.fired flag

/-- Two runs go on by the same moves, which ask no flags but their own. -/
def Abreast (own : Nat → Prop) (left right left' right' : Run) : Prop :=
  ∃ list : List Move, (∀ move ∈ list, move.Within own) ∧
    left' = left.moves list ∧ right' = right.moves list

variable {own : Nat → Prop} {left right : Run}

theorem moves_append (run : Run) (first second : List Move) :
    run.moves (first ++ second) = (run.moves first).moves second := List.foldl_append ..

theorem Alike.refl (own : Nat → Prop) (run : Run) : Alike own run run := fun _ _ => rfl

/-- In two runs that are alike an own flag gives the same answer and adds the same event. -/
theorem Alike.ask (h : Alike own left right) {flag : Nat} (hflag : own flag) :
    (left.ask flag).1 = (right.ask flag).1 ∧ Alike own (left.ask flag).2 (right.ask flag).2 ∧
      ∃ event, (left.ask flag).2.events = event :: left.events ∧
        (right.ask flag).2.events = event :: right.events := by
  have hfired := h flag hflag
  unfold Run.ask
  rw [hfired]
  split
  · exact ⟨rfl, h, _, rfl, rfl⟩
  · refine ⟨rfl, fun other hother => ?_, _, rfl, rfl⟩
    simp only [h other hother]

/-- A move leaves runs alike and adds the same event to both. -/
theorem Alike.move (h : Alike own left right) {step : Move} (hstep : step.Within own) :
    Alike own (left.move step) (right.move step) ∧
      ∃ event, (left.move step).events = event :: left.events ∧
        (right.move step).events = event :: right.events := by
  cases step with
  | ask flag => exact (h.ask hstep).2
  | visit node => exact ⟨h, .visited node, rfl, rfl⟩

/-- Moves leave runs alike and add the same events to both. -/
theorem Alike.moves (h : Alike own left right) {list : List Move}
    (hlist : ∀ move ∈ list, move.Within own) :
    Alike own (left.moves list) (right.moves list) ∧
      ∃ news, (left.moves list).events = news ++ left.events ∧
        (right.moves list).events = news ++ right.events := by
  induction list generalizing left right with
  | nil => exact ⟨h, [], rfl, rfl⟩
  | cons step rest ih =>
    obtain ⟨hstep, event, hleft, hright⟩ := h.move (hlist step List.mem_cons_self)
    obtain ⟨halike, news, hleft', hright'⟩ :=
      ih hstep fun other hother => hlist other (List.mem_cons_of_mem step hother)
    refine ⟨halike, news ++ [event], ?_, ?_⟩
    · rw [List.append_assoc, List.singleton_append, ← hleft]
      exact hleft'
    · rw [List.append_assoc, List.singleton_append, ← hright]
      exact hright'

/-- Moves leave the flags of others alone. -/
theorem fired_moves_of_not_own (run : Run) {list : List Move} (hlist : ∀ move ∈ list, move.Within own)
    {flag : Nat} (hflag : ¬ own flag) : (run.moves list).fired flag = run.fired flag := by
  induction list generalizing run with
  | nil => rfl
  | cons step rest ih =>
    have hstep := hlist step List.mem_cons_self
    have hrest := ih (run.move step) fun other hother => hlist other (List.mem_cons_of_mem step hother)
    refine hrest.trans ?_
    cases step with
    | ask other =>
      exact fired_ask_of_ne run fun heq => hflag (heq ▸ hstep)
    | visit node => rfl

/-- Moves never lower a flag. -/
theorem fired_moves_of_fired {run : Run} {flag : Nat} (h : run.fired flag = true) (list : List Move) :
    (run.moves list).fired flag = true := by
  induction list generalizing run with
  | nil => exact h
  | cons step rest ih =>
    apply ih
    cases step with
    | ask other => exact fired_ask_of_fired h
    | visit node => exact h

namespace Abreast

variable {left' right' left'' right'' : Run}

theorem refl (own : Nat → Prop) (left right : Run) : Abreast own left right left right :=
  ⟨[], by simp, rfl, rfl⟩

theorem trans (h : Abreast own left right left' right')
    (h' : Abreast own left' right' left'' right'') : Abreast own left right left'' right'' := by
  obtain ⟨first, hfirst, rfl, rfl⟩ := h
  obtain ⟨second, hsecond, rfl, rfl⟩ := h'
  refine ⟨first ++ second, fun move hmove => ?_, (moves_append ..).symm, (moves_append ..).symm⟩
  exact (List.mem_append.mp hmove).elim (hfirst move) (hsecond move)

/-- Runs that were alike are alike after the same moves. -/
theorem alike (h : Abreast own left right left' right') (halike : Alike own left right) :
    Alike own left' right' := by
  obtain ⟨list, hlist, rfl, rfl⟩ := h
  exact (halike.moves hlist).1

end Abreast

end Run

open Run

/-- An action that asks no flags but its own, and whose outcome hangs on no others. -/
def Confined {α : Type} (own : Nat → Prop) (act : Run → α × Run) : Prop :=
  ∀ left right, Alike own left right →
    (act left).1 = (act right).1 ∧ Abreast own left right (act left).2 (act right).2

/-- A test that is confined at every node. -/
def Test.Confined (own : Nat → Prop) (test : Test) : Prop := ∀ node, TreeQuery.Confined own (test node)

section

variable {α β : Type} {own : Nat → Prop}

/-- A confined action makes moves within its own flags. -/
theorem Confined.exists_moves {act : Run → α × Run} (h : Confined own act) (run : Run) :
    ∃ list : List Move, (∀ move ∈ list, move.Within own) ∧ (act run).2 = run.moves list := by
  obtain ⟨-, list, hlist, hmoves, -⟩ := h run run (.refl own run)
  exact ⟨list, hlist, hmoves⟩

/-- In a run that is alike a confined action has the same outcome by the same moves. -/
theorem Confined.exists_abreast {act : Run → α × Run} (h : Confined own act) {left right left' : Run}
    (halike : Alike own left right) {value : α} (hleft : act left = (value, left')) :
    ∃ right', act right = (value, right') ∧ Abreast own left right left' right' := by
  obtain ⟨hvalue, hruns⟩ := h left right halike
  rw [hleft] at hvalue hruns
  exact ⟨(act right).2, Prod.ext hvalue.symm rfl, hruns⟩

/-- What is confined to some flags is confined to more flags. -/
theorem Confined.mono {more : Nat → Prop} {act : Run → α × Run} (h : Confined own act)
    (hmore : ∀ flag, own flag → more flag) : Confined more act := by
  intro left right halike
  obtain ⟨hvalue, list, hlist, hleft, hright⟩ := h left right fun flag hflag => halike flag (hmore flag hflag)
  refine ⟨hvalue, list, fun move hmove => ?_, hleft, hright⟩
  have hwithin := hlist move hmove
  cases move with
  | ask flag => exact hmore flag hwithin
  | visit node => exact hwithin

/-- Doing nothing is confined. -/
theorem Confined.pure (value : α) : Confined own fun run => (value, run) :=
  fun left right _ => ⟨rfl, .refl own left right⟩

/-- What is made of the outcome of a confined action hangs on no other flags either. -/
theorem Confined.map {act : Run → α × Run} (h : Confined own act) (f : α → β) :
    Confined own fun run => (f (act run).1, (act run).2) := fun left right halike =>
  ⟨congrArg f (h left right halike).1, (h left right halike).2⟩

/-- One confined action after another is confined. -/
theorem Confined.bind {act : Run → α × Run} (hact : Confined own act) (next : α → Run → β × Run)
    (hnext : ∀ run, Confined own (next (act run).1)) :
    Confined own fun run => next (act run).1 (act run).2 := by
  intro left right halike
  obtain ⟨hvalue, hruns⟩ := hact left right halike
  obtain ⟨hvalue', hruns'⟩ := hnext left (act left).2 (act right).2 (hruns.alike halike)
  simp only [← hvalue]
  exact ⟨hvalue', hruns.trans hruns'⟩

/-- Asking an own flag is confined. -/
theorem confined_ask {flag : Nat} (h : own flag) : Confined own fun run => run.ask flag := fun _ _ halike =>
  ⟨(halike.ask h).1, [.ask flag], fun _ hmove => List.mem_singleton.mp hmove ▸ h, rfl, rfl⟩

/-- Logging a visit is confined. -/
theorem confined_visit (value : α) (node : NodeId) : Confined own fun run => (value, run.visit node) :=
  fun _ _ _ => ⟨rfl, [.visit node], fun _ hmove => List.mem_singleton.mp hmove ▸ trivial, rfl, rfl⟩

end

end TreeQuery
