import TreeQuery.Proofs.Search.Moves

/-!
# The answers of a flag

A `first` answers yes as long as its flag is down, and being asked raises the flag. So of all its answers
only the first can be yes. The answers are read off the events of a run; the events of a part of a run
are those of the moves in it.

Main statement: after any moves the flag is as spent as its answers say.
-/

namespace TreeQuery

/-- What the `first` predicate of a flag answers in an event. -/
def Event.answer? (flag : Nat) : Event → Option Bool
  | .visited _ => none
  | .asked other answer => if other = flag then some answer else none

/-- The answers of a `first` predicate whose flag was up or down at first, and whether the flag is up now. -/
inductive Spent (start : Bool) : List Bool → Bool → Prop
  | unasked : Spent start [] start
  | asked (more : Nat) : Spent start ((!start) :: List.replicate more false) true

/-- Only the first answer can be yes, and it is if the flag was down. -/
theorem Spent.getElem? {start now : Bool} {answers : List Bool} (h : Spent start answers now) {place : Nat}
    {answer : Bool} (hanswer : answers[place]? = some answer) :
    answer = true ↔ place = 0 ∧ start = false := by
  cases h with
  | unasked => simp at hanswer
  | asked more =>
    cases place with
    | zero =>
      obtain rfl : (!start) = answer := by simpa using hanswer
      simp
    | succ place =>
      have hmem := List.mem_of_getElem? (List.getElem?_cons_succ.symm.trans hanswer)
      simp [List.eq_of_mem_replicate hmem]

namespace Run

/-- The answers of the `first` predicate of a flag, in order. -/
def answers (run : Run) (flag : Nat) : List Bool := run.log.filterMap (Event.answer? flag)

/-- A flag answers whether it was down. -/
theorem ask_fst (run : Run) (flag : Nat) : (run.ask flag).1 = !run.fired flag := by
  unfold ask
  cases run.fired flag <;> rfl

/-- Asking adds an answer of the flag that is asked. -/
theorem answers_ask (run : Run) (flag other : Nat) :
    (run.ask other).2.answers flag =
      run.answers flag ++ if other = flag then [!run.fired flag] else [] := by
  by_cases hflag : other = flag
  · subst hflag
    unfold ask
    cases run.fired other <;> simp [answers, log, Event.answer?]
  · unfold ask
    cases run.fired other <;> simp [answers, log, Event.answer?, hflag]

/-- A move leaves a flag as spent as its answers say. -/
theorem spent_move {run : Run} {flag : Nat} {start : Bool}
    (h : Spent start (run.answers flag) (run.fired flag)) (step : Move) :
    Spent start ((run.move step).answers flag) ((run.move step).fired flag) := by
  cases step with
  | visit node => simpa [move, visit, answers, log, Event.answer?, List.filterMap] using h
  | ask other =>
    simp only [move, answers_ask]
    by_cases hflag : other = flag
    · subst hflag
      rw [if_pos rfl, fired_ask]
      generalize run.answers other = answers at h
      generalize run.fired other = fired at h
      cases h with
      | unasked => exact .asked 0
      | asked more =>
        have hmore : List.replicate more false ++ [!true] = List.replicate (more + 1) false :=
          List.replicate_succ'.symm
        rw [List.cons_append, hmore]
        exact .asked (more + 1)
    · rwa [if_neg hflag, List.append_nil, fired_ask_of_ne run (Ne.symm hflag)]

/-- Moves leave a flag as spent as its answers say. -/
theorem spent_moves {run : Run} {flag : Nat} {start : Bool}
    (h : Spent start (run.answers flag) (run.fired flag)) (list : List Move) :
    Spent start ((run.moves list).answers flag) ((run.moves list).fired flag) := by
  induction list generalizing run with
  | nil => exact h
  | cons step rest ih => exact ih (spent_move h step)

/-- In runs without events the same moves leave the same log. -/
theorem Abreast.log_eq {own : Nat → Prop} {left right left' right' : Run}
    (h : Abreast own left right left' right') (halike : Alike own left right)
    (hleft : left.events = []) (hright : right.events = []) : left'.log = right'.log := by
  obtain ⟨list, hlist, rfl, rfl⟩ := h
  obtain ⟨-, news, hleft', hright'⟩ := halike.moves hlist
  rw [log, log, hleft', hright', hleft, hright]

/-- What moves do after others, said of the flags and the events since then. -/
theorem moves_forget (run : Run) (list : List Move) :
    (run.moves list).log = run.log ++ (run.forget.moves list).log ∧
      (run.moves list).fired = (run.forget.moves list).fired := by
  have halike : Alike (fun _ => True) run run.forget := fun _ _ => rfl
  have hlist : ∀ move ∈ list, move.Within fun _ => True := fun move _ => by cases move <;> trivial
  obtain ⟨hfired, news, hrun, hforget⟩ := halike.moves hlist
  refine ⟨?_, funext fun flag => hfired flag trivial⟩
  rw [log, log, log, hrun, hforget, List.reverse_append]
  simp [forget]

end Run

end TreeQuery
