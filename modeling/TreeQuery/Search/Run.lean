import TreeQuery.Selector.Basic

/-!
# What a running search remembers

Testing nodes has two effects. A `first` predicate raises its flag when it is asked, and every test
of a caller is logged with the node it looked at. A run holds both: the flags that are up, and the
events so far. Flags are only ever raised.
-/

namespace TreeQuery

/-- One thing that happened while nodes were tested. -/
inductive Event where
  /-- A caller's test looked at a node. -/
  | visited (node : NodeId)
  /-- The `first` predicate of this flag was asked and gave this answer. -/
  | asked (flag : Nat) (answer : Bool)
  deriving DecidableEq

/-- The node that a caller's test looked at in an event. -/
def Event.visited? : Event → Option NodeId
  | .visited node => some node
  | .asked _ _ => none

/-- The state of a running search. -/
structure Run where
  /-- Which flags are up. -/
  fired : Nat → Bool
  /-- The events so far, the latest first. -/
  events : List Event

namespace Run

/-- The run that starts with the given flags and no events. -/
def ofFlags (flags : List Bool) : Run := ⟨fun flag => flags.getD flag false, []⟩

/-- Log that a caller's test looked at a node. -/
def visit (run : Run) (node : NodeId) : Run := { run with events := .visited node :: run.events }

/-- Ask the `first` predicate of a flag. It answers yes while its flag is down, and raises it. -/
def ask (run : Run) (flag : Nat) : Bool × Run :=
  if run.fired flag then (false, { run with events := .asked flag false :: run.events })
  else
    (true,
      { fired := fun other => other == flag || run.fired other
        events := .asked flag true :: run.events })

/-- The events so far, in order. -/
def log (run : Run) : List Event := run.events.reverse

/-- The nodes that callers' tests looked at, in order. -/
def visits (run : Run) : List NodeId := run.log.filterMap Event.visited?

/-- The run with the same flags and no events. -/
def forget (run : Run) : Run := { run with events := [] }

/-- After it was asked, a flag is up. -/
theorem fired_ask (run : Run) (flag : Nat) : (run.ask flag).2.fired flag = true := by
  unfold ask
  split <;> simp_all

/-- Asking never lowers a flag. -/
theorem fired_ask_of_fired {run : Run} {flag other : Nat} (h : run.fired other = true) :
    (run.ask flag).2.fired other = true := by
  unfold ask
  split <;> simp [h]

/-- Asking one flag leaves the others alone. -/
theorem fired_ask_of_ne (run : Run) {flag other : Nat} (h : other ≠ flag) :
    (run.ask flag).2.fired other = run.fired other := by
  unfold ask
  split <;> simp [h]

end Run

/-- A test of nodes that may change the run. -/
abbrev Test := NodeId → Run → Bool × Run

end TreeQuery
