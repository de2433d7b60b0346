import TreeQuery.Text.Colour

/-!
# Warnings

A warning is given once. What has been given is remembered by its text, which names the component
that warns, until the memory is cleared.
-/

namespace TreeQuery

/-- The warnings that have been given. -/
structure Warnings where
  given : List String

namespace Warnings

/-- No warning has been given. -/
def empty : Warnings := ⟨[]⟩

/-- The text by which a warning is remembered. -/
def key (component message : String) : String := s!"[{component}] {message}"

/-- The line that gives a warning. -/
def line (component message : String) : String :=
  Text.coloured .yellow s!"[Thicket {component}] ⚠ {message}"

/-- Whether a warning is new and has to be given, and the memory with it. -/
def warn (warnings : Warnings) (component message : String) : Bool × Warnings :=
  if warnings.given.contains (key component message) then (false, warnings)
  else (true, ⟨key component message :: warnings.given⟩)

/-- A step on the memory of warnings. -/
inductive Step where
  | warn (component message : String)
  | clear

/-- Make a step, which answers whether a warning was new if it is one. -/
def step (warnings : Warnings) : Step → Option Bool × Warnings
  | .warn component message =>
    let (new, warnings) := warnings.warn component message
    (some new, warnings)
  | .clear => (none, empty)

/-- Make steps one after another. -/
def steps (warnings : Warnings) : List Step → List (Option Bool) × Warnings
  | [] => ([], warnings)
  | step :: rest =>
    let (answer, warnings) := warnings.step step
    let (answers, warnings) := warnings.steps rest
    (answer :: answers, warnings)

end Warnings

end TreeQuery
