import TreeQuery.Selector.Functions
import TreeQuery.Text.Quoted

/-!
# The written form of selectors

A selector in full: every part with its depth, its predicate and what continues it. The form is for
looking at a selector, not for reading it back, and it shows the flag of each `first`.
-/

namespace TreeQuery

/-- A depth: a number of levels, or none. -/
def writtenDepth : Option Nat → String
  | none => "None"
  | some levels => s!"Some({levels})"

/-- Texts with a comma and a space between them. -/
def commaSeparated (texts : List String) : String := ", ".intercalate texts

/-- A part whose predicate and continuation are written already. -/
def writtenPart (depth : Option Nat) (predicate continuation : String) : String :=
  "CompiledSelector \x7b depth: " ++ writtenDepth depth ++ ", predicate: " ++ predicate ++
    ", continuation: " ++ continuation ++ " \x7d"

mutual

/-- The written form of a predicate. -/
def Predicate.written : Predicate → String
  | .always => "Always"
  | .tag name => "Tag(" ++ Text.quoted name ++ ")"
  | .id value => "Id(" ++ Text.quoted value ++ ")"
  | .hasClass name => "Class(" ++ Text.quoted name ++ ")"
  | .all tests => "And([" ++ commaSeparated (writtenTests tests) ++ "])"
  | .not test => "Not(" ++ test.written ++ ")"
  | .has selector => "Has(" ++ selector.written ++ ")"
  | .first true => "First(true)"
  | .first false => "First(false)"
  | .custom _ => "Custom(..)"
termination_by structural predicate => predicate

/-- The written forms of a list of tests. -/
def writtenTests : List Predicate → List String
  | [] => []
  | test :: rest => test.written :: writtenTests rest
termination_by structural tests => tests

/-- The written form of a part, before what continues it. -/
def Part.written : Part → String → String
  | ⟨depth, predicate⟩, continuation => writtenPart depth predicate.written continuation
termination_by structural part => part

/-- The written form of the parts that continue another. -/
def writtenContinuation : List Part → String
  | [] => "None"
  | part :: rest => "Some(" ++ part.written (writtenContinuation rest) ++ ")"
termination_by structural parts => parts

/-- The written form of a selector. -/
def Selector.written : Selector → String
  | ⟨head, rest⟩ => head.written (writtenContinuation rest)
termination_by structural selector => selector

end

/-- The written form of the registered functions, which shows their names in order. -/
def Functions.written (functions : Functions) : String :=
  "Functions \x7b overlay: [" ++ commaSeparated (functions.names.map Text.quoted) ++ "] \x7d"

end TreeQuery
