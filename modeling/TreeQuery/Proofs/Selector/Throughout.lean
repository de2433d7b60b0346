import TreeQuery.Selector.Basic

/-!
# What holds all through a selector

A predicate may have predicates inside of it, and through `has` whole selectors with depths of their own.
A property of predicates and one of depths hold all through a selector when they hold of every predicate
and of the depth of every part, at any level.
-/

namespace TreeQuery

section

variable (tests : Predicate → Prop) (depths : Option Nat → Prop)

mutual

/-- The properties hold of a predicate and of all that is inside of it. -/
def Predicate.Throughout : Predicate → Prop
  | .all list => tests (.all list) ∧ TestsThroughout list
  | .not test => tests (.not test) ∧ test.Throughout
  | .has selector => tests (.has selector) ∧ selector.Throughout
  | .always => tests .always
  | .tag name => tests (.tag name)
  | .id value => tests (.id value)
  | .hasClass name => tests (.hasClass name)
  | .first fired => tests (.first fired)
  | .custom answer => tests (.custom answer)
termination_by structural predicate => predicate

/-- The properties hold all through a list of predicates. -/
def TestsThroughout : List Predicate → Prop
  | [] => True
  | test :: rest => test.Throughout ∧ TestsThroughout rest
termination_by structural list => list

/-- The properties hold of the depth of a part and all through its predicate. -/
def Part.Throughout : Part → Prop
  | ⟨depth, predicate⟩ => depths depth ∧ predicate.Throughout
termination_by structural part => part

/-- The properties hold all through a list of parts. -/
def PartsThroughout : List Part → Prop
  | [] => True
  | part :: rest => part.Throughout ∧ PartsThroughout rest
termination_by structural parts => parts

/-- The properties hold all through a selector. -/
def Selector.Throughout : Selector → Prop
  | ⟨head, rest⟩ => head.Throughout ∧ PartsThroughout rest
termination_by structural selector => selector

end

end

/-- Every predicate will do. -/
def AnyTest (_ : Predicate) : Prop := True

/-- Every depth will do. -/
def AnyDepth (_ : Option Nat) : Prop := True

end TreeQuery
