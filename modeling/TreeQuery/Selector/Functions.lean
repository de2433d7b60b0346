import TreeQuery.Selector.Error

/-!
# Selector functions

A function of a selector text, such as `:not(...)`, is a factory. It gets the name it was called by,
the text between its parentheses if they hold any, and the predicate that the components before it
have built. It returns the predicate that takes the place of that one, so chaining is its own
business.

A factory may have selectors compiled on its way. It says so in its recipe, and whoever follows the
recipe compiles them, with the same functions in scope.

Registered functions stand in front of the built-in ones.
-/

namespace TreeQuery

/-- How a factory comes to its predicate. -/
inductive Recipe where
  /-- The predicate is there. -/
  | done (predicate : Predicate)
  /-- The call fails. -/
  | fail (error : Selector.Error)
  /-- A selector text has to be compiled, and its outcome decides how to go on. -/
  | compile (text : String) (next : Except Selector.Error Selector → Recipe)

namespace Recipe

/-- Have a selector compiled, or fail as its compilation does. -/
def withSelector (text : String) (next : Selector → Recipe) : Recipe :=
  .compile text fun
    | .ok selector => next selector
    | .error error => .fail error

/-- Have a selector compiled that is a single test, or fail. -/
def withPredicate (text : String) (next : Predicate → Recipe) : Recipe :=
  withSelector text fun selector =>
    match selector.toPredicate with
    | .ok predicate => next predicate
    | .error error => .fail error

/-- Go on with a parameter, or fail for want of it. -/
def withParameter (name : String) (parameter : Option String) (next : String → Recipe) : Recipe :=
  match parameter with
  | some text => next text
  | none => .fail (.missingParameter name)

end Recipe

/-- A selector function: its name, its parameter and the predicate before it give a recipe. -/
abbrev Factory := String → Option String → Option Predicate → Recipe

/-- The functions that need no registration. -/
inductive Builtin where
  /-- Holds of the nodes that do not pass the test in the parameter. -/
  | not
  /-- Holds of the nodes below which the selector in the parameter matches something. -/
  | has
  /-- Holds of the first node that gets as far as this test. -/
  | first
  deriving DecidableEq

namespace Builtin

/-- All built-in functions. -/
def all : List Builtin := [.not, .has, .first]

/-- The name by which a selector text calls a built-in function. -/
def name : Builtin → String
  | .not => "not"
  | .has => "has"
  | .first => "first"

/-- The label of a built-in function, which is its name with a capital letter. -/
def label : Builtin → String
  | .not => "Not"
  | .has => "Has"
  | .first => "First"

/-- The built-in function of a name. -/
def ofName? (name : String) : Option Builtin := all.find? fun builtin => builtin.name == name

/-- The words for a name that no built-in function has. -/
def unknownName : String := "Matching variant not found"

/-- The factory of a built-in function. -/
def factory : Builtin → Factory
  | .not => fun name parameter earlier =>
    .withParameter name parameter fun text =>
      .withPredicate text fun inner => .done (.chain earlier (.not inner))
  | .has => fun name parameter earlier =>
    .withParameter name parameter fun text =>
      .withSelector text fun inner => .done (.chain earlier (.has inner))
  | .first => fun _ _ earlier => .done (.chain earlier (.first false))

/-- Every built-in function is found under its name. -/
theorem ofName?_name (builtin : Builtin) : ofName? builtin.name = some builtin := by
  cases builtin <;> rfl

end Builtin

/-- Where a factory comes from. -/
inductive Origin where
  | registered
  | builtin
  deriving DecidableEq

/-- The registered functions, which stand in front of the built-in ones. -/
structure Functions where
  overlay : List (String × Factory)

namespace Functions

/-- Nothing but the built-in functions. -/
def empty : Functions := ⟨[]⟩

/-- The functions with one more, in the place of an earlier one of the same name. -/
def register (functions : Functions) (name : String) (factory : Factory) : Functions :=
  ⟨(name, factory) :: functions.overlay.filter fun entry => entry.1 != name⟩

/-- The factory of a name, and where it comes from. -/
def resolve? (functions : Functions) (name : String) : Option (Origin × Factory) :=
  match functions.overlay.lookup name with
  | some factory => some (.registered, factory)
  | none => (Builtin.ofName? name).map fun builtin => (.builtin, builtin.factory)

/-- The factory of a name, or the error that there is none. -/
def resolve (functions : Functions) (name : String) : Except Selector.Error (Origin × Factory) :=
  match functions.resolve? name with
  | some found => .ok found
  | none => .error (.unknownFunction name)

/-- Whether a name has a factory. -/
def contains (functions : Functions) (name : String) : Bool := (functions.resolve? name).isSome

/-- The names of the registered functions, in order. -/
def names (functions : Functions) : List String :=
  (functions.overlay.map Prod.fst).mergeSort fun a b => decide (a ≤ b)

end Functions

end TreeQuery
