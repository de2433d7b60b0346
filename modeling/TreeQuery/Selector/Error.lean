import TreeQuery.Selector.Basic

/-!
# Why a selector does not compile

A fault is something wrong with the text itself, and it has a position: the number of bytes before
it. The other errors concern the functions that a text calls, and the place where a selector is
used.
-/

namespace TreeQuery

/-- What is wrong with a selector text at some position. -/
inductive Fault where
  /-- The text is blank. -/
  | empty
  /-- No identifier follows a mark that needs one. -/
  | missingIdentifier (mark : Char)
  /-- A character that cannot stand where it stands. -/
  | unexpectedCharacter
  /-- A parenthesis that is never closed. -/
  | unbalancedParentheses
  /-- A parenthesis inside too many others. -/
  | nestedTooDeeply
  /-- A fault that a registered function reports in words of its own. -/
  | reported (message : String)
  deriving DecidableEq

/-- The words for a fault. -/
def Fault.message : Fault → String
  | .empty => "empty selector"
  | .missingIdentifier mark => s!"expected identifier after '{mark}'"
  | .unexpectedCharacter => "unexpected character"
  | .unbalancedParentheses => "unbalanced parentheses"
  | .nestedTooDeeply => "parentheses nested too deeply"
  | .reported message => message

namespace Selector

/-- Why a selector does not compile. -/
inductive Error where
  /-- The text has a fault at a position. -/
  | invalid (fault : Fault) (position : Nat)
  /-- The text calls a function that nothing provides. -/
  | unknownFunction (name : String)
  /-- A function lacks its parameter. -/
  | missingParameter (name : String)
  /-- A selector with a bound or several parts stands where a single test is needed. -/
  | complexSelector
  /-- Functions compile selectors that call functions, without an end in sight. -/
  | endlessNesting
  deriving DecidableEq

/-- The words for an error. -/
def Error.message : Error → String
  | .invalid fault position =>
    let text := fault.message
    s!"invalid selector: {text} at offset {position}"
  | .unknownFunction name => s!"unknown selector function ':{name}'"
  | .missingParameter name => s!"missing parameter for selector function ':{name}'"
  | .complexSelector => "complex selectors are not allowed here"
  | .endlessNesting => "selector functions are nested without end"

/-- The predicate of a selector that is a single test. -/
def toPredicate (selector : Selector) : Except Error Predicate :=
  if selector.isSimple then .ok selector.head.predicate else .error .complexSelector

end Selector

end TreeQuery
