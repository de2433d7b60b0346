import TreeQuery.Selector.Compound
import TreeQuery.Selector.Functions

/-!
# Compiling selector text

The components of a compound are compiled from left to right, each behind the predicate of those
before it, and the compounds become the parts of the selector. Compilation ends at the first
component that fails. Every call of a factory is logged before its recipe is followed, so the log
shows the calls in the order of the text, and the calls for a parameter behind the call that has it.

Factories that have parameters compiled call for compilation again. The built-in ones go one pair of
parentheses deeper each time; registered ones might go on for ever, and `nestingLimit` ends that.
-/

namespace TreeQuery

/-- One call of a factory. -/
structure Call where
  origin : Origin
  name : String
  parameter : Option String
  /-- The predicate of the components before the call. -/
  earlier : Option Predicate

/-- Compilation, which logs calls, the latest first, and keeps the log when it fails. -/
abbrev Compilation := ExceptT Selector.Error (StateM (List Call))

namespace Compilation

/-- Add a call to the log. -/
def log (call : Call) : Compilation Unit := modify (call :: ·)

/-- The outcome of a compilation and the calls it made, in order. -/
def outcome {α : Type} (compilation : Compilation α) : Except Selector.Error α × List Call :=
  match compilation.run [] with
  | (result, calls) => (result, calls.reverse)

end Compilation

/-- Follow a recipe, where `compile` compiles the texts that it asks for. -/
def Recipe.follow (compile : String → Compilation Selector) : Recipe → Compilation Predicate
  | .done predicate => pure predicate
  | .fail error => throw error
  | .compile text next => do
    let result ← ExceptT.lift (compile text).run
    (next result).follow compile

namespace Functions

/-- Call the factory of a name. -/
def call (functions : Functions) (compile : String → Compilation Selector) (name : String)
    (parameter : Except (Fault × Nat) (Option String)) (earlier : Option Predicate) :
    Compilation Predicate :=
  match functions.resolve name, parameter with
  | .error error, _ => throw error
  | .ok _, .error (fault, position) => throw (.invalid fault position)
  | .ok (origin, factory), .ok parameter => do
    .log ⟨origin, name, parameter, earlier⟩
    (factory name parameter earlier).follow compile

/-- The predicate of a component behind an earlier one. -/
def compileComponent (functions : Functions) (compile : String → Compilation Selector)
    (earlier : Option Predicate) : Component → Compilation Predicate
  | .tag name => pure (.chain earlier (.ofTag name))
  | .id value => pure (.chain earlier (.id value))
  | .hasClass name => pure (.chain earlier (.hasClass name))
  | .call name parameter => functions.call compile name parameter earlier
  | .unreadable fault position => throw (.invalid fault position)

/-- The predicate of a list of components behind an earlier one, if there is any component. -/
def compileComponents (functions : Functions) (compile : String → Compilation Selector)
    (earlier : Option Predicate) : List Component → Compilation (Option Predicate)
  | [] => pure earlier
  | component :: rest => do
    let predicate ← functions.compileComponent compile earlier component
    functions.compileComponents compile (some predicate) rest

/-- The part of a compound. A child mark bounds the depth to one level, and a compound without
components holds of every node. -/
def compileCompound (functions : Functions) (compile : String → Compilation Selector)
    (compound : Compound) : Compilation Part := do
  let predicate ← functions.compileComponents compile none compound.components
  pure ⟨if compound.child then some 1 else none, predicate.getD .always⟩

/-- The selector of a list of compounds. -/
def compileCompounds (functions : Functions) (compile : String → Compilation Selector) :
    List Compound → Compilation Selector
  | [] => throw (.invalid .empty 0)
  | compound :: rest => do
    let head ← functions.compileCompound compile compound
    let rest ← rest.mapM (functions.compileCompound compile)
    pure ⟨head, rest⟩

/-- Compile a text, where factories may call for compilation down to the given number of levels. -/
def compileWithin (functions : Functions) : Nat → String → Compilation Selector
  | 0, _ => throw .endlessNesting
  | levels + 1, text =>
    functions.compileCompounds (functions.compileWithin levels)
      (Compound.ofText (Text.trimChars text.toList))

/-- The number of levels on which factories may call for compilation. It lies deeper than any
compilation with an end gets, and makes one without an end a finite thing all the same. -/
def nestingLimit : Nat := 1 <<< 62

/-- Compile a text. -/
def compileText (functions : Functions) (text : String) : Compilation Selector :=
  functions.compileWithin nestingLimit text

end Functions

/-- What a selector is given as: its text, or the selector itself. -/
inductive SelectorSource where
  | text (text : String)
  | compiled (selector : Selector)

namespace Functions

/-- Compile what is given for a selector. A selector passes through untouched. -/
def compile (functions : Functions) : SelectorSource → Compilation Selector
  | .text text => functions.compileText text
  | .compiled selector => pure selector

/-- Compile what is given for a selector that has to be a single test. -/
def compileSimple (functions : Functions) (source : SelectorSource) : Compilation Predicate := do
  let selector ← functions.compile source
  liftExcept selector.toPredicate

/-- Call the factory of a name directly, outside any text. -/
def callFactory (functions : Functions) (name : String) (parameter : Option String)
    (earlier : Option Predicate) : Compilation Predicate :=
  functions.call (functions.compileWithin nestingLimit) name (.ok parameter) earlier

end Functions

end TreeQuery
