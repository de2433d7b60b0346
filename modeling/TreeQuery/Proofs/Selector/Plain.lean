import Mathlib.Tactic.Common
import TreeQuery.Selector.Compile

/-!
# Compiling with the built-in functions alone

Where nothing is registered the log of a compilation has no part in its outcome. What is left is a
plain recursion in the errors: components are put behind one another from left to right, compounds
become parts, and `not` and `has` compile their parameter one level deeper.

Main statement: compilation without registered functions has the outcome of the plain recursion,
whatever its log holds.
-/

namespace TreeQuery

/-- A compilation has an outcome, whatever the log holds. -/
def Compilation.Gives {α : Type} (compilation : Compilation α) (result : Except Selector.Error α) : Prop :=
  ∀ calls, (compilation.run calls).1 = result

namespace Compilation

variable {α β : Type}

theorem gives_pure (value : α) : Gives (pure value) (.ok value) := fun _ => rfl

theorem gives_throw (error : Selector.Error) : Gives (α := α) (throw error) (.error error) := fun _ => rfl

theorem gives_log (call : Call) : Gives (Compilation.log call) (.ok ()) := fun _ => rfl

/-- Running one compilation after another takes the outcome of the first to the second. -/
theorem gives_bind {first : Compilation α} {next : α → Compilation β} {result : Except Selector.Error α}
    {after : α → Except Selector.Error β} (hfirst : first.Gives result)
    (hnext : ∀ value, (next value).Gives (after value)) : (first >>= next).Gives (result.bind after) := by
  intro calls
  rw [← hfirst calls]
  simp only [bind, ExceptT.bind, ExceptT.run, ExceptT.mk, StateT.bind]
  rcases first calls with ⟨error | value, later⟩
  · rfl
  · exact hnext value later

/-- A compilation whose outcome is looked at goes on with that outcome. -/
theorem gives_lift_bind {first : Compilation α} {next : Except Selector.Error α → Compilation β}
    {result : Except Selector.Error α} {after : Except Selector.Error β} (hfirst : first.Gives result)
    (hnext : (next result).Gives after) :
    Gives (α := β) (do next (← ExceptT.lift first.run)) after := by
  intro calls
  have hresult := hfirst calls
  simp only [bind, ExceptT.bind, ExceptT.run, ExceptT.mk, ExceptT.lift, StateT.bind, Functor.map,
    StateT.map] at hresult ⊢
  rcases hrun : first calls with ⟨outcome, later⟩
  rw [hrun] at hresult
  rw [← hresult] at hnext
  exact hnext later

end Compilation

namespace Plain

/-- The predicate that a call of a built-in function puts behind an earlier one. -/
def call (compile : String → Except Selector.Error Selector) (name : String)
    (earlier : Option Predicate) : Builtin → Option String → Except Selector.Error Predicate
  | .first, _ => .ok (.chain earlier (.first false))
  | .not, some text => (compile text).bind fun selector =>
    selector.toPredicate.bind fun inner => .ok (.chain earlier (.not inner))
  | .has, some text => (compile text).bind fun selector => .ok (.chain earlier (.has selector))
  | _, none => .error (.missingParameter name)

/-- The predicate of a component behind an earlier one. -/
def component (compile : String → Except Selector.Error Selector) (earlier : Option Predicate) :
    Component → Except Selector.Error Predicate
  | .tag name => .ok (.chain earlier (.ofTag name))
  | .id value => .ok (.chain earlier (.id value))
  | .hasClass name => .ok (.chain earlier (.hasClass name))
  | .call name parameter =>
    match Builtin.ofName? name, parameter with
    | none, _ => .error (.unknownFunction name)
    | some _, .error (fault, position) => .error (.invalid fault position)
    | some builtin, .ok parameter => call compile name earlier builtin parameter
  | .unreadable fault position => .error (.invalid fault position)

/-- The predicate of a list of components behind an earlier one. -/
def components (compile : String → Except Selector.Error Selector) (earlier : Option Predicate) :
    List Component → Except Selector.Error (Option Predicate)
  | [] => .ok earlier
  | first :: rest => (component compile earlier first).bind fun predicate =>
    components compile (some predicate) rest

/-- The part of a compound. -/
def compound (compile : String → Except Selector.Error Selector) (compound : Compound) :
    Except Selector.Error Part :=
  (components compile none compound.components).bind fun predicate =>
    .ok ⟨if compound.child then some 1 else none, predicate.getD .always⟩

/-- The parts of a list of compounds. -/
def parts (compile : String → Except Selector.Error Selector) :
    List Compound → Except Selector.Error (List Part)
  | [] => .ok []
  | first :: rest => (compound compile first).bind fun part =>
    (parts compile rest).bind fun others => .ok (part :: others)

/-- The selector of a list of compounds. -/
def compounds (compile : String → Except Selector.Error Selector) :
    List Compound → Except Selector.Error Selector
  | [] => .error (.invalid .empty 0)
  | first :: rest => (compound compile first).bind fun head =>
    (parts compile rest).bind fun others => .ok ⟨head, others⟩

/-- Compile a text, where functions may call for compilation down to the given number of levels. -/
def compileWithin : Nat → String → Except Selector.Error Selector
  | 0, _ => .error .endlessNesting
  | levels + 1, text => compounds (compileWithin levels) (Compound.ofText (Text.trimChars text.toList))

/-- One step after another succeeds when both do. -/
theorem bind_eq_ok_iff {α β : Type} {first : Except Selector.Error α}
    {next : α → Except Selector.Error β} {result : β} :
    first.bind next = .ok result ↔ ∃ value, first = .ok value ∧ next value = .ok result := by
  cases first <;> simp [Except.bind]

section

variable {compile : String → Compilation Selector} {plain : String → Except Selector.Error Selector}

/-- Following the recipe of a built-in function gives what a plain call of it gives. -/
theorem gives_factory (h : ∀ text, (compile text).Gives (plain text)) (name : String)
    (earlier : Option Predicate) (builtin : Builtin) (parameter : Option String) :
    ((builtin.factory name parameter earlier).follow compile).Gives
      (call plain name earlier builtin parameter) := by
  cases builtin with
  | first => exact Compilation.gives_pure _
  | not =>
    cases parameter with
    | none => exact Compilation.gives_throw _
    | some text =>
      apply Compilation.gives_lift_bind (h text)
      cases hplain : plain text with
      | error error =>
        rw [call, hplain]
        exact Compilation.gives_throw error
      | ok selector =>
        rw [call, hplain]
        dsimp only [Except.bind]
        cases selector.toPredicate with
        | error error => exact Compilation.gives_throw error
        | ok inner => exact Compilation.gives_pure _
  | has =>
    cases parameter with
    | none => exact Compilation.gives_throw _
    | some text =>
      apply Compilation.gives_lift_bind (h text)
      cases hplain : plain text with
      | error error =>
        rw [call, hplain]
        exact Compilation.gives_throw error
      | ok selector =>
        rw [call, hplain]
        exact Compilation.gives_pure _

/-- A component gives what its plain reading gives. -/
theorem gives_component (h : ∀ text, (compile text).Gives (plain text)) (earlier : Option Predicate)
    (part : Component) :
    (Functions.empty.compileComponent compile earlier part).Gives (component plain earlier part) := by
  cases part with
  | tag name => exact Compilation.gives_pure _
  | id value => exact Compilation.gives_pure _
  | hasClass name => exact Compilation.gives_pure _
  | unreadable fault position => exact Compilation.gives_throw _
  | call name parameter =>
    have hresolve : Functions.empty.resolve name =
        match Builtin.ofName? name with
        | none => .error (.unknownFunction name)
        | some builtin => .ok (.builtin, builtin.factory) := by
      simp only [Functions.resolve, Functions.resolve?, Functions.empty, List.lookup_nil]
      cases Builtin.ofName? name <;> rfl
    simp only [Functions.compileComponent, Functions.call, hresolve, component]
    cases Builtin.ofName? name with
    | none => exact Compilation.gives_throw _
    | some builtin =>
      rcases parameter with ⟨fault, position⟩ | parameter
      · exact Compilation.gives_throw _
      · have hfactory := gives_factory h name earlier builtin parameter
        exact Compilation.gives_bind (Compilation.gives_log _) fun _ => hfactory

/-- A list of components gives what its plain reading gives. -/
theorem gives_components (h : ∀ text, (compile text).Gives (plain text)) (earlier : Option Predicate)
    (list : List Component) :
    (Functions.empty.compileComponents compile earlier list).Gives (components plain earlier list) := by
  induction list generalizing earlier with
  | nil => exact Compilation.gives_pure _
  | cons first rest ih =>
    exact Compilation.gives_bind (gives_component h earlier first) fun predicate => ih (some predicate)

/-- A compound gives what its plain reading gives. -/
theorem gives_compound (h : ∀ text, (compile text).Gives (plain text)) (written : Compound) :
    (Functions.empty.compileCompound compile written).Gives (compound plain written) :=
  Compilation.gives_bind (gives_components h none written.components) fun _ => Compilation.gives_pure _

/-- A list of compounds gives what its plain reading gives. -/
theorem gives_compounds (h : ∀ text, (compile text).Gives (plain text)) (list : List Compound) :
    (Functions.empty.compileCompounds compile list).Gives (compounds plain list) := by
  have hparts : ∀ list : List Compound,
      (list.mapM (Functions.empty.compileCompound compile)).Gives (parts plain list) := by
    intro list
    induction list with
    | nil => exact Compilation.gives_pure _
    | cons first rest ih =>
      rw [List.mapM_cons]
      exact Compilation.gives_bind (gives_compound h first) fun part =>
        Compilation.gives_bind ih fun others => Compilation.gives_pure _
  cases list with
  | nil => exact Compilation.gives_throw _
  | cons first rest =>
    exact Compilation.gives_bind (gives_compound h first) fun head =>
      Compilation.gives_bind (hparts rest) fun others => Compilation.gives_pure _

end

/-- A text gives what its plain reading gives, on every number of levels. -/
theorem gives_compileWithin (levels : Nat) (text : String) :
    (Functions.empty.compileWithin levels text).Gives (compileWithin levels text) := by
  induction levels generalizing text with
  | zero => exact Compilation.gives_throw _
  | succ levels ih => exact gives_compounds ih _

end Plain

end TreeQuery
