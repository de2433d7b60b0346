import TreeQuery.Proofs.Selector.Openings

/-!
# The parameters of a course

A course with the built-in functions alone has no texts compiled but parameters that stand in its text,
between parentheses that are balanced and few enough. So it depends on what those come to and on nothing
else, every call on its way has such a parameter or is made for one, and where it fails a component fails
by itself or such a parameter does.

Main statements: what follows a call of a built-in function; a course is the same with anything that its
parameters come to alike; and whose calls and whose errors those of a course are.
-/

namespace TreeQuery

/-- The recipe of a call whose result is there. -/
def Recipe.settled : Except Selector.Error Predicate → Recipe
  | .ok predicate => .done predicate
  | .error error => .fail error

namespace Builtin

/-- The text that a call of a built-in function has compiled. `first` makes no use of its parameter. -/
def asks : Builtin → Option String → Option String
  | .first, _ => none
  | _, value => value

/-- What a call has compiled is its parameter. -/
theorem eq_of_mem_asks {builtin : Builtin} {value : Option String} {text : String}
    (h : text ∈ builtin.asks value) : value = some text := by
  cases builtin with
  | first => cases h
  | not => exact h
  | has => exact h

/-- A call fails as the text does that it has compiled. -/
theorem call_error {builtin : Builtin} {value : Option String} {text : String}
    (h : text ∈ builtin.asks value) (error : Selector.Error) (name : String) (earlier : Option Predicate) :
    Plain.call (fun _ => .error error) name earlier builtin value = .error error := by
  cases builtin with
  | first => cases h
  | not =>
    cases h
    rfl
  | has =>
    cases h
    rfl

/-- What is no single test is too complex. -/
theorem toPredicate_eq_error {selector : Selector} {error : Selector.Error}
    (h : selector.toPredicate = .error error) : error = .complexSelector := by
  unfold Selector.toPredicate at h
  split at h
  next => cases h
  next =>
    cases h
    rfl

/-- A call that fails lacks its parameter, or its parameter is no single test, or fails like that. -/
theorem call_eq_error {outcome : Except Selector.Error Selector} {name : String}
    {earlier : Option Predicate} {builtin : Builtin} {value : Option String} {error : Selector.Error}
    (h : Plain.call (fun _ => outcome) name earlier builtin value = .error error) :
    error = .missingParameter name ∨ error = .complexSelector ∨
      ∃ text ∈ builtin.asks value, outcome = .error error := by
  cases builtin with
  | first => cases h
  | not =>
    cases value with
    | none =>
      cases h
      exact Or.inl rfl
    | some text =>
      rcases outcome with error | selector
      · cases h
        exact Or.inr (Or.inr ⟨text, rfl, rfl⟩)
      · simp only [Plain.call, Except.bind] at h
        cases hpredicate : selector.toPredicate with
        | ok inner =>
          rw [hpredicate] at h
          cases h
        | error error =>
          rw [hpredicate] at h
          cases h
          exact Or.inr (Or.inl (toPredicate_eq_error hpredicate))
  | has =>
    cases value with
    | none =>
      cases h
      exact Or.inl rfl
    | some text =>
      rcases outcome with error | selector
      · cases h
        exact Or.inr (Or.inr ⟨text, rfl, rfl⟩)
      · cases h

/-- A call that has nothing compiled does not depend on what texts come to. -/
theorem call_of_asks_none {builtin : Builtin} {value : Option String} (h : builtin.asks value = none)
    (compile compile' : String → Except Selector.Error Selector) (name : String) (earlier : Option Predicate) :
    Plain.call compile name earlier builtin value = Plain.call compile' name earlier builtin value := by
  cases builtin <;> cases value <;> first | rfl | cases h

/-- The recipe of a built-in function has its parameter compiled, if it makes use of one, and is settled
then. -/
theorem factory_eq (builtin : Builtin) (name : String) (value : Option String) (earlier : Option Predicate)
    (compile : String → Except Selector.Error Selector) :
    builtin.factory name value earlier =
      match builtin.asks value with
      | none => .settled (Plain.call compile name earlier builtin value)
      | some text => .compile text fun outcome =>
          .settled (Plain.call (fun _ => outcome) name earlier builtin value) := by
  cases builtin with
  | first => rfl
  | not =>
    cases value with
    | none => rfl
    | some text =>
      refine congrArg (Recipe.compile text) (funext fun outcome => ?_)
      rcases outcome with error | selector
      · rfl
      · simp only [Plain.call, Except.bind]
        cases selector.toPredicate <;> rfl
  | has =>
    cases value with
    | none => rfl
    | some text => exact congrArg (Recipe.compile text) (funext fun outcome => by cases outcome <;> rfl)

end Builtin

namespace Course

open Grammar

/-- A parameter that stands in a text and that a function is called with, since it is not blank. -/
structure Handed (raw text : List Char) : Prop extends Grammar.Parameter raw text where
  blank : raw.all Text.isBlank = false

/-- A parameter of what is left of a text is one of the text. -/
theorem Handed.of_takes {raw text rest : List Char} (h : Handed raw rest) (htakes : Takes text rest) :
    Handed raw text := ⟨h.toParameter.of_takes htakes, h.blank⟩

/-- A parameter is shorter than the text that it stands in. -/
theorem Handed.byteLength_lt {raw text : List Char} (h : Handed raw text) :
    Text.byteLength raw < Text.byteLength text := by
  obtain ⟨rest, piece, rfl, -⟩ := h.takes
  have hopen : '('.utf8Size = 1 := rfl
  simp only [Text.byteLength_append, Text.byteLength_cons, hopen]
  omega

/-- The parameter that a function is called with stands in the text behind the name. -/
theorem Parameter.handed {name text rest : List Char} {value : String} (hname : Name name text)
    (h : Parameter text (.ok (some value, rest))) :
    ∃ raw, value = .ofList raw ∧ Handed raw (':' :: (name ++ text)) := by
  cases h with
  | present hraw hblank => exact ⟨_, rfl, hraw.parameter (List.all_eq_true.mpr hname.all) _, hblank⟩

/-- Where nothing is registered a name is that of a built-in function. -/
theorem exists_builtin {name : String} {origin : Origin} {factory : Factory}
    (h : Functions.empty.resolve? name = some (origin, factory)) :
    ∃ builtin : Builtin, factory = builtin.factory := by
  simp only [Functions.resolve?, Functions.empty, List.lookup_nil, Option.map_eq_some_iff] at h
  obtain ⟨builtin, -, hfound⟩ := h
  cases hfound
  exact ⟨builtin, rfl⟩

section

variable {Inner Inner' : String → Except Selector.Error Selector → List Call → Prop}

/-- Following a settled recipe comes to its result. -/
theorem follows_settled_iff {outcome result : Except Selector.Error Predicate} {calls : List Call} :
    Follows Inner (.settled outcome) result calls ↔ result = outcome ∧ calls = [] := by
  constructor
  · intro h
    cases outcome <;> cases h <;> exact ⟨rfl, rfl⟩
  · intro hall
    obtain ⟨rfl, rfl⟩ := hall
    cases result with
    | error error => exact .fail error
    | ok predicate => exact .done predicate

/-- What a call of a built-in function comes to: what a plain call does with what its parameter comes to,
if it has that compiled, and the calls are those on the way of it. -/
theorem follows_factory_iff {builtin : Builtin} {name : String} {value : Option String}
    {earlier : Option Predicate} {result : Except Selector.Error Predicate} {calls : List Call} :
    Follows Inner (builtin.factory name value earlier) result calls ↔ ∃ outcome,
      (∀ text ∈ builtin.asks value, Inner text outcome calls) ∧ (builtin.asks value = none → calls = []) ∧
        result = Plain.call (fun _ => outcome) name earlier builtin value := by
  rw [Builtin.factory_eq builtin name value earlier fun _ => .error .endlessNesting]
  cases hasks : builtin.asks value with
  | none =>
    simp only [follows_settled_iff]
    constructor
    · intro hall
      obtain ⟨hresult, hcalls⟩ := hall
      exact ⟨.error .endlessNesting, by simp, fun _ => hcalls, hresult⟩
    · intro hall
      obtain ⟨outcome, -, hcalls, hresult⟩ := hall
      exact ⟨hresult.trans (Builtin.call_of_asks_none hasks _ _ name earlier), hcalls trivial⟩
  | some text =>
    constructor
    · intro h
      cases h with
      | compile inner follows =>
        obtain ⟨hresult, rfl⟩ := follows_settled_iff.mp follows
        rw [List.append_nil]
        exact ⟨_, fun _ htext => Option.mem_some_iff.mp htext ▸ inner, by simp, hresult⟩
    · intro hall
      obtain ⟨outcome, inner, -, hresult⟩ := hall
      have hfollows : Follows Inner (.compile text fun outcome =>
          .settled (Plain.call (fun _ => outcome) name earlier builtin (value))) result (calls ++ []) :=
        .compile (inner text rfl) (follows_settled_iff.mpr ⟨hresult, rfl⟩)
      rwa [List.append_nil] at hfollows

variable {whole : List Char}

/-- A component depends on what its parameter comes to: if it does not fail, on that of a parameter that
does not fail, and if it fails, on that of one that does not fail or fails like it. -/
theorem Step.imp {text : List Char} {earlier : Option Predicate}
    {outcome : Except Selector.Error (Predicate × List Char)} {calls : List Call}
    (h : Step .empty Inner whole text earlier outcome calls)
    (himp : ∀ raw found calls, Handed raw text → (∀ error, found = .error error → outcome = .error error) →
      Inner (.ofList raw) found calls → Inner' (.ofList raw) found calls) :
    Step .empty Inner' whole text earlier outcome calls := by
  cases h with
  | id hname => exact .id hname
  | hasClass hname => exact .hasClass hname
  | nameless hmark hrest => exact .nameless hmark hrest
  | unknown hname hresolve => exact .unknown hname hresolve
  | parentheses hname hresolve parameter => exact .parentheses hname hresolve parameter
  | unexpected hmark hends => exact .unexpected hmark hends
  | @call _ name text rest _ _ value result calls hname hresolve parameter follows =>
    obtain ⟨builtin, rfl⟩ := exists_builtin hresolve
    refine .call hname hresolve parameter ?_
    obtain ⟨found, inner, hcalls, rfl⟩ := follows_factory_iff.mp follows
    refine follows_factory_iff.mpr ⟨found, fun asked hasked => ?_, hcalls, rfl⟩
    obtain rfl := Builtin.eq_of_mem_asks hasked
    obtain ⟨raw, rfl, hraw⟩ := parameter.handed hname
    refine himp raw found calls hraw (fun error herror => ?_) (inner _ hasked)
    rw [herror, Builtin.call_error hasked]
    rfl

/-- The offset of a rest counts the bytes in front of it. -/
theorem offset_append (front rest : List Char) : offset (front ++ rest) rest = Text.byteLength front := by
  rw [offset, Text.byteLength_append, Nat.add_sub_cancel]

/-- The errors that a component makes itself. -/
inductive Failure (whole : List Char) : List Char → Selector.Error → Prop
  | nameless (mark : Char) (rest : List Char) :
      Failure whole (mark :: rest) (.invalid (.missingIdentifier mark) (offset whole rest))
  | unknown (text : List Char) (name : String) : Failure whole text (.unknownFunction name)
  | parentheses {name text place : List Char} {fault : Fault} (hname : Name name text)
      (parameter : Parameter text (.error (fault, place))) :
      Failure whole (':' :: (name ++ text)) (.invalid fault (offset whole place))
  | missing (text : List Char) (name : String) : Failure whole text (.missingParameter name)
  | complex (text : List Char) : Failure whole text .complexSelector
  | unexpected {c : Char} {rest : List Char} (hmark : c ∉ marks) (hends : ¬ Ends (c :: rest)) :
      Failure whole (c :: rest) (.invalid .unexpectedCharacter (offset whole (c :: rest)))

/-- A component that fails does so by itself or as its parameter does. -/
theorem Step.failure {text : List Char} {earlier : Option Predicate} {error : Selector.Error}
    {calls : List Call} (h : Step .empty Inner whole text earlier (.error error) calls) :
    Failure whole text error ∨ ∃ raw later, Handed raw text ∧ Inner (.ofList raw) (.error error) later := by
  generalize houtcome : Except.error error = outcome at h
  cases h with
  | id => cases houtcome
  | hasClass => cases houtcome
  | nameless =>
    cases houtcome
    exact Or.inl (.nameless _ _)
  | unknown =>
    cases houtcome
    exact Or.inl (.unknown _ _)
  | parentheses hname _ parameter =>
    cases houtcome
    exact Or.inl (.parentheses hname parameter)
  | unexpected hmark hends =>
    cases houtcome
    exact Or.inl (.unexpected hmark hends)
  | @call _ name text rest _ _ value result calls hname hresolve parameter follows =>
    obtain ⟨builtin, rfl⟩ := exists_builtin hresolve
    obtain ⟨found, inner, -, rfl⟩ := follows_factory_iff.mp follows
    cases hcall : Plain.call (fun _ => found) (.ofList name) earlier builtin value with
    | ok predicate =>
      rw [hcall] at houtcome
      cases houtcome
    | error error =>
      rw [hcall] at houtcome
      cases houtcome
      rcases Builtin.call_eq_error hcall with rfl | rfl | ⟨asked, hasked, rfl⟩
      · exact Or.inl (.missing _ _)
      · exact Or.inl (.complex _)
      · obtain rfl := Builtin.eq_of_mem_asks hasked
        obtain ⟨raw, rfl, hraw⟩ := parameter.handed hname
        exact Or.inr ⟨raw, _, hraw, inner _ hasked⟩

/-- A call on the course of a text: one without parameter, one whose parameter stands in the text, or one
made for such a parameter. -/
inductive Made (Inner : String → Except Selector.Error Selector → List Call → Prop) (text : List Char)
    (call : Call) : Prop
  | plain (hparameter : call.parameter = none)
  | own {raw : List Char} (hraw : Handed raw text) (hparameter : call.parameter = some (.ofList raw))
  | inner {raw : List Char} {found : Except Selector.Error Selector} {calls : List Call}
      (hraw : Handed raw text) (inner : Inner (.ofList raw) found calls) (hcall : call ∈ calls)

/-- A call for what is left of a text is one for the text. -/
theorem Made.of_takes {text rest : List Char} {call : Call} (h : Made Inner rest call)
    (htakes : Takes text rest) : Made Inner text call := by
  cases h with
  | plain hparameter => exact .plain hparameter
  | own hraw hparameter => exact .own (hraw.of_takes htakes) hparameter
  | inner hraw inner hcall => exact .inner (hraw.of_takes htakes) inner hcall

/-- The calls for a component are its own and those for its parameter. -/
theorem Step.made {text : List Char} {earlier : Option Predicate}
    {outcome : Except Selector.Error (Predicate × List Char)} {calls : List Call}
    (h : Step .empty Inner whole text earlier outcome calls) : ∀ call ∈ calls, Made Inner text call := by
  cases h with
  | id => simp
  | hasClass => simp
  | nameless => simp
  | unknown => simp
  | parentheses => simp
  | unexpected => simp
  | @call _ name text rest _ _ value result calls hname hresolve parameter follows =>
    obtain ⟨builtin, rfl⟩ := exists_builtin hresolve
    obtain ⟨found, inner, hcalls, -⟩ := follows_factory_iff.mp follows
    refine List.forall_mem_cons.mpr ⟨?_, fun call hcall => ?_⟩
    · cases value with
      | none => exact .plain rfl
      | some value =>
        obtain ⟨raw, rfl, hraw⟩ := parameter.handed hname
        exact .own hraw rfl
    · cases hasks : builtin.asks value with
      | none =>
        rw [hcalls hasks] at hcall
        cases hcall
      | some asked =>
        obtain rfl := Builtin.eq_of_mem_asks hasks
        obtain ⟨raw, rfl, hraw⟩ := parameter.handed hname
        exact .inner hraw (inner _ hasks) hcall

/-- A component that does not fail takes a piece of the text. -/
theorem Step.takes {functions : Functions} {text rest : List Char} {earlier : Option Predicate}
    {predicate : Predicate} {calls : List Call}
    (h : Step functions Inner whole text earlier (.ok (predicate, rest)) calls) : Takes text rest := by
  obtain ⟨piece, hpiece, rfl, -⟩ := h.foresees
  exact takes_of_balanced hpiece.toBalanced rest

/-- Behind blanks a text is taken up to what is no blank. -/
theorem takes_dropWhile (text : List Char) : Takes text (text.dropWhile Text.isAsciiBlank) := by
  have hblanks : ∀ c ∈ text.takeWhile Text.isAsciiBlank, Text.isAsciiBlank c = true :=
    fun c hc => List.mem_takeWhile_imp hc
  have htakes := takes_of_isAsciiBlank hblanks (text.dropWhile Text.isAsciiBlank)
  rwa [List.takeWhile_append_dropWhile] at htakes

/-- The child mark and the tag of a compound are a piece of the text. -/
theorem Mark.takes {text body rest : List Char} {child : Bool} {earlier : Option Predicate}
    (h : Mark text child body) (tag : Tag body earlier rest) : Takes text rest := by
  have hmark : Takes text body := by
    cases h with
    | plain => exact .refl text
    | child text => exact (takes_mark '>' (by decide) text).trans (takes_dropWhile text)
  obtain ⟨piece, hpiece, rfl, -⟩ := tag.foresees
  exact hmark.trans (takes_of_balanced hpiece.toBalanced rest)

/-- What a compound that has ended takes from a text is a piece of it. -/
theorem Opening.takes {functions : Functions} {text middle : List Char} {child : Bool}
    {result : Option Predicate} {calls : List Call}
    (h : Opening functions Inner whole text child result middle calls) :
    Takes text (middle.dropWhile Text.isAsciiBlank) := by
  obtain ⟨piece, rfl, hpiece⟩ := h.exists_piece
  exact (takes_of_balanced hpiece middle).trans (takes_dropWhile middle)

/-- What a course takes from a text on its way to a place is a piece of it. -/
theorem Reach.takes {functions : Functions} {text place : List Char} {parts : List Part} {child : Bool}
    {result : Option Predicate} {calls : List Call}
    (h : Reach functions Inner whole text parts child result place calls) : Takes text place := by
  obtain ⟨piece, rfl, hpiece⟩ := h.exists_piece
  exact takes_of_balanced hpiece place

/-- What the parameters of a text come to that do not fail, they come to in another way as well. -/
def Keeps (Inner Inner' : String → Except Selector.Error Selector → List Call → Prop) (text : List Char) : Prop :=
  ∀ raw selector calls, Handed raw text → Inner (.ofList raw) (.ok selector) calls →
    Inner' (.ofList raw) (.ok selector) calls

/-- Of the parameters of a text those of what is left of it are some. -/
theorem Keeps.of_takes {text rest : List Char} (h : Keeps Inner Inner' text) (htakes : Takes text rest) :
    Keeps Inner Inner' rest := fun raw selector calls hraw => h raw selector calls (hraw.of_takes htakes)

/-- Components that do not fail depend on what their parameters come to that do not fail. -/
theorem Advance.imp {text place : List Char} {earlier result : Option Predicate} {calls : List Call}
    (h : Advance .empty Inner whole text earlier result place calls) (hkeeps : Keeps Inner Inner' text) :
    Advance .empty Inner' whole text earlier result place calls := by
  induction h with
  | here place earlier => exact .here place earlier
  | step first others ih =>
    refine .step (first.imp fun raw found calls hraw herror inner => ?_) (ih (hkeeps.of_takes first.takes))
    cases found with
    | ok selector => exact hkeeps raw selector calls hraw inner
    | error error => cases herror error rfl

/-- A compound up to a place in it depends on what its parameters come to that do not fail. -/
theorem Opening.imp {text place : List Char} {child : Bool} {result : Option Predicate} {calls : List Call}
    (h : Opening .empty Inner whole text child result place calls) (hkeeps : Keeps Inner Inner' text) :
    Opening .empty Inner' whole text child result place calls := by
  obtain ⟨body, earlier, rest, mark, tag, advance⟩ := h
  exact ⟨body, earlier, rest, mark, tag, advance.imp (hkeeps.of_takes (mark.takes tag))⟩

/-- A course up to a place depends on what its parameters come to that do not fail. -/
theorem Reach.imp {text place : List Char} {parts : List Part} {child : Bool} {result : Option Predicate}
    {calls : List Call} (h : Reach .empty Inner whole text parts child result place calls)
    (hkeeps : Keeps Inner Inner' text) : Reach .empty Inner' whole text parts child result place calls := by
  induction h with
  | opening hne opening => exact .opening hne (opening.imp hkeeps)
  | more hne first hends others ih =>
    exact .more hne (first.imp hkeeps) hends (ih (hkeeps.of_takes first.takes))

/-- A course depends on what its parameters come to: on those that do not fail, and on the one that it fails
like. -/
theorem Compounds.imp {text : List Char} {outcome : Except Selector.Error (List Part)} {calls : List Call}
    (h : Compounds .empty Inner whole text outcome calls)
    (himp : ∀ raw found calls, Handed raw text → (∀ error, found = .error error → outcome = .error error) →
      Inner (.ofList raw) found calls → Inner' (.ofList raw) found calls) :
    Compounds .empty Inner' whole text outcome calls := by
  by_cases hne : text = []
  · subst hne
    obtain ⟨rfl, rfl⟩ := h.of_nil
    exact .done
  · obtain ⟨parts, child, result, place, before, later, reach, finish, rfl⟩ := h.exists_finish hne
    have hkeeps : Keeps Inner Inner' text := fun raw selector calls hraw => himp raw _ calls hraw (by simp)
    refine (reach.imp hkeeps).compounds ?_
    cases finish with
    | ends hends => exact .ends hends
    | fails step =>
      refine .fails (step.imp fun raw found calls hraw hfound => himp raw found calls (hraw.of_takes reach.takes) ?_)
      exact fun error herror => congrArg Except.error (Except.error.inj (hfound error herror))

/-- A course that fails does so by itself or as a parameter in its text does. -/
theorem Compounds.failure {text : List Char} {error : Selector.Error} {calls : List Call}
    (h : Compounds .empty Inner whole text (.error error) calls) :
    (∃ piece place, text = piece ++ place ∧ Balanced 32 piece ∧ Failure whole place error) ∨
      ∃ raw later, Handed raw text ∧ Inner (.ofList raw) (.error error) later := by
  have hne : text ≠ [] := by
    rintro rfl
    cases h.of_nil.1
  obtain ⟨parts, child, result, place, before, later, reach, finish, rfl⟩ := h.exists_finish hne
  cases finish with
  | fails step =>
    rcases step.failure with failure | ⟨raw, later, hraw, inner⟩
    · obtain ⟨piece, htext, hpiece⟩ := reach.exists_piece
      exact Or.inl ⟨piece, place, htext, hpiece, failure⟩
    · exact Or.inr ⟨raw, later, hraw.of_takes reach.takes, inner⟩

/-- The calls for components are those for each of them. -/
theorem Advance.made {text place : List Char} {earlier result : Option Predicate} {calls : List Call}
    (h : Advance .empty Inner whole text earlier result place calls) : ∀ call ∈ calls, Made Inner text call := by
  induction h with
  | here => simp
  | step first others ih =>
    exact List.forall_mem_append.mpr ⟨first.made, fun call hcall => (ih call hcall).of_takes first.takes⟩

/-- The calls for a compound are those for its components. -/
theorem Opening.made {text place : List Char} {child : Bool} {result : Option Predicate} {calls : List Call}
    (h : Opening .empty Inner whole text child result place calls) : ∀ call ∈ calls, Made Inner text call := by
  obtain ⟨body, earlier, rest, mark, tag, advance⟩ := h
  exact fun call hcall => (advance.made call hcall).of_takes (mark.takes tag)

/-- The calls up to a place are those for the compounds in front of it. -/
theorem Reach.made {text place : List Char} {parts : List Part} {child : Bool} {result : Option Predicate}
    {calls : List Call} (h : Reach .empty Inner whole text parts child result place calls) :
    ∀ call ∈ calls, Made Inner text call := by
  induction h with
  | opening hne opening => exact opening.made
  | more hne first hends others ih =>
    exact List.forall_mem_append.mpr ⟨first.made, fun call hcall => (ih call hcall).of_takes first.takes⟩

/-- The calls on a course have their parameters from its text or are made for such a parameter. -/
theorem Compounds.made {text : List Char} {outcome : Except Selector.Error (List Part)} {calls : List Call}
    (h : Compounds .empty Inner whole text outcome calls) : ∀ call ∈ calls, Made Inner text call := by
  by_cases hne : text = []
  · subst hne
    obtain ⟨-, rfl⟩ := h.of_nil
    simp
  · obtain ⟨parts, child, result, place, before, later, reach, finish, rfl⟩ := h.exists_finish hne
    refine List.forall_mem_append.mpr ⟨reach.made, ?_⟩
    cases finish with
    | ends => simp
    | fails step => exact fun call hcall => (step.made call hcall).of_takes reach.takes

end

end Course

end TreeQuery
