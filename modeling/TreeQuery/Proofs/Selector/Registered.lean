import TreeQuery.Proofs.Selector.Levels

/-!
# Registered functions

Registered functions stand in front of the built-in ones at every level of a compilation, since whoever
follows the recipe of a factory compiles with the same functions again. A text mentions a function where it
has the name as a maximal identifier behind a `:`. Between the parentheses of a parameter nothing is
mentioned that the whole text does not mention, so functions that are not mentioned make no difference on
any level.

Main statement: a text that mentions none of the registered functions compiles as it does without them, and
makes the same calls; and every call of a compilation follows the recipe of the registered factory of its
name, or of the built-in one where none is registered.
-/

namespace TreeQuery

namespace Course

open Grammar

/-- A text has a name as a maximal identifier behind a `:`, inside of parentheses or outside. -/
def Mentions (text name : List Char) : Prop :=
  ∃ front rest, text = front ++ ':' :: (name ++ rest) ∧ Name name rest

/-- The names that a text mentions have the same factories among two sets of functions. -/
def Agree (functions other : Functions) (text : List Char) : Prop :=
  ∀ name, Mentions text name → functions.resolve? (.ofList name) = other.resolve? (.ofList name)

/-- What the end of a text mentions, the text mentions. -/
theorem Mentions.append_left {text name : List Char} (h : Mentions text name) (front : List Char) :
    Mentions (front ++ text) name := by
  obtain ⟨before, rest, rfl, hname⟩ := h
  exact ⟨front ++ before, rest, (List.append_assoc _ _ _).symm, hname⟩

/-- What a text mentions, it mentions in front of anything that no identifier goes on with. -/
theorem Mentions.append_right {text name : List Char} (h : Mentions text name) {more : List Char}
    (hmore : Apart more) : Mentions (text ++ more) name := by
  obtain ⟨before, rest, rfl, hname⟩ := h
  exact ⟨before, rest ++ more, by simp, hname.append fun _ => hmore⟩

/-- The name behind a `:` is mentioned. -/
theorem Mentions.here {name rest : List Char} (hname : Name name rest) :
    Mentions (':' :: (name ++ rest)) name := ⟨[], rest, rfl, hname⟩

/-- The identifiers behind the `:` of a text, of which some may be empty. -/
def mentioned : List Char → List (List Char)
  | [] => []
  | c :: rest =>
    if c = ':' then rest.takeWhile Text.isIdentifierChar :: mentioned rest else mentioned rest

/-- What a text mentions can be read off it. -/
theorem mem_mentioned {text name : List Char} (h : Mentions text name) : name ∈ mentioned text := by
  obtain ⟨front, rest, rfl, hname⟩ := h
  induction front with
  | nil => simp [mentioned, hname.takeWhile_eq]
  | cons c front ih =>
    simp only [List.cons_append, mentioned]
    split
    · exact List.mem_cons_of_mem _ ih
    · exact ih

namespace Agree

variable {functions other : Functions} {text : List Char}

/-- Functions that agree about a text agree about what is left of it. -/
theorem of_takes {rest : List Char} (h : Agree functions other text) (htakes : Takes text rest) :
    Agree functions other rest := by
  obtain ⟨piece, rfl, -⟩ := htakes
  exact fun name hname => h name (hname.append_left piece)

/-- Functions that agree about a text agree about its parameters. -/
theorem parameter {raw : List Char} (h : Agree functions other text) (hraw : Grammar.Parameter raw text) :
    Agree functions other raw := by
  obtain ⟨-, rest, piece, rfl, -⟩ := hraw
  have hclose : Apart (')' :: rest) := by
    intro c hc
    cases hc
    decide
  intro name hname
  exact h name (((hname.append_right hclose).append_left ['(']).append_left piece)

/-- Functions that agree about a text agree about it without the blanks around it. -/
theorem trim (h : Agree functions other text) : Agree functions other (Text.trimChars text) := by
  obtain ⟨before, behind, htext, -, hbehind⟩ := Text.trimChars_append text
  have hblank : Apart behind := by
    intro c hc
    have hc := hbehind c (List.mem_of_mem_head? hc)
    refine ⟨?_, ne_of_class hc (by decide)⟩
    by_contra hname
    rw [Bool.not_eq_false] at hname
    rw [(plain_of_isIdentifierChar hname).2] at hc
    cases hc
  intro name hname
  apply h name
  rw [htext]
  exact (hname.append_right hblank).append_left before

/-- Where no registered function is mentioned the functions agree with the built-in ones. -/
theorem of_unregistered
    (h : ∀ name, Mentions text name → functions.overlay.lookup (.ofList name) = none) :
    Agree .empty functions text := by
  intro name hname
  simp only [Functions.resolve?, h name hname, Functions.empty, List.lookup_nil]

end Agree

section

variable {functions other : Functions} {Inner : String → Except Selector.Error Selector → List Call → Prop}
variable {whole : List Char}

/-- A component comes to the same with functions that agree about the text. -/
theorem Step.agree {text : List Char} {earlier : Option Predicate}
    {outcome : Except Selector.Error (Predicate × List Char)} {calls : List Call}
    (h : Step functions Inner whole text earlier outcome calls) (hagree : Agree functions other text) :
    Step other Inner whole text earlier outcome calls := by
  cases h with
  | id hname => exact .id hname
  | hasClass hname => exact .hasClass hname
  | nameless hmark hrest => exact .nameless hmark hrest
  | unknown hname hresolve =>
    exact .unknown hname ((hagree _ (.here hname)).symm.trans hresolve)
  | parentheses hname hresolve parameter =>
    exact .parentheses hname ((hagree _ (.here hname)).symm.trans hresolve) parameter
  | call hname hresolve parameter follows =>
    exact .call hname ((hagree _ (.here hname)).symm.trans hresolve) parameter follows
  | unexpected hmark hends => exact .unexpected hmark hends

/-- Components that do not fail come to the same with functions that agree about the text. -/
theorem Advance.agree {text place : List Char} {earlier result : Option Predicate} {calls : List Call}
    (h : Advance functions Inner whole text earlier result place calls)
    (hagree : Agree functions other text) : Advance other Inner whole text earlier result place calls := by
  induction h with
  | here place earlier => exact .here place earlier
  | step first others ih => exact .step (first.agree hagree) (ih (hagree.of_takes first.takes))

/-- A compound up to a place in it comes to the same with functions that agree about the text. -/
theorem Opening.agree {text place : List Char} {child : Bool} {result : Option Predicate}
    {calls : List Call} (h : Opening functions Inner whole text child result place calls)
    (hagree : Agree functions other text) : Opening other Inner whole text child result place calls := by
  obtain ⟨body, earlier, rest, mark, tag, advance⟩ := h
  exact ⟨body, earlier, rest, mark, tag, advance.agree (hagree.of_takes (mark.takes tag))⟩

/-- A course up to a place is the same with functions that agree about the text. -/
theorem Reach.agree {text place : List Char} {parts : List Part} {child : Bool}
    {result : Option Predicate} {calls : List Call}
    (h : Reach functions Inner whole text parts child result place calls)
    (hagree : Agree functions other text) : Reach other Inner whole text parts child result place calls := by
  induction h with
  | opening hne opening => exact .opening hne (opening.agree hagree)
  | more hne first hends others ih =>
    exact .more hne (first.agree hagree) hends (ih (hagree.of_takes first.takes))

/-- A course is the same with functions that agree about the text. -/
theorem Compounds.agree {text : List Char} {outcome : Except Selector.Error (List Part)}
    {calls : List Call} (h : Compounds functions Inner whole text outcome calls)
    (hagree : Agree functions other text) : Compounds other Inner whole text outcome calls := by
  by_cases hne : text = []
  · subst hne
    obtain ⟨rfl, rfl⟩ := h.of_nil
    exact .done
  · obtain ⟨parts, child, result, place, before, later, reach, finish, rfl⟩ := h.exists_finish hne
    refine (reach.agree hagree).compounds ?_
    cases finish with
    | ends hends => exact .ends hends
    | fails step => exact .fails (step.agree (hagree.of_takes reach.takes))

/-- A text comes to the same with functions that agree about it, if its parameters do. -/
theorem Compiles.agree {text : String} {outcome : Except Selector.Error Selector} {calls : List Call}
    (h : Compiles functions Inner text outcome calls) (hagree : Agree functions other text.toList) :
    Compiles other Inner text outcome calls := by
  cases h with
  | blank hblank => exact .blank hblank
  | fail hblank compounds => exact .fail hblank (compounds.agree hagree.trim)
  | selector hblank compounds => exact .selector hblank (compounds.agree hagree.trim)

/-- On any number of levels a text comes to the same with functions that agree with the built-in ones about
it. -/
theorem compilesWithin_agree {levels : Nat} {text : String} {outcome : Except Selector.Error Selector}
    {calls : List Call} (h : CompilesWithin .empty levels text outcome calls)
    (hagree : Agree .empty functions text.toList) :
    CompilesWithin functions levels text outcome calls := by
  induction levels generalizing text outcome calls with
  | zero => exact h
  | succ levels ih =>
    -- first the parameters come to what they do with the functions, then the text itself does
    have hinner : Compiles .empty (CompilesWithin functions levels) text outcome calls := by
      refine Compiles.imp h fun raw found calls hraw _ inner => ih inner ?_
      rw [String.toList_ofList]
      exact hagree.trim.parameter hraw.toParameter
    exact hinner.agree hagree

section

-- what is true of the calls for every component, and of calls behind one another
variable {P : List Call → Prop} (hnil : P []) (happend : ∀ {first later}, P first → P later → P (first ++ later))
variable (hstep : ∀ {text earlier outcome calls}, Step functions Inner whole text earlier outcome calls → P calls)
include hnil happend hstep

/-- The calls up to the end of a compound are those for its components. -/
theorem Steps.calls {text : List Char} {earlier : Option Predicate}
    {outcome : Except Selector.Error (Option Predicate × List Char)} {calls : List Call}
    (h : Steps functions Inner whole text earlier outcome calls) : P calls := by
  induction h with
  | done hends => exact hnil
  | fail first => exact hstep first
  | more first others ih => exact happend (hstep first) ih

/-- The calls for a compound are those for its components. -/
theorem Compound.calls {text : List Char} {outcome : Except Selector.Error (Part × List Char)}
    {calls : List Call} (h : Compound functions Inner whole text outcome calls) : P calls := by
  have hbody : ∀ {text outcome}, Body functions Inner whole text outcome calls → P calls := by
    intro text outcome body
    cases body with
    | any steps => exact steps.calls hnil happend hstep
    | tag hname steps => exact steps.calls hnil happend hstep
    | bare hbare steps => exact steps.calls hnil happend hstep
  cases h with
  | child body => exact hbody body
  | plain hplain body => exact hbody body

/-- The calls on a course are those for the components of its compounds. -/
theorem Compounds.calls {text : List Char} {outcome : Except Selector.Error (List Part)}
    {calls : List Call} (h : Compounds functions Inner whole text outcome calls) : P calls := by
  induction h with
  | done => exact hnil
  | fail hne first => exact first.calls hnil happend hstep
  | more hne first others ih => exact happend (first.calls hnil happend hstep) ih

end

end

/-- Calls of texts that are compiled with so many levels below them: each is one of the registered factory
of its name, or of the built-in one if none is registered. Behind it stand the calls that are made when the
recipe of this factory is followed with the same functions, and they are such calls one level below. -/
inductive Served (functions : Functions) : Nat → List Call → Prop
  | done (levels : Nat) : Served functions levels []
  | registered {levels : Nat} {name : String} {value : Option String} {earlier : Option Predicate}
      {factory : Factory} {inner later : List Call} (hlookup : functions.overlay.lookup name = some factory)
      (hinner : ((factory name value earlier).follow (functions.compileWithin levels)).outcome.2 = inner)
      (below : Served functions levels inner) (behind : Served functions (levels + 1) later) :
      Served functions (levels + 1) (⟨.registered, name, value, earlier⟩ :: (inner ++ later))
  | builtin {levels : Nat} {name : String} {value : Option String} {earlier : Option Predicate}
      {builtin : Builtin} {inner later : List Call} (hlookup : functions.overlay.lookup name = none)
      (hname : Builtin.ofName? name = some builtin)
      (hinner : ((builtin.factory name value earlier).follow (functions.compileWithin levels)).outcome.2 = inner)
      (below : Served functions levels inner) (behind : Served functions (levels + 1) later) :
      Served functions (levels + 1) (⟨.builtin, name, value, earlier⟩ :: (inner ++ later))

section

variable {functions : Functions} {levels : Nat}

/-- Served calls behind one another are served. -/
theorem Served.append {first later : List Call} (hfirst : Served functions levels first)
    (hlater : Served functions levels later) : Served functions levels (first ++ later) := by
  induction hfirst with
  | done => exact hlater
  | registered hlookup hinner below _ _ ih =>
    rw [List.cons_append, List.append_assoc]
    exact .registered hlookup hinner below (ih hlater)
  | builtin hlookup hname hinner below _ _ ih =>
    rw [List.cons_append, List.append_assoc]
    exact .builtin hlookup hname hinner below (ih hlater)

/-- A call of the factory that its name has is served if the calls for its recipe are. -/
theorem Served.call {name : String} {value : Option String} {earlier : Option Predicate} {origin : Origin}
    {factory : Factory} {inner : List Call} (hresolve : functions.resolve? name = some (origin, factory))
    (hinner : ((factory name value earlier).follow (functions.compileWithin levels)).outcome.2 = inner)
    (below : Served functions levels inner) :
    Served functions (levels + 1) (⟨origin, name, value, earlier⟩ :: inner) := by
  rw [← List.append_nil inner]
  simp only [Functions.resolve?] at hresolve
  cases hlookup : functions.overlay.lookup name with
  | some registered =>
    rw [hlookup] at hresolve
    cases hresolve
    exact .registered hlookup hinner below (.done _)
  | none =>
    rw [hlookup] at hresolve
    obtain ⟨builtin, hname, hfound⟩ := Option.map_eq_some_iff.mp hresolve
    cases hfound
    exact .builtin hlookup hname hinner below (.done _)

/-- Where nothing is registered all served calls are of built-in functions. -/
theorem Served.origin_eq {calls : List Call} (h : Served .empty levels calls) :
    ∀ call ∈ calls, call.origin = .builtin := by
  induction h with
  | done => simp
  | registered hlookup => cases hlookup
  | builtin hlookup hname hinner _ _ hbelow hbehind =>
    exact List.forall_mem_cons.mpr ⟨rfl, List.forall_mem_append.mpr ⟨hbelow, hbehind⟩⟩

/-- On any number of levels the calls on the course of a text are served. -/
theorem served_of_compilesWithin {text : String} {outcome : Except Selector.Error Selector}
    {calls : List Call} (h : CompilesWithin functions levels text outcome calls) :
    Served functions levels calls := by
  induction levels generalizing text outcome calls with
  | zero =>
    rw [h.2]
    exact .done 0
  | succ levels ih =>
    have hfollows : ∀ {recipe result calls}, Follows (CompilesWithin functions levels) recipe result calls →
        Served functions levels calls := by
      intro recipe result calls follows
      induction follows with
      | done => exact .done levels
      | fail => exact .done levels
      | compile inner _ hlater => exact (ih inner).append hlater
    have hstep : ∀ {whole text earlier outcome calls},
        Step functions (CompilesWithin functions levels) whole text earlier outcome calls →
          Served functions (levels + 1) calls := by
      intro whole text earlier outcome calls step
      cases step with
      | id => exact .done _
      | hasClass => exact .done _
      | nameless => exact .done _
      | unknown => exact .done _
      | parentheses => exact .done _
      | unexpected => exact .done _
      | call hname hresolve parameter follows =>
        have hcomes := follows.comes fun _ _ _ inner => functions.comes_compileWithin inner
        exact .call hresolve (congrArg Prod.snd hcomes.outcome) (hfollows follows)
    cases (h : Compiles _ _ _ _ _) with
    | blank => exact .done _
    | fail hblank compounds => exact compounds.calls (.done _) .append hstep
    | selector hblank compounds => exact compounds.calls (.done _) .append hstep

end

end Course

/-- Registered functions that a text does not mention make no difference to it: it compiles to the same
selector or error as with the built-in functions alone, and makes the same calls, all of built-in functions.
Whatever a text mentions, every call on every level of its compilation is one of the registered factory of
its name, or of the built-in one if none is registered. -/
theorem registered_if_mentioned (functions : Functions) (text : String) :
    ((∀ name, Course.Mentions text.toList name → functions.overlay.lookup (.ofList name) = none) →
      (functions.compile (.text text)).outcome = (Functions.empty.compile (.text text)).outcome ∧
      ∀ call ∈ (functions.compile (.text text)).outcome.2, call.origin = .builtin) ∧
    Course.Served functions Functions.nestingLimit (functions.compile (.text text)).outcome.2 := by
  have hcourse : ∀ functions : Functions, Course.CompilesWithin functions Functions.nestingLimit text
      (functions.compile (.text text)).outcome.1 (functions.compile (.text text)).outcome.2 :=
    fun functions => functions.compilesWithin_outcome Functions.nestingLimit text
  refine ⟨fun hunregistered => ?_, Course.served_of_compilesWithin (hcourse functions)⟩
  have hagree := Course.Agree.of_unregistered hunregistered
  have hsame : (functions.compile (.text text)).outcome = (Functions.empty.compile (.text text)).outcome :=
    (functions.comes_compileWithin (Course.compilesWithin_agree (hcourse .empty) hagree)).outcome
  rw [hsame]
  exact ⟨rfl, (Course.served_of_compilesWithin (hcourse .empty)).origin_eq⟩

/-- Functions with a `not` of their own, which holds of everything. -/
def indulgent : Functions := Functions.empty.register "not" fun _ _ earlier => .done (.chain earlier .always)

/-- A text that goes without `not` compiles as it ever does, and what another one calls in the parameter of
its `has` is theirs where they have it. -/
theorem registered_if_mentioned_indulgent :
    (∀ name, Course.Mentions "ul:has(li:first)".toList name → indulgent.overlay.lookup (.ofList name) = none) ∧
      (indulgent.compile (.text "ul:has(li:first)")).outcome =
        (Functions.empty.compile (.text "ul:has(li:first)")).outcome ∧
      Course.Served indulgent Functions.nestingLimit
        (indulgent.compile (.text "ul:has(:not(li))")).outcome.2 := by
  have hunregistered : ∀ name, Course.Mentions "ul:has(li:first)".toList name →
      indulgent.overlay.lookup (.ofList name) = none := by
    intro name hname
    have hmentioned : Course.mentioned "ul:has(li:first)".toList = ["has".toList, "first".toList] := by decide
    have hmem := Course.mem_mentioned hname
    rw [hmentioned] at hmem
    simp only [List.mem_cons, List.not_mem_nil, or_false] at hmem
    rcases hmem with rfl | rfl <;> decide
  exact ⟨hunregistered, ((registered_if_mentioned indulgent _).1 hunregistered).1,
    (registered_if_mentioned indulgent _).2⟩

example : (indulgent.compile (.text "ul:has(:not(li))")).outcome.2.map Call.origin =
    [.builtin, .registered] := by cbv

end TreeQuery
