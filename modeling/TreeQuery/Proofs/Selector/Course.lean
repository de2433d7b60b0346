import TreeQuery.Proofs.Selector.Language
import TreeQuery.Selector.Compile

/-!
# The course of a compilation

What compiling a text comes to with any functions, and which calls it makes on its way, said without
reader, log or limit on the work. The relations go through a text from left to right. They say what a
piece of the text comes to, which rest it leaves, and which calls were made for it, in their order: the
call of a factory, then the calls for the texts that the factory has compiled. A piece that fails leaves
no rest, and nothing behind it is looked at.

What the texts come to that factories have compiled is left open here.

Main statement: every text comes to something, if the texts do that factories have compiled.
-/

namespace TreeQuery.Course

open Grammar

/-- The bytes of a text in front of a rest of it. -/
def offset (whole rest : List Char) : Nat := Text.byteLength whole - Text.byteLength rest

/-- What stands behind the name of a function: its parameter, where a blank one counts as none, and the
rest; or what is wrong with the parentheses, and the rest from the wrong one on. -/
inductive Parameter : List Char → Except (Fault × List Char) (Option String × List Char) → Prop
  | absent {text : List Char} (hopen : ∀ c ∈ text.head?, c ≠ '(') : Parameter text (.ok (none, text))
  | blank {raw rest : List Char} (hraw : Balanced 31 raw) (hblank : raw.all Text.isBlank = true) :
      Parameter ('(' :: (raw ++ ')' :: rest)) (.ok (none, rest))
  | present {raw rest : List Char} (hraw : Balanced 31 raw) (hblank : raw.all Text.isBlank = false) :
      Parameter ('(' :: (raw ++ ')' :: rest)) (.ok (some (.ofList raw), rest))
  | unclosed {raw : List Char} (hraw : Open 1 raw) :
      Parameter ('(' :: raw) (.error (.unbalancedParentheses, '(' :: raw))
  | tooDeep {raw rest : List Char} (hraw : Open 1 raw) (hdeep : 1 + raw.count '(' = raw.count ')' + 32) :
      Parameter ('(' :: (raw ++ '(' :: rest)) (.error (.nestedTooDeeply, '(' :: rest))

section

variable (functions : Functions)
-- what the texts come to that factories have compiled, and the calls on the way
variable (Inner : String → Except Selector.Error Selector → List Call → Prop)

/-- What following a recipe comes to. -/
inductive Follows : Recipe → Except Selector.Error Predicate → List Call → Prop
  | done (predicate : Predicate) : Follows (.done predicate) (.ok predicate) []
  | fail (error : Selector.Error) : Follows (.fail error) (.error error) []
  | compile {text : String} {outcome : Except Selector.Error Selector}
      {next : Except Selector.Error Selector → Recipe} {result : Except Selector.Error Predicate}
      {calls later : List Call} (inner : Inner text outcome calls)
      (follows : Follows (next outcome) result later) : Follows (.compile text next) result (calls ++ later)

section

-- the text that positions are counted in
variable (whole : List Char)

/-- One component behind an earlier predicate: the predicate of both and the rest. The name of a function
is looked up before its parameter is read, and the parameter is read before the factory is called. -/
inductive Step : List Char → Option Predicate → Except Selector.Error (Predicate × List Char) →
    List Call → Prop
  | id {earlier : Option Predicate} {name rest : List Char} (hname : Name name rest) :
      Step ('#' :: (name ++ rest)) earlier (.ok (.chain earlier (.id (.ofList name)), rest)) []
  | hasClass {earlier : Option Predicate} {name rest : List Char} (hname : Name name rest) :
      Step ('.' :: (name ++ rest)) earlier (.ok (.chain earlier (.hasClass (.ofList name)), rest)) []
  | nameless {earlier : Option Predicate} {mark : Char} {rest : List Char} (hmark : mark ∈ marks)
      (hrest : ∀ c ∈ rest.head?, Text.isIdentifierChar c = false) :
      Step (mark :: rest) earlier (.error (.invalid (.missingIdentifier mark) (offset whole rest))) []
  | unknown {earlier : Option Predicate} {name rest : List Char} (hname : Name name rest)
      (hresolve : functions.resolve? (.ofList name) = none) :
      Step (':' :: (name ++ rest)) earlier (.error (.unknownFunction (.ofList name))) []
  | parentheses {earlier : Option Predicate} {name text place : List Char} {found : Origin × Factory}
      {fault : Fault} (hname : Name name text) (hresolve : functions.resolve? (.ofList name) = some found)
      (parameter : Parameter text (.error (fault, place))) :
      Step (':' :: (name ++ text)) earlier (.error (.invalid fault (offset whole place))) []
  | call {earlier : Option Predicate} {name text rest : List Char} {origin : Origin} {factory : Factory}
      {value : Option String} {result : Except Selector.Error Predicate} {calls : List Call}
      (hname : Name name text) (hresolve : functions.resolve? (.ofList name) = some (origin, factory))
      (parameter : Parameter text (.ok (value, rest)))
      (follows : Follows Inner (factory (.ofList name) value earlier) result calls) :
      Step (':' :: (name ++ text)) earlier (result.map fun predicate => (predicate, rest))
        (⟨origin, .ofList name, value, earlier⟩ :: calls)
  | unexpected {earlier : Option Predicate} {c : Char} {rest : List Char} (hmark : c ∉ marks)
      (hends : ¬ Ends (c :: rest)) :
      Step (c :: rest) earlier (.error (.invalid .unexpectedCharacter (offset whole (c :: rest)))) []

/-- The components up to the end of a compound behind an earlier predicate: the predicate of all of them,
if there is any, and the rest behind the blanks. -/
inductive Steps : List Char → Option Predicate → Except Selector.Error (Option Predicate × List Char) →
    List Call → Prop
  | done {text : List Char} {earlier : Option Predicate} (hends : Ends text) :
      Steps text earlier (.ok (earlier, text.dropWhile Text.isAsciiBlank)) []
  | fail {text : List Char} {earlier : Option Predicate} {error : Selector.Error} {calls : List Call}
      (first : Step functions Inner whole text earlier (.error error) calls) :
      Steps text earlier (.error error) calls
  | more {text middle : List Char} {earlier : Option Predicate} {predicate : Predicate}
      {outcome : Except Selector.Error (Option Predicate × List Char)} {calls later : List Call}
      (first : Step functions Inner whole text earlier (.ok (predicate, middle)) calls)
      (others : Steps middle (some predicate) outcome later) : Steps text earlier outcome (calls ++ later)

/-- A compound behind its `>`: an optional `*`, which counts for nothing, or tag, and components. -/
inductive Body : List Char → Except Selector.Error (Option Predicate × List Char) → List Call → Prop
  | any {text : List Char} {outcome : Except Selector.Error (Option Predicate × List Char)}
      {calls : List Call} (steps : Steps functions Inner whole text none outcome calls) :
      Body ('*' :: text) outcome calls
  | tag {name text : List Char} {outcome : Except Selector.Error (Option Predicate × List Char)}
      {calls : List Call} (hname : Name name text)
      (steps : Steps functions Inner whole text (some (.chain none (.ofTag (.ofList name)))) outcome calls) :
      Body (name ++ text) outcome calls
  | bare {text : List Char} {outcome : Except Selector.Error (Option Predicate × List Char)}
      {calls : List Call} (hbare : ∀ c ∈ text.head?, c ≠ '*' ∧ Text.isIdentifierChar c = false)
      (steps : Steps functions Inner whole text none outcome calls) : Body text outcome calls

/-- The part of a compound that begins with `>` or without. A compound of no component holds of every
node. -/
def part (child : Bool) (found : Option Predicate × List Char) : Part × List Char :=
  (⟨if child then some 1 else none, found.1.getD .always⟩, found.2)

/-- A compound, its part and the rest. -/
inductive Compound : List Char → Except Selector.Error (Part × List Char) → List Call → Prop
  | child {text : List Char} {outcome : Except Selector.Error (Option Predicate × List Char)}
      {calls : List Call}
      (body : Body functions Inner whole (text.dropWhile Text.isAsciiBlank) outcome calls) :
      Compound ('>' :: text) (outcome.map (part true)) calls
  | plain {text : List Char} {outcome : Except Selector.Error (Option Predicate × List Char)}
      {calls : List Call} (hplain : ∀ c ∈ text.head?, c ≠ '>')
      (body : Body functions Inner whole text outcome calls) : Compound text (outcome.map (part false)) calls

/-- Compounds up to the end of the text. -/
inductive Compounds : List Char → Except Selector.Error (List Part) → List Call → Prop
  | done : Compounds [] (.ok []) []
  | fail {text : List Char} {error : Selector.Error} {calls : List Call} (hne : text ≠ [])
      (first : Compound functions Inner whole text (.error error) calls) : Compounds text (.error error) calls
  | more {text rest : List Char} {part : Part} {outcome : Except Selector.Error (List Part)}
      {calls later : List Call} (hne : text ≠ [])
      (first : Compound functions Inner whole text (.ok (part, rest)) calls)
      (others : Compounds rest outcome later) :
      Compounds text (outcome.map fun parts => part :: parts) (calls ++ later)

end

/-- A text without the blanks around it. Positions are counted in what is left, and something has to be. -/
inductive Compiles : String → Except Selector.Error Selector → List Call → Prop
  | blank {text : String} (hblank : text.toList.all Text.isBlank = true) :
      Compiles text (.error (.invalid .empty 0)) []
  | fail {text : String} {error : Selector.Error} {calls : List Call}
      (hblank : text.toList.all Text.isBlank = false)
      (compounds : Compounds functions Inner (Text.trimChars text.toList) (Text.trimChars text.toList)
        (.error error) calls) : Compiles text (.error error) calls
  | selector {text : String} {selector : Selector} {calls : List Call}
      (hblank : text.toList.all Text.isBlank = false)
      (compounds : Compounds functions Inner (Text.trimChars text.toList) (Text.trimChars text.toList)
        (.ok selector.parts) calls) : Compiles text (.ok selector) calls

end

/-- What a text comes to where factories have texts compiled down to so many levels. -/
def CompilesWithin (functions : Functions) : Nat → String → Except Selector.Error Selector → List Call → Prop
  | 0 => fun _ result calls => result = .error .endlessNesting ∧ calls = []
  | levels + 1 => Compiles functions (CompilesWithin functions levels)

section

variable {functions : Functions} {Inner : String → Except Selector.Error Selector → List Call → Prop}
variable {whole : List Char}

/-- Behind the name of a function a parameter is read or a fault found. -/
theorem exists_parameter (text : List Char) : ∃ outcome, Parameter text outcome := by
  by_cases hopen : ∃ inside, text = '(' :: inside
  · obtain ⟨inside, rfl⟩ := hopen
    obtain ⟨raw, rest, rfl, hraw, rfl | ⟨behind, rfl, hdeep⟩ | ⟨behind, rfl, hequal⟩⟩ :=
      exists_open Nat.one_pos (by decide) inside
    · rw [List.append_nil]
      exact ⟨_, .unclosed hraw⟩
    · exact ⟨_, .tooDeep hraw hdeep⟩
    · have hbalanced := closes_one_iff.mp ⟨hraw, hequal⟩
      cases hblank : raw.all Text.isBlank with
      | true => exact ⟨_, .blank hbalanced hblank⟩
      | false => exact ⟨_, .present hbalanced hblank⟩
  · refine ⟨_, .absent fun c hc heq => ?_⟩
    obtain ⟨inside, rfl⟩ := List.head?_eq_some_iff.mp hc
    exact hopen ⟨inside, by rw [heq]⟩

/-- The rest behind a parameter is no longer than the text. -/
theorem Parameter.length_le {text rest : List Char} {value : Option String}
    (h : Parameter text (.ok (value, rest))) : rest.length ≤ text.length := by
  cases h with
  | absent => exact Nat.le_refl _
  | blank hraw hblank =>
    simp only [List.length_cons, List.length_append]
    omega
  | present hraw hblank =>
    simp only [List.length_cons, List.length_append]
    omega

/-- A text begins with an identifier or with something else. -/
theorem name_or_head (text : List Char) :
    (∃ name rest, text = name ++ rest ∧ Name name rest) ∨
      ∀ c ∈ text.head?, Text.isIdentifierChar c = false := by
  by_cases hname : text.takeWhile Text.isIdentifierChar = []
  · refine Or.inr fun c hc => ?_
    obtain ⟨rest, rfl⟩ := List.head?_eq_some_iff.mp hc
    simpa [List.takeWhile_cons] using hname
  · exact Or.inl ⟨_, _, List.takeWhile_append_dropWhile.symm, name_takeWhile hname⟩

section

variable (functions whole) (hinner : ∀ text, ∃ outcome calls, Inner text outcome calls)
include hinner

/-- Following a recipe comes to something. -/
theorem exists_follows (recipe : Recipe) : ∃ result calls, Follows Inner recipe result calls := by
  induction recipe with
  | done predicate => exact ⟨_, _, .done predicate⟩
  | fail error => exact ⟨_, _, .fail error⟩
  | compile text next ih =>
    obtain ⟨outcome, calls, houtcome⟩ := hinner text
    obtain ⟨result, later, hfollows⟩ := ih outcome
    exact ⟨result, calls ++ later, .compile houtcome hfollows⟩

/-- Where a compound does not end a component comes to something. -/
theorem exists_step {text : List Char} (hends : ¬ Ends text) (earlier : Option Predicate) :
    ∃ outcome calls, Step functions Inner whole text earlier outcome calls := by
  cases text with
  | nil => exact absurd (by simp [Ends]) hends
  | cons mark rest =>
    by_cases hmark : mark ∈ marks
    · rcases name_or_head rest with ⟨name, text, rfl, hname⟩ | hrest
      · simp only [marks, List.mem_cons, List.not_mem_nil, or_false] at hmark
        rcases hmark with rfl | rfl | rfl
        · exact ⟨_, _, .id hname⟩
        · exact ⟨_, _, .hasClass hname⟩
        · rcases hresolve : functions.resolve? (.ofList name) with _ | ⟨origin, factory⟩
          · exact ⟨_, _, .unknown hname hresolve⟩
          · obtain ⟨⟨fault, place⟩ | ⟨value, rest⟩, hparameter⟩ := exists_parameter text
            · exact ⟨_, _, .parentheses hname hresolve hparameter⟩
            · obtain ⟨result, calls, hfollows⟩ := exists_follows hinner (factory (.ofList name) value earlier)
              exact ⟨_, _, .call hname hresolve hparameter hfollows⟩
      · exact ⟨_, _, .nameless hmark hrest⟩
    · exact ⟨_, _, .unexpected hmark hends⟩

end

/-- Where a component comes to something a compound has not come to its end. -/
theorem Step.exists_mark {text : List Char} {earlier : Option Predicate}
    {outcome : Except Selector.Error (Predicate × List Char)} {calls : List Call}
    (h : Step functions Inner whole text earlier outcome calls) :
    ∃ mark tail, text = mark :: tail ∧ mark ≠ '>' ∧ Text.isAsciiBlank mark = false := by
  have hmarked : ∀ {mark : Char} {tail : List Char}, mark ∈ marks → ∃ mark' tail',
      mark :: tail = mark' :: tail' ∧ mark' ≠ '>' ∧ Text.isAsciiBlank mark' = false := by
    intro mark tail hmark
    obtain ⟨hchild, -, hblank, -⟩ := of_mem_marks hmark
    exact ⟨mark, tail, rfl, hchild, hblank⟩
  cases h with
  | id => exact hmarked (by decide)
  | hasClass => exact hmarked (by decide)
  | nameless hmark => exact hmarked hmark
  | unknown => exact hmarked (by decide)
  | parentheses => exact hmarked (by decide)
  | call => exact hmarked (by decide)
  | @unexpected _ c rest _ hends =>
    have hall : c ≠ '>' ∧ Text.isAsciiBlank c = false := by simpa [Ends, not_or] using hends
    exact ⟨c, rest, rfl, hall⟩

/-- A component that does not fail uses up some of the text. -/
theorem Step.length_lt {text rest : List Char} {earlier : Option Predicate} {predicate : Predicate}
    {calls : List Call} (h : Step functions Inner whole text earlier (.ok (predicate, rest)) calls) :
    rest.length < text.length := by
  generalize houtcome : Except.ok (predicate, rest) = outcome at h
  cases h with
  | id hname =>
    cases houtcome
    simp only [List.length_cons, List.length_append]
    omega
  | hasClass hname =>
    cases houtcome
    simp only [List.length_cons, List.length_append]
    omega
  | @call _ name text left _ _ _ result _ hname hresolve hparameter hfollows =>
    cases result with
    | error error => cases houtcome
    | ok value =>
      cases houtcome
      have hle := hparameter.length_le
      simp only [List.length_cons, List.length_append]
      omega
  | nameless => cases houtcome
  | unknown => cases houtcome
  | parentheses => cases houtcome
  | unexpected => cases houtcome

/-- Components leave no more than the text. -/
theorem Steps.length_le {text rest : List Char} {earlier result : Option Predicate} {calls : List Call}
    (h : Steps functions Inner whole text earlier (.ok (result, rest)) calls) :
    rest.length ≤ text.length := by
  generalize houtcome : Except.ok (result, rest) = outcome at h
  induction h with
  | done hends =>
    cases houtcome
    exact (List.dropWhile_sublist _).length_le
  | fail first => cases houtcome
  | more first others ih => exact Nat.le_trans (ih houtcome) (Nat.le_of_lt first.length_lt)

/-- What stands behind a child mark leaves no more than the text. -/
theorem Body.length_le {text rest : List Char} {result : Option Predicate} {calls : List Call}
    (h : Body functions Inner whole text (.ok (result, rest)) calls) : rest.length ≤ text.length := by
  cases h with
  | any steps => exact Nat.le_succ_of_le steps.length_le
  | tag hname steps =>
    have hle := steps.length_le
    rw [List.length_append]
    omega
  | bare hbare steps => exact steps.length_le

/-- A compound of a text that is not empty uses up some of it. -/
theorem Compound.length_lt {text rest : List Char} (hne : text ≠ []) {found : Part} {calls : List Call}
    (h : Compound functions Inner whole text (.ok (found, rest)) calls) : rest.length < text.length := by
  generalize houtcome : Except.ok (found, rest) = outcome at h
  cases h with
  | @child text outcome _ body =>
    cases outcome with
    | error error => cases houtcome
    | ok found =>
      cases houtcome
      have hskip := (List.dropWhile_sublist (l := text) Text.isAsciiBlank).length_le
      exact Nat.lt_succ_of_le (body.length_le.trans hskip)
  | @plain _ outcome _ hplain body =>
    cases outcome with
    | error error => cases houtcome
    | ok found =>
      cases houtcome
      cases body with
      | any steps => exact Nat.lt_succ_of_le steps.length_le
      | @tag name _ _ _ hname steps =>
        have hle := steps.length_le
        have hpos := List.length_pos_of_ne_nil hname.ne_nil
        rw [List.length_append]
        exact Nat.lt_of_le_of_lt hle (Nat.lt_add_of_pos_left hpos)
      | bare hbare steps =>
        cases steps with
        | done hends =>
          -- no child mark stands here, so the compound has ended before a blank
          obtain ⟨c, tail, rfl⟩ := List.exists_cons_of_ne_nil hne
          have hblank := (hends c rfl).resolve_left (hplain c rfl)
          rw [List.dropWhile_cons, if_pos hblank]
          exact Nat.lt_succ_of_le (List.dropWhile_sublist _).length_le
        | more first others => exact Nat.lt_of_le_of_lt others.length_le first.length_lt

section

variable (functions whole) (hinner : ∀ text, ∃ outcome calls, Inner text outcome calls)
include hinner

/-- Components up to the end of a compound come to something. -/
theorem exists_steps (text : List Char) (earlier : Option Predicate) :
    ∃ outcome calls, Steps functions Inner whole text earlier outcome calls := by
  -- a component that does not fail leaves a shorter text, one that fails ends the course
  induction hlength : text.length using Nat.strong_induction_on generalizing text earlier with
  | _ length ih =>
    by_cases hends : Ends text
    · exact ⟨_, _, .done hends⟩
    · obtain ⟨error | ⟨predicate, middle⟩, calls, first⟩ := exists_step functions whole hinner hends earlier
      · exact ⟨_, _, .fail first⟩
      · have hlt : middle.length < length := hlength ▸ first.length_lt
        obtain ⟨outcome, later, others⟩ := ih _ hlt middle (some predicate) rfl
        exact ⟨_, _, .more first others⟩

/-- What stands behind a child mark comes to something. -/
theorem exists_body (text : List Char) :
    ∃ outcome calls, Body functions Inner whole text outcome calls := by
  by_cases hstar : ∃ tail, text = '*' :: tail
  · obtain ⟨tail, rfl⟩ := hstar
    obtain ⟨outcome, calls, steps⟩ := exists_steps functions whole hinner tail none
    exact ⟨_, _, .any steps⟩
  · rcases name_or_head text with ⟨name, rest, rfl, hname⟩ | hbare
    · obtain ⟨outcome, calls, steps⟩ := exists_steps functions whole hinner rest
        (some (.chain none (.ofTag (.ofList name))))
      exact ⟨_, _, .tag hname steps⟩
    · obtain ⟨outcome, calls, steps⟩ := exists_steps functions whole hinner text none
      refine ⟨_, _, .bare (fun c hc => ⟨fun heq => ?_, hbare c hc⟩) steps⟩
      obtain ⟨tail, rfl⟩ := List.head?_eq_some_iff.mp hc
      exact hstar ⟨tail, by rw [heq]⟩

/-- A compound comes to something. -/
theorem exists_compound (text : List Char) :
    ∃ outcome calls, Compound functions Inner whole text outcome calls := by
  by_cases hchild : ∃ tail, text = '>' :: tail
  · obtain ⟨tail, rfl⟩ := hchild
    obtain ⟨outcome, calls, body⟩ := exists_body functions whole hinner (tail.dropWhile Text.isAsciiBlank)
    exact ⟨_, _, .child body⟩
  · obtain ⟨outcome, calls, body⟩ := exists_body functions whole hinner text
    refine ⟨_, _, .plain (fun c hc heq => ?_) body⟩
    obtain ⟨tail, rfl⟩ := List.head?_eq_some_iff.mp hc
    exact hchild ⟨tail, by rw [heq]⟩

/-- Compounds come to something. -/
theorem exists_compounds (text : List Char) :
    ∃ outcome calls, Compounds functions Inner whole text outcome calls := by
  induction hlength : text.length using Nat.strong_induction_on generalizing text with
  | _ length ih =>
    by_cases hne : text = []
    · subst hne
      exact ⟨_, _, .done⟩
    · obtain ⟨error | ⟨found, rest⟩, calls, first⟩ := exists_compound functions whole hinner text
      · exact ⟨_, _, .fail hne first⟩
      · have hlt : rest.length < length := hlength ▸ first.length_lt hne
        obtain ⟨outcome, later, others⟩ := ih _ hlt rest rfl
        exact ⟨_, _, .more hne first others⟩

end

/-- Compounds of a text that is not empty have a part at least. -/
theorem Compounds.exists_parts {text : List Char} (hne : text ≠ []) {parts : List Part} {calls : List Call}
    (h : Compounds functions Inner whole text (.ok parts) calls) :
    ∃ selector : Selector, parts = selector.parts := by
  generalize houtcome : Except.ok parts = outcome at h
  cases h with
  | done => exact absurd rfl hne
  | fail => cases houtcome
  | @more _ _ head outcome _ _ _ first others =>
    cases outcome with
    | error error => cases houtcome
    | ok rest =>
      cases houtcome
      exact ⟨⟨head, rest⟩, rfl⟩

/-- A text comes to something. -/
theorem exists_compiles (functions : Functions) (hinner : ∀ text, ∃ outcome calls, Inner text outcome calls)
    (text : String) : ∃ result calls, Compiles functions Inner text result calls := by
  cases hblank : text.toList.all Text.isBlank with
  | true => exact ⟨_, _, .blank hblank⟩
  | false =>
    have hne : Text.trimChars text.toList ≠ [] := by
      rw [ne_eq, Text.trimChars_eq_nil_iff, hblank]
      exact Bool.false_ne_true
    obtain ⟨error | parts, calls, compounds⟩ := exists_compounds functions
      (Text.trimChars text.toList) hinner (Text.trimChars text.toList)
    · exact ⟨_, _, .fail hblank compounds⟩
    · obtain ⟨selector, rfl⟩ := compounds.exists_parts hne
      exact ⟨_, _, .selector hblank compounds⟩

end

/-- A text comes to something, however many levels down factories may have texts compiled. -/
theorem exists_compilesWithin (functions : Functions) (levels : Nat) (text : String) :
    ∃ result calls, CompilesWithin functions levels text result calls := by
  induction levels generalizing text with
  | zero => exact ⟨_, _, rfl, rfl⟩
  | succ levels ih => exact exists_compiles functions ih text

end TreeQuery.Course
