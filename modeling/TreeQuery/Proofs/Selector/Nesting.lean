import TreeQuery.Proofs.Selector.Building
import TreeQuery.Proofs.Selector.Levels

/-!
# How deep a text and its selector are nested

`not` and `has` put what their parameter denotes one level below them, and the parameter stands in one more
pair of parentheses. So a selector is nested no deeper than the parentheses of its text, and of those no
more than 32 are open at once, as reading parameters sees to it. Conjunctions and further parts put nothing
below anything.

Main statement: compiling comes to an end. It reads compounds that use up some of the text each, compiles
parameters that are shorter than the text they stand in, never more than 32 levels down, and makes a
selector that is nested no deeper than the text.
-/

namespace TreeQuery

mutual

/-- The number of `not` and `has` that are nested in a predicate. -/
def Predicate.nesting : Predicate → Nat
  | .always => 0
  | .tag _ => 0
  | .id _ => 0
  | .hasClass _ => 0
  | .all tests => nestingOfTests tests
  | .not test => test.nesting + 1
  | .has selector => selector.nesting + 1
  | .first _ => 0
  | .custom _ => 0
termination_by structural predicate => predicate

/-- The number that are nested in a list of tests. -/
def nestingOfTests : List Predicate → Nat
  | [] => 0
  | test :: rest => max test.nesting (nestingOfTests rest)
termination_by structural tests => tests

/-- The number that are nested in a part. -/
def Part.nesting : Part → Nat
  | ⟨_, predicate⟩ => predicate.nesting
termination_by structural part => part

/-- The number that are nested in a list of parts. -/
def nestingOfParts : List Part → Nat
  | [] => 0
  | part :: rest => max part.nesting (nestingOfParts rest)
termination_by structural parts => parts

/-- The number of `not` and `has` that are nested in a selector. -/
def Selector.nesting : Selector → Nat
  | ⟨head, rest⟩ => max head.nesting (nestingOfParts rest)
termination_by structural selector => selector

end

/-- Tests are nested no deeper than a limit when none of them is. -/
theorem nestingOfTests_le_iff {tests : List Predicate} {limit : Nat} :
    nestingOfTests tests ≤ limit ↔ ∀ test ∈ tests, test.nesting ≤ limit := by
  induction tests with
  | nil => simp [nestingOfTests]
  | cons test rest ih => rw [nestingOfTests, max_le_iff, ih, List.forall_mem_cons]

/-- Parts are nested no deeper than a limit when none of their predicates is. -/
theorem nestingOfParts_le_iff {parts : List Part} {limit : Nat} :
    nestingOfParts parts ≤ limit ↔ ∀ part ∈ parts, part.predicate.nesting ≤ limit := by
  induction parts with
  | nil => simp [nestingOfParts]
  | cons part rest ih =>
    cases part
    rw [nestingOfParts, max_le_iff, ih, List.forall_mem_cons, Part.nesting]

/-- A selector is nested no deeper than a limit when no predicate of its parts is. -/
theorem Selector.nesting_le_iff {selector : Selector} {limit : Nat} :
    selector.nesting ≤ limit ↔ ∀ part ∈ selector.parts, part.predicate.nesting ≤ limit := by
  obtain ⟨head, rest⟩ := selector
  have hparts : nestingOfParts (head :: rest) ≤ limit ↔ _ := nestingOfParts_le_iff
  rwa [nestingOfParts] at hparts

/-- The most parentheses that are open at once in a text, wherever it is cut. -/
def Text.nesting (text : List Char) : Nat :=
  (text.inits.map fun front => front.count '(' - front.count ')').foldr max 0

namespace Grammar

/-- At most so many parentheses are open at once as a text is nested, and no fewer would do. -/
theorem atMost_iff_nesting_le {limit : Nat} {text : List Char} :
    AtMost limit text ↔ Text.nesting text ≤ limit := by
  have hmax : ∀ counts : List Nat, counts.foldr max 0 ≤ limit ↔ ∀ count ∈ counts, count ≤ limit := by
    intro counts
    induction counts with
    | nil => simp
    | cons count counts ih => rw [List.foldr_cons, max_le_iff, ih, List.forall_mem_cons]
  rw [Text.nesting, hmax, List.forall_mem_map]
  simp only [AtMost, List.mem_inits, Nat.sub_le_iff_le_add, Nat.add_comm]

/-- Every way of building nests a predicate no deeper than a limit, if what parameters denote stays below
that limit. -/
theorem builds_nesting_le {Inner : List Char → Selector → Prop} {limit : Nat}
    (hinner : ∀ raw selector, Inner raw selector → selector.nesting < limit) :
    Builds Inner fun predicate => predicate.nesting ≤ limit where
  always := Nat.zero_le limit
  tag _ := Nat.zero_le limit
  id _ := Nat.zero_le limit
  hasClass _ := Nat.zero_le limit
  first := Nat.zero_le limit
  not {_ inner} h := by
    have hlt := hinner _ _ h
    rw [Selector.simple, Selector.nesting, nestingOfParts, Nat.max_zero, Part.nesting] at hlt
    exact hlt
  has h := hinner _ _ h
  all h := nestingOfTests_le_iff.mpr h

/-- A selector is nested no deeper than the parentheses of a text that denotes it. -/
theorem Denotes.nesting_le {limit : Nat} {text : List Char} {selector : Selector} (h : Denotes text selector)
    (hlimit : AtMost limit text) : selector.nesting ≤ limit := by
  -- what a parameter denotes is nested less deep, as one parenthesis fewer is open in it
  induction limit using Nat.strong_induction_on generalizing text selector with
  | _ limit ih =>
    obtain ⟨compounds⟩ := h
    have hinner : Compounds (fun _ inner => inner.nesting < limit) (Text.trimChars text) selector.parts := by
      refine compounds.imp fun raw inner hraw hdenotes => ?_
      obtain ⟨fewer, rfl, hfewer⟩ := hlimit.trim.parameter hraw
      exact Nat.lt_succ_of_le (ih fewer (Nat.lt_succ_self fewer) hdenotes hfewer)
    exact Selector.nesting_le_iff.mpr (hinner.builds (builds_nesting_le fun _ _ h => h))

end Grammar

namespace Course

open Grammar

/-- A course that does not fail has a balanced text. -/
theorem Compounds.balanced {functions : Functions}
    {Inner : String → Except Selector.Error Selector → List Call → Prop} {whole text : List Char}
    {parts : List Part} {calls : List Call}
    (h : Compounds functions Inner whole text (.ok parts) calls) : Balanced 32 text := by
  by_cases hne : text = []
  · rw [hne]
    exact balanced_of_forall (by simp) 32
  · obtain ⟨parts, child, result, place, before, later, reach, finish, rfl⟩ := h.exists_finish hne
    obtain ⟨piece, rfl, hpiece⟩ := reach.exists_piece
    cases finish with
    | ends hends => exact hpiece.append (balanced_of_isAsciiBlank (List.dropWhile_eq_nil_iff.mp hends) 32)

/-- A compound that does not fail takes something from a text that is not empty. -/
theorem Compound.exists_piece {functions : Functions}
    {Inner : String → Except Selector.Error Selector → List Call → Prop} {whole text rest : List Char}
    {part : Part} {calls : List Call} (hne : text ≠ [])
    (h : Compound functions Inner whole text (.ok (part, rest)) calls) :
    ∃ piece, piece ≠ [] ∧ text = piece ++ rest := by
  have hlt := h.length_lt hne
  obtain ⟨child, result, place, before, later, found, opening, stop, hfound, -⟩ := h.exists_opening
  cases stop with
  | fails step => cases hfound
  | ends hends =>
    cases hfound
    obtain ⟨piece, rfl, -⟩ := opening.takes
    refine ⟨piece, ?_, rfl⟩
    rintro rfl
    exact Nat.lt_irrefl _ hlt

end Course

/-- A compound that compiles is read from some bytes of the text, and the rest of the text is left behind
them. -/
theorem Functions.exists_piece_of_compileCompound (functions : Functions) (levels : Nat) {input : Remaining}
    (hne : input.text ≠ []) {part : Part}
    (h : (functions.compileCompound (functions.compileWithin levels) (Compound.read input).1).outcome.1 =
      .ok part) :
    ∃ piece, piece ≠ [] ∧ input.text = piece ++ (Compound.read input).2.text ∧
      (Compound.read input).2.position = input.position + Text.byteLength piece := by
  obtain ⟨position, text⟩ := input
  -- a text in which this one stands at its position
  have hbytes : ∀ count, Text.byteLength (List.replicate count ' ') = count := by
    intro count
    induction count with
    | zero => rfl
    | succ count ih =>
      have hblank : ' '.utf8Size = 1 := rfl
      rw [List.replicate_succ, Text.byteLength_cons, ih, hblank, Nat.add_comm]
  have hstands : Course.Stands (List.replicate position ' ' ++ text) position text := by
    rw [Course.Stands, Text.byteLength_append, hbytes]
  obtain ⟨outcome, calls, compound⟩ := Course.exists_compound functions _
    (Course.exists_compilesWithin functions levels) text
  obtain ⟨hcomes, hleaves⟩ := compound.comes (fun _ _ _ inner => functions.comes_compileWithin inner) hstands
  rw [hcomes.outcome] at h
  cases outcome with
  | error error => cases h
  | ok found =>
    obtain ⟨found, rest⟩ := found
    obtain ⟨hrest, hplace⟩ := hleaves found rest rfl
    obtain ⟨piece, hpiece, rfl⟩ := compound.exists_piece hne
    have hbehind := hstands.append
    rw [Course.Stands] at hplace hbehind
    have hposition : (Compound.read ⟨position, piece ++ rest⟩).2.position = position + Text.byteLength piece := by
      omega
    exact ⟨piece, hpiece, by rw [hrest], hposition⟩

/-- The parentheses of a text that compiles are balanced, and no more than 32 are open at once. -/
theorem balanced_of_compiled {text : String} {selector : Selector} (h : compiled text = .ok selector) :
    Grammar.Balanced 32 text.toList := by
  obtain ⟨before, behind, htext, hbefore, hbehind⟩ := Text.trimChars_append text.toList
  obtain ⟨calls, hcourse⟩ := Course.exists_compilesIn_of_compiled h (by decide : 32 < 33)
  generalize hok : Except.ok selector = outcome at hcourse
  cases (hcourse : Course.Compiles _ _ _ _ _) with
  | blank => cases hok
  | fail => cases hok
  | selector _ compounds =>
    rw [htext]
    exact (Grammar.balanced_of_isBlank hbefore 32).append
      (compounds.balanced.append (Grammar.balanced_of_isBlank hbehind 32))

/-- Compiling a text comes to an end. Every compound that compiles uses up some bytes of what is left. Every
parameter that a function is called with on the way is shorter than the text. Whatever would be compiled
more than 32 levels below the text makes no difference, and no nesting without end is reported. A selector
has no more `not` and `has` nested in it than parentheses are in the text, and they are 32 at most. -/
theorem compiling_terminates (text : String) :
    (∀ levels input part, input.text ≠ [] →
      (Functions.empty.compileCompound (Functions.empty.compileWithin levels)
        (Compound.read input).1).outcome.1 = .ok part →
      ∃ piece, piece ≠ [] ∧ input.text = piece ++ (Compound.read input).2.text ∧
        (Compound.read input).2.position = input.position + Text.byteLength piece) ∧
    (∀ call ∈ (Functions.empty.compile (.text text)).outcome.2, ∀ raw, call.parameter = some raw →
      Text.byteLength raw.toList < Text.byteLength text.toList) ∧
    (∀ levels compile, 32 < levels →
      Functions.empty.level^[levels] compile text = Functions.empty.compile (.text text)) ∧
    compiled text ≠ .error .endlessNesting ∧
    ∀ selector, compiled text = .ok selector →
      selector.nesting ≤ Text.nesting text.toList ∧ Text.nesting text.toList ≤ 32 := by
  obtain ⟨outcome, calls, hcourse⟩ := Course.exists_compilesIn text
  have hcomes : (Functions.empty.compile (.text text)).Comes outcome calls :=
    (hcourse 33 (by decide)).comes (by decide)
  refine ⟨fun levels input part hne h => Functions.empty.exists_piece_of_compileCompound levels hne h, ?_, ?_, ?_,
    ?_⟩
  · intro call hcall raw hraw
    rw [hcomes.outcome] at hcall
    obtain ⟨inside, whole, rfl, hhanded, hle⟩ := (hcourse 33 (by decide)).exists_handed hcall hraw
    rw [String.toList_ofList]
    exact hhanded.byteLength_lt.trans_le hle
  · intro levels compile hlt
    exact ((hcourse levels hlt).comes_iterate compile).unique hcomes
  · intro hendless
    obtain ⟨calls, hcourse⟩ := Course.exists_compilesIn_of_compiled hendless (by decide : 32 < 33)
    exact hcourse.ne_endlessNesting rfl
  · intro selector hcompiled
    have hnested := (balanced_of_compiled hcompiled).nested
    have hdenotes := compiled_eq_ok_iff.mp hcompiled
    exact ⟨hdenotes.nesting_le (Grammar.atMost_iff_nesting_le.mpr (Nat.le_refl _)),
      Grammar.atMost_iff_nesting_le.mp hnested⟩

example : (compiled ":not(a:has(b c:not(d))) e").map Selector.nesting = .ok 3 := by cbv

end TreeQuery
