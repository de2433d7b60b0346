import TreeQuery.Proofs.Selector.Levels

/-!
# The first point of failure

A text that fails at a character which cannot stand where it stands has been found in order up to there:
what stands in front of the character compiles by itself, and whatever stands behind it, the text fails at
the same place. For nothing looks further ahead than to the character itself, trimming leaves alone what
has no blank at its ends, and the blanks in front of the character separate compounds or follow a `>`.

A parameter that fails like that fails at a place in itself. So the statement is about texts that fail by
themselves: with the same error, whatever the error is that a parameter would fail with.

Main statements: a text fails by itself or as one of its parameters does; and what a text of an unexpected
character looks like in front of it.
-/

namespace TreeQuery

/-- A compilation that fails with another error where it fails. -/
def Compilation.failWith {α : Type} (error : Selector.Error) (compilation : Compilation α) : Compilation α :=
  tryCatch compilation fun _ => throw error

/-- Failing with another error makes no other difference. -/
theorem Compilation.Comes.failWith {α : Type} {compilation : Compilation α}
    {result : Except Selector.Error α} {calls : List Call} (h : compilation.Comes result calls)
    (error : Selector.Error) : (compilation.failWith error).Comes (result.mapError fun _ => error) calls := by
  intro log
  have hrun := h log
  simp only [Compilation.failWith, tryCatch, tryCatchThe, MonadExceptOf.tryCatch, ExceptT.tryCatch, ExceptT.run,
    ExceptT.mk, Bind.bind, StateT.bind] at hrun ⊢
  rw [hrun]
  cases result <;> rfl

/-- A text fails by itself: its error is the same whatever the error is that its parameters fail with. -/
def FailsItself (text : String) (error : Selector.Error) : Prop :=
  ∀ other, (Functions.empty.level (fun inner => (Functions.empty.compileText inner).failWith other)
    text).outcome.1 = .error error

namespace Text

/-- What stands behind a trimmed text is trimmed at its end alone. -/
theorem Trimmed.trimChars_append {piece : List Char} (h : Trimmed piece) (hne : piece ≠ []) (more : List Char) :
    trimChars (piece ++ more) = piece ++ more.rdropWhile isBlank := by
  have hdrop : (piece ++ more).dropWhile isBlank = piece ++ more := by
    obtain ⟨c, rest, rfl⟩ := List.exists_cons_of_ne_nil hne
    exact List.dropWhile_cons_of_neg (by simp [h.head c rfl])
  have htrim : trimChars (piece ++ more) = ((piece ++ more).dropWhile isBlank).rdropWhile isBlank := rfl
  rw [htrim, hdrop]
  clear hdrop htrim
  induction more using List.reverseRecOn with
  | nil =>
    rw [List.append_nil, List.rdropWhile_nil, List.append_nil, List.rdropWhile_eq_self_iff]
    intro hne
    simp [h.last _ (List.getLast?_eq_some_getLast hne)]
  | append_singleton more c ih =>
    rw [← List.append_assoc, List.rdropWhile_concat, List.rdropWhile_concat]
    split
    next => exact ih
    next => rw [List.append_assoc]

end Text

namespace Course

open Grammar

/-- What a parameter comes to that compiles. -/
def Sound (text : String) (outcome : Except Selector.Error Selector) (calls : List Call) : Prop :=
  (∃ selector, outcome = .ok selector) ∧ CompilesIn 33 text outcome calls

/-- A text whose error is not the one that its parameters fail with fails where all of them compile. -/
theorem exists_compiles_sound {text : String} {error other : Selector.Error} (hother : other ≠ error)
    (h : (Functions.empty.level (fun inner => (Functions.empty.compileText inner).failWith other)
      text).outcome.1 = .error error) : ∃ calls, Compiles .empty Sound text (.error error) calls := by
  -- the course of the text with the other error for that of a parameter
  have hinner : ∀ raw, ∃ outcome calls, ∃ found, CompilesIn 33 raw found calls ∧
      outcome = found.mapError fun _ => other := by
    intro raw
    obtain ⟨found, calls, hfound⟩ := exists_compilesIn raw
    exact ⟨_, calls, found, hfound 33 (by decide), rfl⟩
  obtain ⟨outcome, calls, hcourse⟩ := exists_compiles .empty hinner text
  have hcompile : ∀ raw outcome calls, (∃ found, CompilesIn 33 raw found calls ∧
      outcome = found.mapError fun _ => other) →
        ((Functions.empty.compileText raw).failWith other).Comes outcome calls := by
    intro raw outcome calls hfound
    obtain ⟨found, hfound, rfl⟩ := hfound
    exact (hfound.comes (by decide)).failWith other
  have houtcome := congrArg Prod.fst (hcourse.comes hcompile).outcome
  obtain rfl : Except.error error = outcome := h.symm.trans houtcome
  refine ⟨calls, hcourse.imp fun raw found calls hraw hfound inner => ?_⟩
  obtain ⟨result, hresult, rfl⟩ := inner
  cases result with
  | ok selector => exact ⟨⟨selector, rfl⟩, hresult⟩
  | error => exact absurd (Except.error.inj (hfound other rfl)).symm hother

/-- A text fails by itself when it fails where all of its parameters compile. -/
theorem failsItself_iff {text : String} {error : Selector.Error} :
    FailsItself text error ↔ ∃ calls, Compiles .empty Sound text (.error error) calls := by
  constructor
  · intro h
    by_cases hendless : error = .endlessNesting
    · exact exists_compiles_sound (by simp [hendless]) (h .complexSelector)
    · exact exists_compiles_sound (Ne.symm hendless) (h .endlessNesting)
  · intro h other
    obtain ⟨calls, hcourse⟩ := h
    have hcompile : ∀ raw outcome calls, Sound raw outcome calls →
        ((Functions.empty.compileText raw).failWith other).Comes outcome calls := by
      intro raw outcome calls hsound
      obtain ⟨⟨selector, rfl⟩, hcourse⟩ := hsound
      exact (hcourse.comes (by decide)).failWith other
    exact congrArg Prod.fst (hcourse.comes hcompile).outcome

/-- What a text comes to where parameters that compile come to what they compile to, it compiles to. -/
theorem compiled_of_compiles {text : String} {outcome : Except Selector.Error Selector} {calls : List Call}
    (h : Compiles .empty Sound text outcome calls) : compiled text = outcome := by
  have hcourse : CompilesIn 34 text outcome calls := h.imp fun _ _ _ _ _ inner => inner.2
  exact congrArg Prod.fst (hcourse.comes (by decide)).outcome

end Course

/-- A text that fails by itself fails. -/
theorem FailsItself.compiled {text : String} {error : Selector.Error} (h : FailsItself text error) :
    compiled text = .error error := by
  obtain ⟨calls, hcourse⟩ := Course.failsItself_iff.mp h
  exact Course.compiled_of_compiles hcourse

/-- A text fails by itself or as one of its parameters does. -/
theorem failsItself_or_parameter {text : String} {error : Selector.Error} (h : compiled text = .error error) :
    FailsItself text error ∨ ∃ raw, Course.Handed raw (Text.trimChars text.toList) ∧
      compiled (.ofList raw) = .error error := by
  by_cases hparameter : ∃ raw, Course.Handed raw (Text.trimChars text.toList) ∧
      compiled (.ofList raw) = .error error
  · exact Or.inr hparameter
  · obtain ⟨calls, hcourse⟩ := Course.exists_compilesIn_of_compiled h (by decide : 32 < 34)
    refine Or.inl (Course.failsItself_iff.mpr ⟨calls, Course.Compiles.imp hcourse
      fun raw found calls hraw hfound inner => ?_⟩)
    cases found with
    | ok selector => exact ⟨⟨selector, rfl⟩, inner⟩
    | error fault =>
      obtain rfl : fault = error := (Except.error.inj (hfound fault rfl)).symm
      have houtcome := congrArg Prod.fst (inner.comes (by decide)).outcome
      exact absurd ⟨raw, hraw, houtcome⟩ hparameter

namespace Course

open Grammar

/-- A text that fails by itself at an unexpected character has been found in order up to there. -/
theorem Compiles.unexpected {text : String} {position : Nat} {calls : List Call}
    (h : Compiles .empty Sound text (.error (.invalid .unexpectedCharacter position)) calls) :
    ∃ parts child result c rest before, Reach .empty Sound (Text.trimChars text.toList) (Text.trimChars text.toList)
      parts child result (c :: rest) before ∧ c ∉ marks ∧ ¬ Ends (c :: rest) ∧
        position = offset (Text.trimChars text.toList) (c :: rest) := by
  generalize houtcome : Except.error (Selector.Error.invalid .unexpectedCharacter position) = outcome at h
  cases h with
  | blank => cases houtcome
  | selector => cases houtcome
  | fail hblank compounds =>
    cases houtcome
    have hne : Text.trimChars text.toList ≠ [] := by
      rw [ne_eq, Text.trimChars_eq_nil_iff, hblank]
      exact Bool.false_ne_true
    obtain ⟨parts, child, result, place, before, later, reach, finish, -⟩ := compounds.exists_finish hne
    cases finish with
    | fails step =>
      rcases step.failure with failure | ⟨raw, later, hraw, ⟨selector, herror⟩, -⟩
      · cases failure with
        | parentheses hname parameter => cases parameter
        | unexpected hmark hends => exact ⟨parts, child, result, _, _, before, reach, hmark, hends, rfl⟩
      · cases herror

section

variable {text : String} (hne : Text.trimChars text.toList ≠ [])
include hne

/-- What is left of a text is no blank text. -/
theorem all_isBlank_eq_false : text.toList.all Text.isBlank = false := by
  rw [ne_eq, Text.trimChars_eq_nil_iff] at hne
  simpa using hne

/-- A text compiles if its course comes to its end. -/
theorem Compounds.exists_compiled {parts : List Part} {calls : List Call}
    (h : Compounds .empty Sound (Text.trimChars text.toList) (Text.trimChars text.toList) (.ok parts) calls) :
    ∃ selector, compiled text = .ok selector := by
  obtain ⟨selector, rfl⟩ := h.exists_parts hne
  exact ⟨selector, compiled_of_compiles (.selector (all_isBlank_eq_false hne) h)⟩

/-- A text fails as its course does. -/
theorem Compounds.compiled_error {error : Selector.Error} {calls : List Call}
    (h : Compounds .empty Sound (Text.trimChars text.toList) (Text.trimChars text.toList) (.error error) calls) :
    compiled text = .error error := compiled_of_compiles (.fail (all_isBlank_eq_false hne) h)

end

/-- A trimmed text with ASCII blanks behind it compiles if its course comes to its end. -/
theorem Compounds.exists_compiled_blanks {core blanks : List Char} {parts : List Part} {calls : List Call}
    (h : Compounds .empty Sound core core (.ok parts) calls) (hcore : Text.Trimmed core) (hne : core ≠ [])
    (hblanks : ∀ c ∈ blanks, Text.isAsciiBlank c = true) :
    ∃ selector, compiled (.ofList (core ++ blanks)) = .ok selector := by
  have hdropped : blanks.rdropWhile Text.isBlank = [] := List.rdropWhile_eq_nil_iff.mpr fun c hc =>
    of_isAsciiBlank (by decide) (hblanks c hc)
  have htrim : Text.trimChars (String.ofList (core ++ blanks)).toList = core := by
    rw [String.toList_ofList, hcore.trimChars_append hne, hdropped, List.append_nil]
  rw [← htrim] at h
  exact h.exists_compiled (by rwa [htrim])

/-- A text fails at an unexpected character that a course comes to with anything behind the character. -/
theorem compiled_unexpected {front rest : List Char} {c : Char} {parts : List Part} {child : Bool}
    {result : Option Predicate} {calls : List Call}
    (hreach : ∀ whole behind, Reach .empty Sound whole (front ++ c :: behind) parts child result (c :: behind) calls)
    (hmark : c ∉ marks) (hends : ¬ Ends (c :: rest)) (htrimmed : Text.Trimmed (front ++ [c]))
    (behind : List Char) : compiled (.ofList (front ++ c :: behind)) =
      .error (.invalid .unexpectedCharacter (Text.byteLength front)) := by
  obtain ⟨left, htrim⟩ : ∃ left, Text.trimChars (String.ofList (front ++ c :: behind)).toList =
      front ++ c :: left := by
    refine ⟨behind.rdropWhile Text.isBlank, ?_⟩
    simpa using htrimmed.trimChars_append (by simp) behind
  have hends : ¬ Ends (c :: left) := fun h => hends ((begins_cons c rest left).ends h)
  have compounds := (hreach (front ++ c :: left) left).compounds (.fails (.unexpected hmark hends))
  rw [offset_append, ← htrim] at compounds
  exact compounds.compiled_error (by rw [htrim]; simp)

end Course

/-- Where a text without blanks around it fails by itself at an unexpected character, its position is that of
a character in the text. If anything stands in front of that, it compiles by itself. And if the character is
no blank, the text fails there in the same way whatever stands behind the character. -/
theorem exists_front_of_unexpected {text : String} {position : Nat} (htrim : Text.trim text = text)
    (hfails : FailsItself text (.invalid .unexpectedCharacter position)) :
    ∃ front c rest, text.toList = front ++ c :: rest ∧ Text.byteLength front = position ∧
      (position = 0 ∨ ∃ selector, compiled (.ofList front) = .ok selector) ∧
      (Text.isBlank c = false → ∀ behind, compiled (.ofList (front ++ c :: behind)) =
        .error (.invalid .unexpectedCharacter position)) := by
  have htrimmed := Text.trimmed_of_trim_eq htrim
  obtain ⟨calls, hcourse⟩ := Course.failsItself_iff.mp hfails
  obtain ⟨parts, child, result, c, rest, before, reach, hmark, hends, hposition⟩ := hcourse.unexpected
  rw [htrimmed.trimChars_eq] at reach hposition
  have hascii : ∀ c ∈ text.toList.head?, Text.isAsciiBlank c = false :=
    fun c hc => Text.isAsciiBlank_eq_false (htrimmed.head c hc)
  obtain ⟨core, blanks, htext, hcore, hblanks, hall, hself⟩ := reach.exists_core hascii
  have hfront : text.toList = (core ++ blanks) ++ c :: rest := by rw [htext, List.append_assoc]
  have hbytes : Text.byteLength (core ++ blanks) = position := by
    rw [hposition, hfront, Course.offset_append]
  have hhead : ∀ {front : List Char}, front ≠ [] → front <+: text.toList →
      ∀ d ∈ front.head?, Text.isBlank d = false := by
    intro front hne hprefix d hd
    obtain ⟨behind, hbehind⟩ := hprefix
    refine htrimmed.head d ?_
    rwa [← hbehind, List.head?_append_of_ne_nil _ hne]
  refine ⟨core ++ blanks, c, rest, hfront, hbytes, ?_, fun hc behind => ?_⟩
  · by_cases hnil : core = []
    · -- blanks in front of the character would be blanks in front of the text
      subst hnil
      obtain rfl := Course.eq_nil_of_head hblanks (htext ▸ hascii)
      exact Or.inl hbytes.symm
    · obtain ⟨parts, calls, compounds⟩ := hself hnil core
      have hcoreTrimmed : Text.Trimmed core := ⟨hhead hnil ⟨_, htext.symm⟩, hcore.last⟩
      exact Or.inr (compounds.exists_compiled_blanks hcoreTrimmed hnil hblanks)
  · have hpiece : Text.Trimmed (core ++ blanks ++ [c]) := by
      refine ⟨hhead (by simp) ⟨rest, by rw [hfront]; simp⟩, fun d hd => ?_⟩
      rw [List.getLast?_concat] at hd
      cases hd
      exact hc
    have hreach : ∀ whole behind, Course.Reach .empty Course.Sound whole (core ++ blanks ++ c :: behind) parts
        child result (c :: behind) before := by
      intro whole behind
      rw [List.append_assoc]
      exact hall whole behind
    rw [← hbytes]
    exact Course.compiled_unexpected hreach hmark hends hpiece behind

/-- An error can be told without the value that there might have been. -/
theorem eq_error_of_map_eq_error {outcome : Except Selector.Error Selector} {error : Selector.Error}
    (h : outcome.map (fun _ => ()) = .error error) : outcome = .error error := by
  cases outcome with
  | error fault => exact congrArg Except.error (Except.error.inj h)
  | ok selector => nomatch h

/-- A text that fails behind a call and in front of more. -/
theorem exists_front_of_bracket :
    Text.trim "ul > :not(a)[b" = "ul > :not(a)[b" ∧
      FailsItself "ul > :not(a)[b" (.invalid .unexpectedCharacter 12) ∧
      ∃ front c rest, "ul > :not(a)[b".toList = front ++ c :: rest ∧ Text.byteLength front = 12 ∧
        (12 = 0 ∨ ∃ selector, compiled (.ofList front) = .ok selector) ∧
        (Text.isBlank c = false → ∀ behind, compiled (.ofList (front ++ c :: behind)) =
          .error (.invalid .unexpectedCharacter 12)) := by
  have htrim : Text.trim "ul > :not(a)[b" = "ul > :not(a)[b" := by decide +kernel
  have hother : Selector.Error.complexSelector ≠ .invalid .unexpectedCharacter 12 := by decide
  have hfails : FailsItself "ul > :not(a)[b" (.invalid .unexpectedCharacter 12) := by
    refine Course.failsItself_iff.mpr (Course.exists_compiles_sound hother (eq_error_of_map_eq_error ?_))
    decide +kernel
  exact ⟨htrim, hfails, exists_front_of_unexpected htrim hfails⟩

end TreeQuery
