import TreeQuery.Proofs.Query.Outcome
import TreeQuery.Proofs.Selector.Calls
import TreeQuery.Proofs.Selector.Parameters

/-!
# The levels of a compilation

With the built-in functions alone the texts that are compiled on the way are parameters, parameters of
parameters and so on. Each of them has one open parenthesis fewer to spare than the one it stands in, and
the first of them has 31. So no text is compiled deeper than 32 levels below the outermost, and what
compilation would do there is of no account.

Main statements: a text comes to the same on any number of levels above 32, whatever stands at the end of
them, and to what it compiles to; and the parameters of all calls stand in the text or in each other.
-/

namespace TreeQuery

/-- One level of compilation above another one. -/
def Functions.level (functions : Functions) (compile : String → Compilation Selector) (text : String) :
    Compilation Selector :=
  functions.compileCompounds compile (Compound.ofText (Text.trimChars text.toList))

/-- Levels of compilation are put one above the other. -/
theorem Functions.compileWithin_add (functions : Functions) (levels more : Nat) :
    functions.compileWithin (levels + more) = functions.level^[levels] (functions.compileWithin more) := by
  induction levels with
  | zero => rw [Nat.zero_add, Function.iterate_zero_apply]
  | succ levels ih =>
    rw [Function.iterate_succ_apply', ← ih, Nat.succ_add]
    rfl

/-- What a compilation answers and the calls that it makes are those on the course of the text. -/
theorem Functions.compilesWithin_outcome (functions : Functions) (levels : Nat) (text : String) :
    Course.CompilesWithin functions levels text (functions.compileWithin levels text).outcome.1
      (functions.compileWithin levels text).outcome.2 := by
  obtain ⟨outcome, calls, h⟩ := Course.exists_compilesWithin functions levels text
  rwa [(functions.comes_compileWithin h).outcome]

/-- What has the same result and makes the same calls is the same compilation. -/
theorem Compilation.Comes.unique {α : Type} {compilation other : Compilation α}
    {result : Except Selector.Error α} {calls : List Call} (h : compilation.Comes result calls)
    (h' : other.Comes result calls) : compilation = other := by
  funext log
  exact (h log).trans (h' log).symm

namespace Course

open Grammar

/-- What a text comes to with the built-in functions where no text is compiled so many levels down. -/
def CompilesIn : Nat → String → Except Selector.Error Selector → List Call → Prop
  | 0 => fun _ _ _ => False
  | levels + 1 => Compiles .empty (CompilesIn levels)

section

variable {Inner Inner' : String → Except Selector.Error Selector → List Call → Prop} {text : String}
variable {outcome : Except Selector.Error Selector} {calls : List Call} {levels : Nat}

/-- A text depends on what its parameters come to: on those that do not fail, and on the one that it fails
like. -/
theorem Compiles.imp (h : Compiles .empty Inner text outcome calls)
    (himp : ∀ raw found calls, Handed raw (Text.trimChars text.toList) →
      (∀ error, found = .error error → outcome = .error error) →
        Inner (.ofList raw) found calls → Inner' (.ofList raw) found calls) :
    Compiles .empty Inner' text outcome calls := by
  cases h with
  | blank hblank => exact .blank hblank
  | fail hblank compounds =>
    refine .fail hblank (compounds.imp fun raw found calls hraw hfound => himp raw found calls hraw ?_)
    exact fun error herror => congrArg Except.error (Except.error.inj (hfound error herror))
  | selector hblank compounds =>
    refine .selector hblank (compounds.imp fun raw found calls hraw hfound => himp raw found calls hraw ?_)
    intro error herror
    cases hfound error herror

/-- The calls on the course of a text have their parameters from it or are made for such a parameter. -/
theorem Compiles.made (h : Compiles .empty Inner text outcome calls) :
    ∀ call ∈ calls, Made Inner (Text.trimChars text.toList) call := by
  cases h with
  | blank => simp
  | fail hblank compounds => exact compounds.made
  | selector hblank compounds => exact compounds.made

/-- A parameter has one open parenthesis fewer to spare than the text that it stands in. -/
theorem Handed.atMost {limit : Nat} {raw : List Char} (h : Handed raw (Text.trimChars text.toList))
    (hlimit : AtMost limit text.toList) : ∃ fewer, limit = fewer + 1 ∧ AtMost fewer (String.ofList raw).toList := by
  rw [String.toList_ofList]
  exact hlimit.trim.parameter h.toParameter

/-- On more levels than its parentheses are nested a text comes to the same, whatever the number. -/
theorem compilesIn_of_atMost {limit more : Nat} (h : CompilesWithin .empty levels text outcome calls)
    (hlimit : AtMost limit text.toList) (hlt : limit < levels) (hlt' : limit < more) :
    CompilesIn more text outcome calls := by
  induction limit generalizing levels more text outcome calls with
  | zero =>
    obtain ⟨levels, rfl⟩ := Nat.exists_eq_succ_of_ne_zero (Nat.ne_of_gt hlt)
    obtain ⟨more, rfl⟩ := Nat.exists_eq_succ_of_ne_zero (Nat.ne_of_gt hlt')
    refine Compiles.imp h fun raw found calls hraw _ _ => ?_
    obtain ⟨fewer, hfewer, -⟩ := hraw.atMost hlimit
    omega
  | succ limit ih =>
    obtain ⟨levels, rfl⟩ := Nat.exists_eq_succ_of_ne_zero (Nat.ne_of_gt (Nat.zero_lt_of_lt hlt))
    obtain ⟨more, rfl⟩ := Nat.exists_eq_succ_of_ne_zero (Nat.ne_of_gt (Nat.zero_lt_of_lt hlt'))
    refine Compiles.imp h fun raw found calls hraw _ inner => ?_
    obtain ⟨fewer, hfewer, hatMost⟩ := hraw.atMost hlimit
    obtain rfl : limit = fewer := by omega
    exact ih inner hatMost (Nat.lt_of_succ_lt_succ hlt) (Nat.lt_of_succ_lt_succ hlt')

/-- On more than 32 levels any text comes to the same. -/
theorem compilesIn_of_compilesWithin {more : Nat} (h : CompilesWithin .empty levels text outcome calls)
    (hlt : 32 < levels) (hlt' : 32 < more) : CompilesIn more text outcome calls := by
  obtain ⟨levels, rfl⟩ := Nat.exists_eq_succ_of_ne_zero (Nat.ne_of_gt (Nat.zero_lt_of_lt hlt))
  obtain ⟨more, rfl⟩ := Nat.exists_eq_succ_of_ne_zero (Nat.ne_of_gt (Nat.zero_lt_of_lt hlt'))
  refine Compiles.imp h fun raw found calls hraw _ inner => ?_
  have hlimit : AtMost 31 (String.ofList raw).toList := by
    rw [String.toList_ofList]
    exact hraw.balanced.nested
  exact compilesIn_of_atMost inner hlimit (Nat.lt_of_succ_lt_succ hlt) (Nat.lt_of_succ_lt_succ hlt')

/-- Every text comes to something on 33 levels, and to the same on any greater number of them. -/
theorem exists_compilesIn (text : String) :
    ∃ outcome calls, ∀ levels, 32 < levels → CompilesIn levels text outcome calls := by
  obtain ⟨outcome, calls, h⟩ := exists_compilesWithin .empty 33 text
  exact ⟨outcome, calls, fun levels hlt => compilesIn_of_compilesWithin h (by decide) hlt⟩

/-- What a text comes to has the same result and makes the same calls, whatever is compiled so many levels
down. -/
theorem CompilesIn.comes_iterate (h : CompilesIn levels text outcome calls)
    (compile : String → Compilation Selector) :
    (Functions.empty.level^[levels] compile text).Comes outcome calls := by
  induction levels generalizing text outcome calls with
  | zero => exact h.elim
  | succ levels ih =>
    rw [Function.iterate_succ_apply']
    exact Compiles.comes (fun _ _ _ inner => ih inner) h

/-- A text compiles to what it comes to. -/
theorem CompilesIn.comes (h : CompilesIn levels text outcome calls) (hle : levels ≤ Functions.nestingLimit) :
    (Functions.empty.compileText text).Comes outcome calls := by
  obtain ⟨more, hmore⟩ := Nat.exists_eq_add_of_le hle
  rw [Functions.compileText, hmore, Functions.compileWithin_add]
  exact h.comes_iterate _

/-- No text comes to an end of its levels. -/
theorem CompilesIn.ne_endlessNesting (h : CompilesIn levels text outcome calls) :
    outcome ≠ .error .endlessNesting := by
  induction levels generalizing text outcome calls with
  | zero => exact h.elim
  | succ levels ih =>
    cases (h : Compiles _ _ _ _ _) with
    | blank => simp
    | selector => simp
    | fail hblank compounds =>
      rintro ⟨⟩
      -- no component makes this error itself, and no parameter has it
      rcases compounds.failure with ⟨piece, place, -, -, failure⟩ | ⟨raw, later, -, inner⟩
      · cases failure
      · exact ih inner rfl

/-- A text comes to what it compiles to. -/
theorem exists_compilesIn_of_compiled (h : compiled text = outcome) (hlt : 32 < levels) :
    ∃ calls, CompilesIn levels text outcome calls := by
  have hcourse := Functions.empty.compilesWithin_outcome Functions.nestingLimit text
  have houtcome : (Functions.empty.compileWithin Functions.nestingLimit text).outcome.1 = outcome := h
  rw [houtcome] at hcourse
  exact ⟨_, compilesIn_of_compilesWithin hcourse (by decide) hlt⟩

/-- A parameter of a call stands in the text or in another parameter. -/
theorem CompilesIn.exists_handed (h : CompilesIn levels text outcome calls) {call : Call} (hcall : call ∈ calls)
    {value : String} (hvalue : call.parameter = some value) :
    ∃ raw whole, value = .ofList raw ∧ Handed raw whole ∧
      Text.byteLength whole ≤ Text.byteLength text.toList := by
  have htrim : ∀ text : String,
      Text.byteLength (Text.trimChars text.toList) ≤ Text.byteLength text.toList := by
    intro text
    obtain ⟨front, back, htext, -⟩ := Text.trimChars_append text.toList
    have hbytes := congrArg Text.byteLength htext
    simp only [Text.byteLength_append] at hbytes
    omega
  induction levels generalizing text outcome calls with
  | zero => exact h.elim
  | succ levels ih =>
    cases Compiles.made h call hcall with
    | plain hparameter =>
      rw [hparameter] at hvalue
      cases hvalue
    | own hraw hparameter =>
      rw [hparameter] at hvalue
      cases hvalue
      exact ⟨_, _, rfl, hraw, htrim text⟩
    | inner hraw inner hcall =>
      obtain ⟨raw, whole, hraw', hhanded, hle⟩ := ih inner hcall
      rw [String.toList_ofList] at hle
      exact ⟨raw, whole, hraw', hhanded, hle.trans (hraw.byteLength_lt.le.trans (htrim text))⟩

end

end Course

end TreeQuery
