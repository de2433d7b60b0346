import Mathlib.Data.List.DropRight
import TreeQuery.Proofs.Selector.Shortcut

/-!
# The language of selector text

Compilation and the grammar agree on whole texts. One level of compilation reads the compounds of the
trimmed text and leaves the parameters to the level below, as one step of the grammar does. What is
compiled on any number of levels is denoted, by induction on the levels. For the converse the levels
have to be enough: a parameter stands in one more pair of parentheses than the text it is taken from,
and no more than 32 pairs are open at once, so the levels of a compilation never run out.

Main statement: without registered functions a text compiles to a selector exactly when it is not
blank and denotes that selector.
-/

namespace TreeQuery

namespace Text

/-- What is not blank is not an ASCII blank. -/
theorem isAsciiBlank_eq_false {c : Char} (h : isBlank c = false) : isAsciiBlank c = false := by
  by_contra hspace
  rw [Bool.not_eq_false] at hspace
  have hblank := Grammar.of_isAsciiBlank (p := isBlank) (by decide) hspace
  rw [h] at hblank
  contradiction

/-- A text is its trimmed text with blanks around it. -/
theorem trimChars_append (text : List Char) :
    ∃ front back, text = front ++ (trimChars text ++ back) ∧ (∀ c ∈ front, isBlank c = true) ∧
      ∀ c ∈ back, isBlank c = true := by
  refine ⟨text.takeWhile isBlank, (text.dropWhile isBlank).rtakeWhile isBlank, ?_, ?_, ?_⟩
  · have htrim : trimChars text = (text.dropWhile isBlank).rdropWhile isBlank := rfl
    rw [htrim, List.rdropWhile_append_rtakeWhile, List.takeWhile_append_dropWhile]
  · exact fun c hc => List.mem_takeWhile_imp hc
  · exact fun c hc => List.mem_rtakeWhile_imp hc

/-- A trimmed text does not begin with a blank. -/
theorem head_trimChars {text : List Char} {c : Char} (h : c ∈ (trimChars text).head?) :
    isBlank c = false := by
  have hprefix : trimChars text <+: text.dropWhile isBlank :=
    List.rdropWhile_prefix isBlank _
  obtain ⟨back, hback⟩ := hprefix
  have hhead := List.head?_dropWhile_not isBlank text
  rw [← hback, List.head?_append, Option.mem_def.mp h] at hhead
  simpa using hhead

/-- A trimmed text does not end with a blank. -/
theorem getLast_trimChars {text : List Char} {c : Char} (h : c ∈ (trimChars text).getLast?) :
    isBlank c = false := by
  have hhead := List.head?_dropWhile_not isBlank (text.dropWhile isBlank).reverse
  rw [Option.mem_def, trimChars, List.getLast?_reverse] at h
  rw [h] at hhead
  simpa using hhead

/-- A text is trimmed to nothing exactly when it is blank. -/
theorem trimChars_eq_nil_iff {text : List Char} : trimChars text = [] ↔ text.all isBlank = true := by
  have htrim : trimChars text = (text.dropWhile isBlank).rdropWhile isBlank := rfl
  rw [htrim, List.rdropWhile_eq_nil_iff, List.all_eq_true]
  constructor
  · intro h c hc
    rw [← List.takeWhile_append_dropWhile (p := isBlank) (l := text), List.mem_append] at hc
    exact hc.elim (fun hc => List.mem_takeWhile_imp hc) (h c)
  · intro h c hc
    exact h c ((List.dropWhile_sublist isBlank).mem hc)

end Text

namespace Grammar

/-- Compounds compile to a selector when they compile to its parts. -/
theorem compounds_eq_ok_iff {compile : String → Except Selector.Error Selector}
    {list : List TreeQuery.Compound} {selector : Selector} :
    Plain.compounds compile list = .ok selector ↔ Plain.parts compile list = .ok selector.parts := by
  cases list with
  | nil => simp [Plain.compounds, Plain.parts, Selector.parts]
  | cons first rest =>
    obtain ⟨head, others⟩ := selector
    rw [Plain.compounds, parts_cons_eq_ok, Plain.bind_eq_ok_iff]
    constructor
    · intro h
      obtain ⟨part, hfirst, h⟩ := h
      obtain ⟨parts, hrest, h⟩ := Plain.bind_eq_ok_iff.mp h
      cases h
      exact ⟨_, _, rfl, hfirst, hrest⟩
    · intro h
      obtain ⟨part, parts, hparts, hfirst, hrest⟩ := h
      cases hparts
      exact ⟨head, hfirst, Plain.bind_eq_ok_iff.mpr ⟨others, hrest, rfl⟩⟩

/-- A blank text does not compile. -/
theorem noneBlank_compileWithin (levels : Nat) : NoneBlank (Plain.compileWithin levels) := by
  intro raw selector h
  cases levels with
  | zero => simp [Compiles, Plain.compileWithin] at h
  | succ levels =>
    by_contra hblank
    rw [Bool.not_eq_false, ← Text.trimChars_eq_nil_iff] at hblank
    rw [Compiles, Plain.compileWithin, String.toList_ofList, hblank, TreeQuery.Compound.ofText_eq_readAll,
      compounds_readAll_nil] at h
    simp [Plain.compounds] at h

/-- One level of compilation is one step of the grammar, with the parameters left to the level below. -/
theorem compileWithin_succ_iff {levels : Nat} {raw : List Char} {selector : Selector} :
    Compiles (Plain.compileWithin (levels + 1)) raw selector ↔
      Compounds (Compiles (Plain.compileWithin levels)) (Text.trimChars raw) selector.parts := by
  rw [Compiles, Plain.compileWithin, String.toList_ofList, TreeQuery.Compound.ofText_eq_readAll,
    compounds_eq_ok_iff]
  constructor
  · intro h
    have hne : Text.trimChars raw ≠ [] := by
      intro hnil
      rw [hnil, compounds_readAll_nil] at h
      simp [Plain.parts, Selector.parts] at h
    exact compounds_of_readAll hne (fun c hc => Text.isAsciiBlank_eq_false (Text.head_trimChars hc))
      (fun c hc => Text.isAsciiBlank_eq_false (Text.getLast_trimChars hc)) h
  · intro h
    exact h.readAll (noneBlank_compileWithin levels) 0

/-- What compiles on any number of levels is denoted. -/
theorem denotes_of_compiles {levels : Nat} {raw : List Char} {selector : Selector}
    (h : Compiles (Plain.compileWithin levels) raw selector) : Denotes raw selector := by
  induction levels generalizing raw selector with
  | zero => simp [Compiles, Plain.compileWithin] at h
  | succ levels ih =>
    exact .intro ((compileWithin_succ_iff.mp h).imp fun inner result _ hinner => ih hinner)

/-- At most so many parentheses are open at once, wherever a text is cut. -/
def AtMost (limit : Nat) (text : List Char) : Prop :=
  ∀ front, front <+: text → front.count '(' ≤ front.count ')' + limit

instance (limit : Nat) (text : List Char) : Decidable (AtMost limit text) :=
  decidable_of_iff (∀ front ∈ text.inits, front.count '(' ≤ front.count ')' + limit) <| by
    simp only [AtMost, List.mem_inits]

/-- A trimmed text has no more open parentheses than the text. -/
theorem AtMost.trim {limit : Nat} {text : List Char} (h : AtMost limit text) :
    AtMost limit (Text.trimChars text) := by
  intro front hfront
  obtain ⟨before, behind, htext, hblank, -⟩ := Text.trimChars_append text
  have hprefix : before ++ front <+: text := by
    rw [htext]
    exact (List.prefix_append_right_inj before).mpr (hfront.trans (List.prefix_append _ behind))
  have hle := h _ hprefix
  have hopen : before.count '(' = 0 :=
    List.count_eq_zero.mpr fun hc => ne_of_class (hblank _ hc) (by decide) rfl
  have hclose : before.count ')' = 0 :=
    List.count_eq_zero.mpr fun hc => ne_of_class (hblank _ hc) (by decide) rfl
  rwa [List.count_append, List.count_append, hopen, hclose, Nat.zero_add, Nat.zero_add] at hle

/-- A parameter has one open parenthesis fewer than the text it stands in. -/
theorem AtMost.parameter {limit : Nat} {text raw : List Char} (h : AtMost limit text)
    (hraw : Parameter raw text) : ∃ fewer, limit = fewer + 1 ∧ AtMost fewer raw := by
  obtain ⟨-, rest, piece, htext, hpiece⟩ := hraw
  have hfront : ∀ front, front <+: raw → front.count '(' + 1 ≤ front.count ')' + limit := by
    intro front hprefix
    have hlonger : piece ++ '(' :: front <+: text := by
      rw [htext, List.prefix_append_right_inj, List.prefix_cons_inj]
      exact hprefix.trans (List.prefix_append _ _)
    have := h _ hlonger
    rw [List.count_append, List.count_append, List.count_cons_self, List.count_cons_of_ne (by decide)] at this
    have := hpiece.equal
    omega
  have hpos := hfront [] List.nil_prefix
  refine ⟨limit - 1, by simp at hpos; omega, fun front hprefix => ?_⟩
  have := hfront front hprefix
  omega

/-- What is denoted compiles on every number of levels above the number of open parentheses. -/
theorem Denotes.compiles {limit : Nat} {raw : List Char} {selector : Selector}
    (h : Denotes raw selector) (hlimit : AtMost limit raw) {levels : Nat} (hlt : limit < levels) :
    Compiles (Plain.compileWithin levels) raw selector := by
  induction limit generalizing raw selector levels with
  | zero =>
    obtain ⟨levels, rfl⟩ := Nat.exists_eq_succ_of_ne_zero (Nat.ne_of_gt hlt)
    obtain ⟨compounds⟩ := h
    refine compileWithin_succ_iff.mpr (compounds.imp fun inner result hinner _ => ?_)
    obtain ⟨fewer, hfewer, -⟩ := hlimit.trim.parameter hinner
    omega
  | succ limit ih =>
    obtain ⟨levels, rfl⟩ := Nat.exists_eq_succ_of_ne_zero (Nat.ne_of_gt (Nat.zero_lt_of_lt hlt))
    obtain ⟨compounds⟩ := h
    refine compileWithin_succ_iff.mpr (compounds.imp fun inner result hinner hdenotes => ?_)
    obtain ⟨fewer, hfewer, hatMost⟩ := hlimit.trim.parameter hinner
    obtain rfl : limit = fewer := by omega
    exact ih hdenotes hatMost (Nat.lt_of_succ_lt_succ hlt)

/-- What is denoted compiles, as its parameters have at most 31 parentheses open at once. -/
theorem Denotes.compiles_nestingLimit {raw : List Char} {selector : Selector} (h : Denotes raw selector) :
    Compiles (Plain.compileWithin Functions.nestingLimit) raw selector := by
  obtain ⟨compounds⟩ := h
  have hlimit : Functions.nestingLimit = (2 ^ 62 - 1) + 1 := rfl
  rw [hlimit]
  refine compileWithin_succ_iff.mpr (compounds.imp fun inner result hinner hdenotes => ?_)
  exact hdenotes.compiles hinner.balanced.nested (by decide)

/-- Without registered functions a text compiles to a selector exactly when something is left of it
behind its blanks and it denotes that selector. -/
theorem compile_eq_ok_iff_denotes (text : String) (selector : Selector) :
    (Functions.empty.compile (.text text)).outcome.1 = .ok selector ↔
      Text.trimChars text.toList ≠ [] ∧ Denotes text.toList selector := by
  have hplain : (Functions.empty.compile (.text text)).outcome.1 =
      Plain.compileWithin Functions.nestingLimit text :=
    Plain.gives_compileWithin Functions.nestingLimit text []
  have hcompiles : Plain.compileWithin Functions.nestingLimit text = .ok selector ↔
      Compiles (Plain.compileWithin Functions.nestingLimit) text.toList selector := by
    rw [Compiles, String.ofList_toList]
  rw [hplain, hcompiles]
  constructor
  · intro h
    have hdenotes := denotes_of_compiles h
    refine ⟨?_, hdenotes⟩
    obtain ⟨compounds⟩ := hdenotes
    obtain ⟨c, tail, htext, -⟩ := compounds.head
    simp [htext]
  · intro hall
    obtain ⟨-, hdenotes⟩ := hall
    exact hdenotes.compiles_nestingLimit

end Grammar

end TreeQuery
