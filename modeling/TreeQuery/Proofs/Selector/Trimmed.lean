import TreeQuery.Proofs.Selector.Concatenation
import TreeQuery.Proofs.Selector.Language

/-!
# Trimmed texts

A trimmed text has no blank at either end, and writing on behind it keeps it trimmed if what is written
does not end with a blank. Of a trimmed text the grammar asks no more than its compounds, so what holds
of compounds one behind the other holds of trimmed texts.

Main statements: what trimmed texts denote when they are joined by blanks or by `>`, or when a test is
written behind one.
-/

namespace TreeQuery

namespace Text

/-- A text without a blank at either end. -/
structure Trimmed (text : List Char) : Prop where
  head : ∀ c ∈ text.head?, isBlank c = false
  last : ∀ c ∈ text.getLast?, isBlank c = false

/-- Trimming leaves a trimmed text as it is. -/
theorem Trimmed.trimChars_eq {text : List Char} (h : Trimmed text) : trimChars text = text := by
  have hdrop : text.dropWhile isBlank = text := by
    cases text with
    | nil => rfl
    | cons c rest => exact List.dropWhile_cons_of_neg (by simp [h.head c rfl])
  have htrim : trimChars text = (text.dropWhile isBlank).rdropWhile isBlank := rfl
  rw [htrim, hdrop, List.rdropWhile_eq_self_iff]
  intro hne
  simp [h.last _ (List.getLast?_eq_some_getLast hne)]

/-- Trimming leaves a trimmed string as it is. -/
theorem Trimmed.trim_eq {text : String} (h : Trimmed text.toList) : trim text = text := by
  rw [trim, h.trimChars_eq, String.ofList_toList]

/-- A text without blanks is trimmed. -/
theorem trimmed_of_forall {text : List Char} (h : ∀ c ∈ text, isBlank c = false) : Trimmed text :=
  ⟨fun c hc => h c (List.mem_of_mem_head? hc), fun c hc => h c (List.mem_of_getLast? hc)⟩

/-- A string that trimming leaves as it is has no blank at either end. -/
theorem trimmed_of_trim_eq {text : String} (h : trim text = text) : Trimmed text.toList := by
  have hchars : trimChars text.toList = text.toList := by
    have := congrArg String.toList h
    rwa [trim, String.toList_ofList] at this
  refine ⟨fun c hc => ?_, fun c hc => ?_⟩
  · rw [← hchars] at hc
    exact head_trimChars hc
  · rw [← hchars] at hc
    exact getLast_trimChars hc

/-- A text is trimmed if its beginning and its end are. -/
theorem Trimmed.append {first last : List Char} (hfirst : Trimmed first) (hlast : Trimmed last)
    (hne : first ≠ []) (hne' : last ≠ []) (middle : List Char) :
    Trimmed (first ++ (middle ++ last)) where
  head := by
    rw [List.head?_append_of_ne_nil _ hne]
    exact hfirst.head
  last := by
    rw [← List.append_assoc, List.getLast?_append_of_ne_nil _ hne']
    exact hlast.last

/-- A call begins with its mark and ends with its parenthesis. -/
theorem trimmed_call (name raw : List Char) : Trimmed (':' :: (name ++ '(' :: (raw ++ [')']))) := by
  have hmark : Trimmed [':'] := ⟨by simp; decide, by simp; decide⟩
  have hclose : Trimmed [')'] := ⟨by simp; decide, by simp; decide⟩
  have := hmark.append hclose (List.cons_ne_nil _ _) (List.cons_ne_nil _ _) (name ++ '(' :: raw)
  simpa using this

end Text

namespace Grammar

/-- The parentheses of a text that denotes something come in pairs. -/
theorem Denotes.paired {text : List Char} {selector : Selector} (h : Denotes text selector) :
    Paired text := by
  obtain ⟨compounds⟩ := h
  obtain ⟨front, back, htext, hfront, hback⟩ := Text.trimChars_append text
  have hblank : ∀ c, Text.isBlank c = true → c ≠ '(' ∧ c ≠ ')' := fun c hc =>
    ⟨ne_of_class hc (by decide), ne_of_class hc (by decide)⟩
  rw [htext]
  exact (paired_of_forall fun c hc => hblank c (hfront c hc)).append
    (compounds.paired.append (paired_of_forall fun c hc => hblank c (hback c hc)))

/-- A text that denotes something is balanced as far as its parentheses are nested. -/
theorem Denotes.balanced {limit : Nat} {text : List Char} {selector : Selector} (h : Denotes text selector)
    (hnested : AtMost limit text) : Balanced limit text := ⟨h.paired.equal, h.paired.opened, hnested⟩

/-- Some selector has these parts, if there are any. -/
theorem exists_parts {parts : List Part} (hne : parts ≠ []) : ∃ selector : Selector, selector.parts = parts := by
  obtain ⟨head, rest, rfl⟩ := List.exists_cons_of_ne_nil hne
  exact ⟨⟨head, rest⟩, rfl⟩

/-- A run of compounds denotes some parts. -/
theorem Compounds.parts_ne_nil {Inner : List Char → Selector → Prop} {text : List Char} {parts : List Part}
    (h : Compounds Inner text parts) : parts ≠ [] := by
  cases h <;> exact List.cons_ne_nil _ _

/-- A run of compounds is not empty. -/
theorem Compounds.ne_nil {Inner : List Char → Selector → Prop} {text : List Char} {parts : List Part}
    (h : Compounds Inner text parts) : text ≠ [] := by
  obtain ⟨c, tail, rfl, -⟩ := h.head
  exact List.cons_ne_nil c tail

/-- A trimmed text denotes the parts of its compounds. -/
theorem denotes_iff_of_trimmed {text : List Char} {selector : Selector} (h : Text.Trimmed text) :
    Denotes text selector ↔ Compounds Denotes text selector.parts := by
  constructor
  · intro hdenotes
    obtain ⟨compounds⟩ := hdenotes
    rwa [h.trimChars_eq] at compounds
  · intro hcompounds
    exact .intro (by rwa [h.trimChars_eq])

/-- Compounds of a trimmed text are denoted by it. -/
theorem Compounds.exists_denotes {text : List Char} {parts : List Part}
    (h : Compounds Denotes text parts) (htrimmed : Text.Trimmed text) :
    ∃ selector : Selector, Denotes text selector ∧ selector.parts = parts := by
  obtain ⟨selector, rfl⟩ := exists_parts h.parts_ne_nil
  exact ⟨selector, (denotes_iff_of_trimmed htrimmed).mpr h, rfl⟩

section

variable {first second blanks : List Char} {left right : Selector}

/-- Two trimmed texts with blanks between them denote the parts of both, unless the first one ends with
`>`. -/
theorem Denotes.append_blanks (hleft : Denotes first left) (hright : Denotes second right)
    (hfirst : Text.Trimmed first) (hsecond : Text.Trimmed second) (hlast : first.getLast? ≠ some '>')
    (hne : blanks ≠ []) (hblanks : ∀ c ∈ blanks, Text.isAsciiBlank c = true) :
    ∃ both : Selector, Denotes (first ++ (blanks ++ second)) both ∧
      both.parts = left.parts ++ right.parts := by
  have hleft := (denotes_iff_of_trimmed hfirst).mp hleft
  have hright := (denotes_iff_of_trimmed hsecond).mp hright
  have hend : ∀ c ∈ first.getLast?, c ≠ '>' ∧ Text.isAsciiBlank c = false := by
    intro c hc
    refine ⟨fun heq => ?_, Text.isAsciiBlank_eq_false (hfirst.last c hc)⟩
    subst heq
    exact hlast hc
  exact (hleft.append_blanks hright hend hne hblanks).exists_denotes
    (hfirst.append hsecond hleft.ne_nil hright.ne_nil blanks)

/-- A `>` in front of a trimmed text that begins with none bounds the depth of its first part. -/
theorem Denotes.mark (hright : Denotes second right) (hsecond : Text.Trimmed second)
    (hhead : second.head? ≠ some '>') {blanks : List Char}
    (hblanks : ∀ c ∈ blanks, Text.isAsciiBlank c = true) :
    ∃ marked : Selector, Denotes ('>' :: (blanks ++ second)) marked ∧
      marked.parts = right.parts.modifyHead fun part => { part with depth := some 1 } := by
  have hright := (denotes_iff_of_trimmed hsecond).mp hright
  have hmarked := hright.mark (fun c hc heq => hhead (heq ▸ hc)) hblanks
  have htrimmed : Text.Trimmed ['>'] := ⟨by simp; decide, by simp; decide⟩
  exact hmarked.exists_denotes (htrimmed.append hsecond (List.cons_ne_nil _ _) hright.ne_nil blanks)

/-- Of two trimmed texts with `>` and blanks between them the second one continues the first by a child. -/
theorem Denotes.append_child {blanks' : List Char} (hleft : Denotes first left)
    (hright : Denotes second right) (hfirst : Text.Trimmed first) (hsecond : Text.Trimmed second)
    (hhead : second.head? ≠ some '>') (hblanks : ∀ c ∈ blanks, Text.isAsciiBlank c = true)
    (hblanks' : ∀ c ∈ blanks', Text.isAsciiBlank c = true) :
    ∃ both : Selector, Denotes (first ++ (blanks ++ '>' :: (blanks' ++ second))) both ∧
      both.parts = left.parts ++ right.parts.modifyHead fun part => { part with depth := some 1 } := by
  have hleft := (denotes_iff_of_trimmed hfirst).mp hleft
  have hright := (denotes_iff_of_trimmed hsecond).mp hright
  have hmarked := hright.mark (fun c hc heq => hhead (heq ▸ hc)) hblanks'
  have hboth := hleft.append_child hmarked hblanks
  refine hboth.exists_denotes ?_
  have := hfirst.append hsecond hleft.ne_nil hright.ne_nil (blanks ++ '>' :: blanks')
  simpa using this

/-- A test behind a trimmed text is chained behind the predicate of its last part. -/
theorem Denotes.append_test {more : List Char} {extra : Predicate} (hleft : Denotes first left)
    (hfirst : Text.Trimmed first) (hmore : Text.Trimmed more)
    (htest : Test Denotes more extra []) :
    ∃ (longer : Selector) (init : List Part) (depth : Option Nat) (earlier : Option Predicate),
      Denotes (first ++ more) longer ∧ left.parts = init ++ [⟨depth, earlier.getD .always⟩] ∧
      longer.parts = init ++ [⟨depth, .chain earlier extra⟩] := by
  have hleft := (denotes_iff_of_trimmed hfirst).mp hleft
  obtain ⟨init, depth, earlier, hparts, hcompounds⟩ := hleft.append_test htest
  have hne : more ≠ [] := by
    obtain ⟨mark, tail, rfl, -⟩ := htest.marked
    exact List.cons_ne_nil mark tail
  have htrimmed : Text.Trimmed (first ++ more) := by
    have := hfirst.append hmore hleft.ne_nil hne []
    rwa [List.nil_append] at this
  obtain ⟨longer, hlonger, hlongerParts⟩ := hcompounds.exists_denotes htrimmed
  exact ⟨longer, init, depth, earlier, hlonger, hparts, hlongerParts⟩

end

end Grammar

end TreeQuery
