import TreeQuery.Proofs.Selector.Scanning

/-!
# Texts that are recognised at a glance

A text that is one identifier, or a mark and an identifier, is compiled byte by byte without a cursor. A fresh
cursor makes the same of it: its tag is the whole text, or its one component is, and there the text is over. Any
other text is left to the cursor.

Main statement: a text that is not blank compiles to what a fresh cursor makes of it.
-/

namespace TreeQuery.Checked

open Grammar

variable (functions : Functions) (compile : String → Checked Selector)

/-- Whether a text is one identifier can be told from its bytes. -/
theorem isIdentifier_eq (text : List Char) : isIdentifier text = Text.isIdentifier text := by
  rw [isIdentifier, Text.all_isByteOf Text.onlyAscii_isIdentifierChar, Text.isIdentifier]

section

variable {source : List Char} {stop : Nat} (compilation : Checked Predicate)

/-- A text of one compound without a child mark compiles to the one test of it. -/
theorem compileCursor_of_body (hplain : ∀ c ∈ source.head?, c ≠ '>')
    (hbody : eatBody source functions compile 0 = compilation >>= fun predicate => pure (some predicate, stop))
    (hstop : At source stop []) :
    compileCursor source functions compile 0 = compilation >>= fun predicate => pure (.simple predicate) := by
  rw [compileCursor, eatCompound, (at_zero source).eat_ne rfl hplain, pure_bind]
  simp only [Bool.false_eq_true, if_false, pure_bind, hbody, bind_assoc, hstop.roundsFrom_eq,
    hstop.loop_eatNext_end]
  rfl

/-- A text of one component compiles to the one test of it. -/
theorem compileCursor_of_component {mark : Char} {name : List Char} (hmark : mark ∈ marks)
    (hcomponent : eatComponent (mark :: name) functions compile (none, 0) =
      compilation >>= fun predicate => pure (.inl (some predicate, stop)))
    (hstop : At (mark :: name) stop []) :
    compileCursor (mark :: name) functions compile 0 =
      compilation >>= fun predicate => pure (.simple predicate) := by
  have hat := at_zero (mark :: name)
  obtain ⟨hchild, hstar, -, hidentifier⟩ := of_mem_marks hmark
  have hplain : ∀ c ∈ (mark :: name).head?, c ≠ '>' := by
    rintro c ⟨⟩
    exact hchild
  have hbare : ∀ c ∈ (mark :: name).head?, c ≠ '*' ∧ Text.isIdentifierChar c = false := by
    rintro c ⟨⟩
    exact ⟨hstar, hidentifier⟩
  -- one round for the component, and one for the end behind it
  obtain ⟨rounds, hrounds⟩ : ∃ rounds, roundsFrom (mark :: name) 0 = rounds + 1 + 1 := by
    refine ⟨mark.utf8Size - 1 + Text.byteLength name, ?_⟩
    have hpos := mark.utf8Size_pos
    rw [hat.roundsFrom_eq, Text.byteLength_cons]
    omega
  refine compileCursor_of_body functions compile compilation hplain ?_ hstop
  rw [eatBody, hat.eatTag_none hbare, pure_bind]
  change loop _ (roundsFrom (mark :: name) 0) (none, 0) = _
  rw [hrounds, loop, hcomponent, bind_assoc]
  refine bind_congr fun predicate => ?_
  rw [pure_bind]
  exact hstop.loop_eatComponent_end functions compile (some predicate) ends_nil rounds

end

/-- A fresh cursor makes the same of an identifier as a glance. -/
theorem compileCursor_identifier {name : List Char} (h : Text.isIdentifier name = true) :
    compileCursor name functions compile 0 = pure (.simple (.chain none (.ofTag (.ofList name)))) := by
  have hname := TreeQuery.Compound.name_of_isIdentifier h
  have hat : At name 0 (name ++ []) := by
    rw [List.append_nil]
    exact at_zero name
  have hstop := hat.append
  have hplain : ∀ c ∈ name.head?, c ≠ '>' := by
    obtain ⟨c, tail, rfl, hc⟩ := hname.head
    rintro d ⟨⟩
    exact ne_of_class hc (by decide)
  have htag := hat.eatTag_name hname
  have hbody : eatBody name functions compile 0 =
      pure (.chain none (.ofTag (.ofList name))) >>= fun predicate =>
        pure (some predicate, 0 + Text.byteLength name) := by
    rw [eatBody, htag, pure_bind, pure_bind]
    change loop _ (roundsFrom name (0 + Text.byteLength name)) _ = _
    rw [hstop.roundsFrom_eq]
    exact hstop.loop_eatComponent_end functions compile _ ends_nil _
  rw [compileCursor_of_body functions compile _ hplain hbody hstop, pure_bind]

/-- A text is cut behind its first byte where that is a character. -/
theorem exists_cons_of_cut? {text front rest : List Char} (h : Text.cut? 1 text = some (front, rest)) :
    ∃ mark, mark.utf8Size = 1 ∧ text = mark :: rest := by
  obtain ⟨rfl, hsize⟩ := Text.cut?_eq_some_iff.mp h
  cases front with
  | nil => cases hsize
  | cons mark others =>
    have hpos := mark.utf8Size_pos
    have hle := Text.length_le_byteLength others
    rw [Text.byteLength_cons] at hsize
    obtain rfl : others = [] := List.length_eq_zero_iff.mp (by omega)
    exact ⟨mark, hsize.symm, rfl⟩

/-- A text that calls a function without a parameter compiles to the test of the function. -/
theorem eatComponent_function {name : List Char} (hname : Name name []) :
    eatComponent (':' :: name) functions compile (none, 0) =
      (match functions.resolve (.ofList name) with
        | .error error => throw error
        | .ok (origin, factory) => do
          log ⟨origin, .ofList name, none, none⟩
          follow compile (factory (.ofList name) none none)) >>= fun predicate =>
        pure (.inl (some predicate, 0 + 1 + Text.byteLength name)) := by
  have hat := at_zero (':' :: name)
  have hbehind : At (':' :: name) (0 + 1) (name ++ []) := by
    rw [List.append_nil]
    exact hat.cons rfl
  have hparameter : eatParameter (':' :: name) (0 + 1 + Text.byteLength name) =
      pure (none, 0 + 1 + Text.byteLength name) := hbehind.append.eatParameter_eq
  rw [hat.eatComponent_call, eatCall, hbehind.expectIdentifier_eq hname, pure_bind]
  dsimp only
  rcases functions.resolve (.ofList name) with error | ⟨origin, factory⟩
  · rfl
  · simp only [hparameter, pure_bind, bind_assoc]

/-- A fresh cursor makes the same of a mark and an identifier as a glance. -/
theorem compileCursor_shorthand {text : List Char} {compiled : Checked Selector}
    (h : shorthand? functions compile text = some compiled) :
    compileCursor text functions compile 0 = compiled := by
  unfold shorthand? at h
  split at h
  next => cases h
  next front name hcut =>
    obtain ⟨mark, hsize, rfl⟩ := exists_cons_of_cut? hcut
    have hat : At (mark :: name) 0 (mark :: (name ++ [])) := by
      rw [List.append_nil]
      exact at_zero (mark :: name)
    have hstop := (hat.cons hsize).append
    have hhead : (Text.bytes (mark :: name)).head? = some mark.toUInt8 :=
      (Text.head?_bytes_eq_some_iff hsize).mpr rfl
    split at h
    next hidentifier =>
      rw [isIdentifier_eq] at hidentifier
      have hname := TreeQuery.Compound.name_of_isIdentifier hidentifier
      simp only [hhead] at h
      split at h
      next heq =>
        obtain rfl := Text.eq_of_toUInt8_eq hsize rfl heq
        cases h
        have hid := hat.eatComponent_id functions compile none hname
        exact compileCursor_of_component functions compile (pure _) (by decide) hid hstop
      split at h
      next heq =>
        obtain rfl := Text.eq_of_toUInt8_eq hsize rfl heq
        cases h
        have hclass := hat.eatComponent_hasClass functions compile none hname
        exact compileCursor_of_component functions compile (pure _) (by decide) hclass hstop
      split at h
      next heq =>
        obtain rfl := Text.eq_of_toUInt8_eq hsize rfl heq
        cases h
        have hcall := eatComponent_function functions compile hname
        rw [compileCursor_of_component functions compile _ (by decide) hcall hstop]
        rcases functions.resolve (.ofList name) with error | ⟨origin, factory⟩
        · rfl
        · simp only [bind_assoc]
      next => cases h
    next => cases h

/-- Something is left of a text that is not blank. -/
theorem trimChars_ne_nil {text : List Char} (h : text.all Text.isBlank = false) : Text.trimChars text ≠ [] := by
  rw [ne_eq, Text.trimChars_eq_nil_iff, h]
  exact Bool.false_ne_true

/-- A text that is not blank compiles to what a fresh cursor makes of it. -/
theorem compileText_eq_compileCursor {text : String} (h : text.toList.all Text.isBlank = false) :
    compileText functions compile text = compileCursor (Text.trimChars text.toList) functions compile 0 := by
  simp only [compileText, List.isEmpty_iff, if_neg (trimChars_ne_nil h), isIdentifier_eq]
  split
  next hidentifier => exact (compileCursor_identifier functions compile hidentifier).symm
  next =>
    split
    next compiled hshorthand => exact (compileCursor_shorthand functions compile hshorthand).symm
    next => rfl

end TreeQuery.Checked
