import TreeQuery.Proofs.Query.Outcome
import TreeQuery.Proofs.Selector.Levels

/-!
# Faults of parentheses

A parameter is handed to a function once its parentheses are found to be balanced, with one of the 32 that
may be open at once already used up, and only if something stands between them that is no blank. Nothing
is left then for a fault of parentheses, or for an empty text, to be found in it. So these faults are found
in the outermost text, and their positions are positions there.

Main statement: where a text has a fault of its parentheses, what the fault says is true of the text at
that position, and no parameter that is compiled on the way has one.
-/

namespace TreeQuery

namespace Grammar

/-- Blanks are no parentheses. -/
theorem count_of_isBlank {blanks : List Char} (h : ∀ c ∈ blanks, Text.isBlank c = true) :
    blanks.count '(' = 0 ∧ blanks.count ')' = 0 :=
  ⟨List.count_eq_zero.mpr fun hc => ne_of_class (h _ hc) (by decide) rfl,
    List.count_eq_zero.mpr fun hc => ne_of_class (h _ hc) (by decide) rfl⟩

/-- A balanced text is balanced without the blanks around it. -/
theorem Balanced.trim {limit : Nat} {text : List Char} (h : Balanced limit text) :
    Balanced limit (Text.trimChars text) := by
  obtain ⟨before, behind, htext, hbefore, hbehind⟩ := Text.trimChars_append text
  obtain ⟨hopen, hclose⟩ := count_of_isBlank hbefore
  obtain ⟨hopen', hclose'⟩ := count_of_isBlank hbehind
  refine ⟨?_, fun front hfront => ?_, AtMost.trim h.nested⟩
  · have hequal := h.equal
    rw [htext] at hequal
    simpa only [List.count_append, hopen, hclose, hopen', hclose', Nat.zero_add, Nat.add_zero] using hequal
  · have hlonger : before ++ front <+: text := by
      rw [htext]
      exact (List.prefix_append_right_inj before).mpr (hfront.trans (List.prefix_append _ behind))
    have hopened := h.opened _ hlonger
    simpa only [List.count_append, hopen, hclose, Nat.zero_add] using hopened

end Grammar

namespace Course

open Grammar

/-- The faults that an enclosing text rules out of a parameter. -/
def outermost : List Fault := [.empty, .unbalancedParentheses, .nestedTooDeeply]

/-- What such a fault says of a text at a position. Nothing but blanks is there; or a parenthesis stands at
the position that is not closed however far the text goes on; or one stands there inside 32 open ones. -/
inductive Located (text : List Char) : Fault → Nat → Prop
  | empty (hblank : text.all Text.isBlank = true) : Located text .empty 0
  | unbalanced {front behind : List Char} (htext : Text.trimChars text = front ++ '(' :: behind)
      (hopen : ∀ piece, piece <+: '(' :: behind → piece ≠ [] → piece.count ')' < piece.count '(') :
      Located text .unbalancedParentheses (Text.byteLength front)
  | tooDeep {front behind : List Char} (htext : Text.trimChars text = front ++ '(' :: behind)
      (hdeep : front.count '(' = front.count ')' + 32) :
      Located text .nestedTooDeeply (Text.byteLength front)

/-- A fault behind the name of a function, in a text where a balanced piece stands in front of the name. -/
theorem Parameter.located {text piece name behind place : List Char} {fault : Fault}
    (h : Parameter behind (.error (fault, place))) (hname : Name name behind) (hpiece : Balanced 32 piece)
    (htext : Text.trimChars text = piece ++ ':' :: (name ++ behind)) :
    Located text fault (offset (Text.trimChars text) place) := by
  obtain ⟨front, hfront, hsplit⟩ : ∃ front, Balanced 32 front ∧ Text.trimChars text = front ++ behind := by
    have hmark : (':' ≠ '(' ∧ ':' ≠ ')') := by decide
    have hplain : ∀ c ∈ ':' :: name, c ≠ '(' ∧ c ≠ ')' :=
      List.forall_mem_cons.mpr ⟨hmark, fun c hc => (plain_of_isIdentifierChar (hname.all c hc)).1⟩
    refine ⟨piece ++ ':' :: name, hpiece.append (balanced_of_forall hplain 32), ?_⟩
    rw [htext, List.append_assoc, List.cons_append]
  cases h with
  | @unclosed raw hraw =>
    rw [hsplit, offset_append]
    refine .unbalanced hsplit fun inside hinside hne => ?_
    rcases List.prefix_cons_iff.mp hinside with rfl | ⟨inner, rfl, hinner⟩
    · exact absurd rfl hne
    · have hopen := hraw.some_open inner hinner
      rw [List.count_cons_self, List.count_cons_of_ne (by decide)]
      omega
  | @tooDeep raw rest hraw hdeep =>
    have hdeeper : Text.trimChars text = (front ++ '(' :: raw) ++ '(' :: rest := by
      rw [hsplit, List.append_assoc, List.cons_append]
    rw [hdeeper, offset_append]
    refine .tooDeep hdeeper ?_
    rw [List.count_append, List.count_append, hfront.equal, List.count_cons_self,
      List.count_cons_of_ne (by decide)]
    omega

/-- A parameter has no such fault. -/
theorem Handed.not_located {raw text : List Char} (h : Handed raw text) {fault : Fault} {position : Nat} :
    ¬ Located raw fault position := by
  have htrim := h.balanced.trim
  intro hlocated
  cases hlocated with
  | empty hblank =>
    rw [h.blank] at hblank
    cases hblank
  | unbalanced hsplit hopen =>
    -- a parenthesis that stays open makes one more than are closed, as none closes in front of it
    have hequal := htrim.equal
    have hfront := htrim.opened _ (hsplit ▸ List.prefix_append _ _)
    have hbehind := hopen _ (List.prefix_refl _) (List.cons_ne_nil _ _)
    rw [hsplit, List.count_append, List.count_append] at hequal
    omega
  | tooDeep hsplit hdeep =>
    have hnested := htrim.nested _ (hsplit ▸ List.prefix_append _ _)
    omega

/-- Such a fault says what is so. -/
theorem located_of_compilesWithin {levels : Nat} {text : String} {fault : Fault} {position : Nat}
    {calls : List Call} (hfault : fault ∈ outermost)
    (h : CompilesWithin .empty levels text (.error (.invalid fault position)) calls) :
    Located text.toList fault position := by
  induction levels generalizing text position calls with
  | zero => cases h.1
  | succ levels ih =>
    generalize houtcome : Except.error (Selector.Error.invalid fault position) = outcome at h
    cases (h : Compiles _ _ _ _ _) with
    | blank hblank =>
      cases houtcome
      exact .empty hblank
    | selector => cases houtcome
    | fail hblank compounds =>
      cases houtcome
      rcases compounds.failure with ⟨piece, place, htext, hpiece, failure⟩ | ⟨raw, later, hraw, inner⟩
      · cases failure with
        | nameless => simp [outermost] at hfault
        | unexpected => simp [outermost] at hfault
        | parentheses hname parameter => exact parameter.located hname hpiece htext
      · -- it would be a fault of a parameter
        have hlocated := ih inner
        rw [String.toList_ofList] at hlocated
        exact absurd hlocated hraw.not_located

end Course

/-- A text has a fault of its parentheses where the fault says: where they are unbalanced, one stands there
that nothing closes, and where they are nested too deeply, one stands there inside 32 open ones. No
parameter that is compiled on the way has such a fault, on any level, nor is it empty. -/
theorem faults_of_parentheses (text : String) :
    (∀ position, compiled text = .error (.invalid .unbalancedParentheses position) →
      ∃ front behind, Text.trimChars text.toList = front ++ '(' :: behind ∧
        Text.byteLength front = position ∧
        ∀ piece, piece <+: '(' :: behind → piece ≠ [] → piece.count ')' ≠ piece.count '(') ∧
    (∀ position, compiled text = .error (.invalid .nestedTooDeeply position) →
      ∃ front behind, Text.trimChars text.toList = front ++ '(' :: behind ∧
        Text.byteLength front = position ∧ front.count '(' = front.count ')' + 32) ∧
    ∀ call ∈ (Functions.empty.compile (.text text)).outcome.2, ∀ raw, call.parameter = some raw →
      ∀ levels position, ∀ fault ∈ [Fault.empty, .unbalancedParentheses, .nestedTooDeeply],
        (Functions.empty.compileWithin levels raw).outcome.1 ≠ .error (.invalid fault position) := by
  have hlocated : ∀ {fault position}, fault ∈ Course.outermost →
      compiled text = .error (.invalid fault position) → Course.Located text.toList fault position := by
    intro fault position hfault hcompiled
    have hcourse := Functions.empty.compilesWithin_outcome Functions.nestingLimit text
    have houtcome : (Functions.empty.compileWithin Functions.nestingLimit text).outcome.1 = _ := hcompiled
    rw [houtcome] at hcourse
    exact Course.located_of_compilesWithin hfault hcourse
  refine ⟨fun position hcompiled => ?_, fun position hcompiled => ?_, ?_⟩
  · cases hlocated (by decide) hcompiled with
    | unbalanced htext hopen =>
      exact ⟨_, _, htext, rfl, fun piece hpiece hne => Nat.ne_of_lt (hopen piece hpiece hne)⟩
  · cases hlocated (by decide) hcompiled with
    | tooDeep htext hdeep => exact ⟨_, _, htext, rfl, hdeep⟩
  · intro call hcall raw hraw levels position fault hfault herror
    obtain ⟨outcome, calls, hcourse⟩ := Course.exists_compilesIn text
    have hcomes := (hcourse 33 (by decide)).comes (by decide)
    have hcalls : (Functions.empty.compile (.text text)).outcome.2 = calls := congrArg Prod.snd hcomes.outcome
    rw [hcalls] at hcall
    obtain ⟨inside, whole, rfl, hhanded, -⟩ := (hcourse 33 (by decide)).exists_handed hcall hraw
    have hinner := Functions.empty.compilesWithin_outcome levels (.ofList inside)
    rw [herror] at hinner
    have hfound := Course.located_of_compilesWithin hfault hinner
    rw [String.toList_ofList] at hfound
    exact hhanded.not_located hfound

example : compiled "ul > :not(:has(a)" = .error (.invalid .unbalancedParentheses 9) := by cbv

example : compiled (":has" ++ .ofList (.replicate 33 '(')) = .error (.invalid .nestedTooDeeply 36) := by cbv

end TreeQuery
