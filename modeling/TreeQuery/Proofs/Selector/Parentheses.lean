import Mathlib.Data.List.TakeWhile
import TreeQuery.Proofs.Selector.Grammar
import TreeQuery.Selector.Component

/-!
# Identifiers and parentheses

The two pieces of selector text whose end has to be looked for are identifiers and parameters. An
identifier ends before the first other character. A parameter ends before the parenthesis that closes
the last open one; reading it succeeds exactly when its own parentheses are balanced and not too many
of them are open at once.
-/

namespace TreeQuery.Grammar

/-- The run of identifier characters at the beginning of a text is a maximal identifier. -/
theorem name_takeWhile {text : List Char} (h : text.takeWhile Text.isIdentifierChar ≠ []) :
    Name (text.takeWhile Text.isIdentifierChar) (text.dropWhile Text.isIdentifierChar) where
  ne_nil := h
  all := fun c hc => List.mem_takeWhile_imp hc
  maximal := by
    intro c hc
    have hne := List.head?_dropWhile_not Text.isIdentifierChar text
    rw [Option.mem_def.mp hc] at hne
    simpa using hne

/-- A maximal identifier is the run of identifier characters at the beginning. -/
theorem Name.takeWhile_eq {name rest : List Char} (h : Name name rest) :
    (name ++ rest).takeWhile Text.isIdentifierChar = name := by
  rw [List.takeWhile_append_of_pos h.all]
  cases rest with
  | nil => simp
  | cons c rest => simp [h.maximal c rfl]

/-- Behind a maximal identifier its rest is left. -/
theorem Name.dropWhile_eq {name rest : List Char} (h : Name name rest) :
    (name ++ rest).dropWhile Text.isIdentifierChar = rest := by
  rw [List.dropWhile_append_of_pos h.all]
  cases rest with
  | nil => simp
  | cons c rest => simp [h.maximal c rfl]

/-- A text that leaves some of `opened` open parentheses and its own open, wherever it is cut, and at
most 32 of them. -/
structure Open (opened : Nat) (raw : List Char) : Prop where
  some_open : ∀ front, front <+: raw → front.count ')' < opened + front.count '('
  max_open : ∀ front, front <+: raw → opened + front.count '(' ≤ front.count ')' + 32

/-- An open text in which the parenthesis behind it closes the last of `opened` open ones. -/
structure Closes (opened : Nat) (raw : List Char) : Prop extends Open opened raw where
  equal : opened + raw.count '(' = raw.count ')' + 1

/-- A text of no characters leaves open what is open. -/
theorem open_nil {opened : Nat} : Open opened [] ↔ 0 < opened ∧ opened ≤ 32 := by
  constructor
  · intro h
    exact ⟨by simpa using h.some_open [] List.nil_prefix, by simpa using h.max_open [] List.nil_prefix⟩
  · intro hall
    refine ⟨fun front hfront => ?_, fun front hfront => ?_⟩ <;> simp [List.prefix_nil.mp hfront, hall]

/-- The parentheses that are open behind one more character. -/
def openBehind (opened : Nat) (c : Char) : Nat :=
  if c = '(' then opened + 1 else if c = ')' then opened - 1 else opened

/-- What is open behind a text can be counted from behind its first character. -/
theorem openBehind_add_count {opened : Nat} (hpos : 0 < opened) (c : Char) (raw : List Char) :
    openBehind opened c + raw.count '(' + (c :: raw).count ')' =
      opened + (c :: raw).count '(' + raw.count ')' := by
  unfold openBehind
  grind

/-- What one more character in front does to the number of open parentheses. -/
theorem open_cons {opened : Nat} {c : Char} {raw : List Char} :
    Open opened (c :: raw) ↔ 0 < opened ∧ opened ≤ 32 ∧ Open (openBehind opened c) raw := by
  unfold openBehind
  constructor
  · intro h
    have hopened := h.some_open [] List.nil_prefix
    have hnested := h.max_open [] List.nil_prefix
    simp only [List.count_nil, Nat.add_zero, Nat.zero_add] at hopened hnested
    refine ⟨hopened, hnested, fun front hfront => ?_, fun front hfront => ?_⟩
    · have := h.some_open (c :: front) (List.prefix_cons_inj c |>.mpr hfront)
      grind
    · have := h.max_open (c :: front) (List.prefix_cons_inj c |>.mpr hfront)
      grind
  · intro hall
    obtain ⟨hopened, hnested, h⟩ := hall
    refine ⟨fun front hfront => ?_, fun front hfront => ?_⟩
    · rcases List.prefix_cons_iff.mp hfront with rfl | ⟨inner, rfl, hinner⟩
      · simpa using hopened
      · have := h.some_open inner hinner
        grind
    · rcases List.prefix_cons_iff.mp hfront with rfl | ⟨inner, rfl, hinner⟩
      · simpa using hnested
      · have := h.max_open inner hinner
        grind

/-- Balanced parentheses, with one open pair around them. -/
theorem closes_one_iff {raw : List Char} : Closes 1 raw ↔ Balanced 31 raw := by
  constructor
  · intro h
    refine ⟨by have := h.equal; omega, fun front hfront => ?_, fun front hfront => ?_⟩
    · have := h.some_open front hfront
      omega
    · have := h.max_open front hfront
      omega
  · intro h
    refine ⟨⟨fun front hfront => ?_, fun front hfront => ?_⟩, by have := h.equal; omega⟩
    · have := h.opened front hfront
      omega
    · have := h.nested front hfront
      omega

/-- A text begins with an open one, up to its end, to a parenthesis that opens too much, or to the one
that closes the last. -/
theorem exists_open {opened : Nat} (hpos : 0 < opened) (hle : opened ≤ 32) (text : List Char) :
    ∃ raw rest, text = raw ++ rest ∧ Open opened raw ∧
      (rest = [] ∨ (∃ behind, rest = '(' :: behind ∧ opened + raw.count '(' = raw.count ')' + 32) ∨
        ∃ behind, rest = ')' :: behind ∧ opened + raw.count '(' = raw.count ')' + 1) := by
  induction text generalizing opened with
  | nil => exact ⟨[], [], rfl, open_nil.mpr ⟨hpos, hle⟩, Or.inl rfl⟩
  | cons c text ih =>
    have step : ∀ {next : Nat}, 0 < next → next ≤ 32 →
        next = openBehind opened c →
        ∃ raw rest, c :: text = raw ++ rest ∧ Open opened raw ∧
          (rest = [] ∨ (∃ behind, rest = '(' :: behind ∧ opened + raw.count '(' = raw.count ')' + 32) ∨
            ∃ behind, rest = ')' :: behind ∧ opened + raw.count '(' = raw.count ')' + 1) := by
      intro next hnext hmax heq
      obtain ⟨raw, rest, rfl, hraw, hrest⟩ := ih hnext hmax
      have hcount := openBehind_add_count hpos c raw
      refine ⟨c :: raw, rest, rfl, open_cons.mpr ⟨hpos, hle, heq ▸ hraw⟩, ?_⟩
      rcases hrest with rfl | ⟨behind, rfl, hdeep⟩ | ⟨behind, rfl, hequal⟩
      · exact Or.inl rfl
      · exact Or.inr (Or.inl ⟨behind, rfl, by omega⟩)
      · exact Or.inr (Or.inr ⟨behind, rfl, by omega⟩)
    by_cases hopen : c = '('
    · subst hopen
      by_cases hmore : opened < 32
      · exact step (Nat.succ_pos opened) hmore rfl
      · refine ⟨[], _, rfl, open_nil.mpr ⟨hpos, hle⟩, Or.inr (Or.inl ⟨text, rfl, ?_⟩)⟩
        simp only [List.count_nil]
        omega
    · by_cases hclose : c = ')'
      · subst hclose
        by_cases hone : opened = 1
        · subst hone
          exact ⟨[], _, rfl, open_nil.mpr ⟨hpos, hle⟩, Or.inr (Or.inr ⟨text, rfl, rfl⟩)⟩
        · exact step (by omega) (by omega) ((if_neg hopen).trans (if_pos rfl)).symm
      · exact step hpos hle ((if_neg hopen).trans (if_neg hclose)).symm

/-- A character of an open text is passed over, whatever stands behind it. -/
theorem Open.balanced_cons {opened : Nat} {c : Char} {raw : List Char} (h : Open opened (c :: raw))
    (start position : Nat) (text : List Char) :
    Component.balanced start opened position (c :: text) =
      (Component.balanced start (openBehind opened c) (position + c.utf8Size) text).map fun found =>
        (c :: found.1, found.2) := by
  obtain ⟨-, -, hraw⟩ := open_cons.mp h
  -- some parentheses are open behind the character and not too many, which is what reading asks
  have hsome : 0 < openBehind opened c := hraw.some_open [] List.nil_prefix
  have hmax : openBehind opened c ≤ Component.maxNesting := by
    simpa [Component.maxNesting] using hraw.max_open [] List.nil_prefix
  unfold openBehind at hsome hmax ⊢
  rw [Component.balanced]
  by_cases hopen : c = '('
  · subst hopen
    rw [if_pos rfl] at hmax
    rw [if_pos rfl, if_pos rfl, if_pos (Nat.lt_of_succ_le hmax)]
    rfl
  · rw [if_neg hopen] at hsome
    rw [if_neg hopen, if_neg hopen]
    by_cases hclose : c = ')'
    · subst hclose
      rw [if_pos rfl] at hsome
      rw [if_pos rfl, if_pos rfl, if_neg (by omega)]
      rfl
    · rw [if_neg hclose, if_neg hclose]

/-- An open text is passed over, whatever stands behind it. -/
theorem Open.balanced_append {opened : Nat} {raw : List Char} (h : Open opened raw) (start position : Nat)
    (rest : List Char) :
    Component.balanced start opened position (raw ++ rest) =
      (Component.balanced start (opened + raw.count '(' - raw.count ')')
        (position + Text.byteLength raw) rest).map fun found => (raw ++ found.1, found.2) := by
  induction raw generalizing opened position with
  | nil =>
    simp only [List.nil_append, List.count_nil, Nat.add_zero, Nat.sub_zero, Text.byteLength, List.foldl_nil]
    cases Component.balanced start opened position rest <;> rfl
  | cons c raw ih =>
    obtain ⟨hpos, -, hraw⟩ := open_cons.mp h
    have hsame := openBehind_add_count hpos c raw
    have hcount : openBehind opened c + raw.count '(' - raw.count ')' =
        opened + (c :: raw).count '(' - (c :: raw).count ')' := by omega
    rw [List.cons_append, h.balanced_cons, ih hraw, hcount, Text.byteLength_cons, Nat.add_assoc]
    cases Component.balanced start _ _ rest <;> rfl

/-- A text that closes parentheses is read up to the one that closes the last. -/
theorem Closes.balanced_eq {opened : Nat} {raw : List Char} (h : Closes opened raw)
    (start position : Nat) (rest : List Char) :
    Component.balanced start opened position (raw ++ ')' :: rest) =
      .ok (raw, ⟨position + Text.byteLength raw + 1, rest⟩) := by
  have hone : opened + raw.count '(' - raw.count ')' = 1 := by
    have := h.equal
    omega
  rw [h.toOpen.balanced_append, hone]
  simp [Component.balanced, Except.map]

/-- An open text that ends is never closed. -/
theorem Open.balanced_eq {opened : Nat} {raw : List Char} (h : Open opened raw) (start position : Nat) :
    Component.balanced start opened position raw = .error (.unbalancedParentheses, start) := by
  have happend := h.balanced_append start position []
  rwa [List.append_nil] at happend

/-- A parenthesis inside 32 open ones is one too many. -/
theorem Open.balanced_too_deep {opened : Nat} {raw : List Char} (h : Open opened raw)
    (hdeep : opened + raw.count '(' = raw.count ')' + 32) (start position : Nat) (rest : List Char) :
    Component.balanced start opened position (raw ++ '(' :: rest) =
      .error (.nestedTooDeeply, position + Text.byteLength raw) := by
  have hmax : opened + raw.count '(' - raw.count ')' = 32 := by omega
  rw [h.balanced_append, hmax]
  rfl

/-- What is read between parentheses closes them. -/
theorem closes_of_balanced {start opened position : Nat} {text raw : List Char} {left : Remaining}
    (hpos : 0 < opened) (hle : opened ≤ 32)
    (h : Component.balanced start opened position text = .ok (raw, left)) : Closes opened raw := by
  obtain ⟨front, rest, rfl, hopen, rfl | ⟨behind, rfl, hdeep⟩ | ⟨behind, rfl, hequal⟩⟩ :=
    exists_open hpos hle text
  · rw [List.append_nil, hopen.balanced_eq] at h
    cases h
  · rw [hopen.balanced_too_deep hdeep] at h
    cases h
  · have hcloses : Closes opened front := ⟨hopen, hequal⟩
    rw [hcloses.balanced_eq] at h
    cases h
    exact hcloses

end TreeQuery.Grammar
