import Mathlib.Tactic.Common
import TreeQuery.Proofs.Selector.Grammar

/-!
# Pieces of selector text

What the pieces of a selector text look like from outside. A test begins with its mark. A compound
begins with a character that says where it goes on, which is never a blank. And in the piece that a
relation of the grammar takes from a text the parentheses come in pairs, so a limit on the open ones is
inherited by whatever is left of the text.
-/

namespace TreeQuery.Grammar

variable {Inner Inner' : List Char → Selector → Prop}

/-- The marks that tests begin with. -/
def marks : List Char := ['#', '.', ':']

/-- A mark is neither of the characters that a compound treats in its own way. -/
theorem of_mem_marks {c : Char} (h : c ∈ marks) :
    c ≠ '>' ∧ c ≠ '*' ∧ Text.isAsciiBlank c = false ∧ Text.isIdentifierChar c = false := by
  simp only [marks, List.mem_cons, List.not_mem_nil, or_false] at h
  rcases h with rfl | rfl | rfl <;> decide

/-- A test begins with its mark. -/
theorem Test.marked {text rest : List Char} {predicate : Predicate} (h : Test Inner text predicate rest) :
    ∃ mark tail, text = mark :: tail ∧ mark ∈ marks := by
  cases h <;> exact ⟨_, _, rfl, by decide⟩

/-- Where tests take something from a text it begins with a mark. -/
theorem Tests.marked {text rest : List Char} {predicates : List Predicate}
    (h : Tests Inner text predicates rest) :
    text = rest ∨ ∃ mark tail, text = mark :: tail ∧ mark ∈ marks := by
  cases h with
  | done => exact Or.inl rfl
  | more first others => exact Or.inr first.marked

/-- A character of a class is not one that stands outside of it. -/
theorem ne_of_class {p : Char → Bool} {c d : Char} (hc : p c = true) (hd : p d = false) : c ≠ d := by
  intro heq
  rw [heq, hd] at hc
  contradiction

/-- What is true of the ASCII blanks one by one is true of every ASCII blank. -/
theorem of_isAsciiBlank {p : Char → Bool} (hall : [' ', '\t', '\n', '\x0c', '\r'].all p = true) {c : Char}
    (h : Text.isAsciiBlank c = true) : p c = true := by
  apply List.all_eq_true.mp hall
  simpa [Text.isAsciiBlank, or_assoc] using h

/-- A character of identifiers is no blank. -/
theorem isAsciiBlank_of_isIdentifierChar {c : Char} (h : Text.isIdentifierChar c = true) :
    Text.isAsciiBlank c = false := by
  by_contra hblank
  rw [Bool.not_eq_false] at hblank
  have hname := of_isAsciiBlank (p := fun c => !Text.isIdentifierChar c) (by decide) hblank
  simp [h] at hname

/-- An identifier has a first character. -/
theorem Name.head {name rest : List Char} (h : Name name rest) :
    ∃ c tail, name = c :: tail ∧ Text.isIdentifierChar c = true := by
  obtain ⟨c, tail, rfl⟩ := List.exists_cons_of_ne_nil h.ne_nil
  exact ⟨c, tail, rfl, h.all c List.mem_cons_self⟩

/-- Where a compound takes something from a text, that begins with neither a blank nor `>`. -/
theorem Body.head {text rest : List Char} {predicates : List Predicate}
    (h : Body Inner text predicates rest) (hne : text ≠ rest) :
    ∃ c tail, text = c :: tail ∧ c ≠ '>' ∧ Text.isAsciiBlank c = false := by
  cases h with
  | any tests => exact ⟨'*', _, rfl, by decide, by decide⟩
  | tag hname tests =>
    obtain ⟨c, tail, rfl, hc⟩ := hname.head
    exact ⟨c, _, rfl, ne_of_class hc (by decide), isAsciiBlank_of_isIdentifierChar hc⟩
  | bare tests =>
    obtain ⟨mark, tail, rfl, hmark⟩ := tests.marked.resolve_left hne
    have := of_mem_marks hmark
    exact ⟨mark, tail, rfl, this.1, this.2.2.1⟩

/-- A compound does not begin with a blank. -/
theorem Compound.head {text rest : List Char} {part : Part} (h : Compound Inner text part rest) :
    ∃ c tail, text = c :: tail ∧ Text.isAsciiBlank c = false := by
  cases h with
  | child hblanks hall body hempty => exact ⟨'>', _, rfl, by decide⟩
  | plain body hempty =>
    obtain ⟨c, tail, htext, -, hblank⟩ := body.head hempty
    exact ⟨c, tail, htext, hblank⟩

/-- A run of compounds does not begin with a blank. -/
theorem Compounds.head {text : List Char} {parts : List Part} (h : Compounds Inner text parts) :
    ∃ c tail, text = c :: tail ∧ Text.isAsciiBlank c = false := by
  cases h with
  | last compound => exact compound.head
  | blanks compound => exact compound.head
  | child compound => exact compound.head

/-- Parentheses that come in pairs: as many close as open, and none closes before it was opened. -/
structure Paired (piece : List Char) : Prop where
  equal : piece.count '(' = piece.count ')'
  opened : ∀ front, front <+: piece → front.count ')' ≤ front.count '('

/-- A text without parentheses. -/
theorem paired_of_forall {piece : List Char} (h : ∀ c ∈ piece, c ≠ '(' ∧ c ≠ ')') : Paired piece where
  equal := by
    rw [List.count_eq_zero.mpr fun hc => (h _ hc).1 rfl, List.count_eq_zero.mpr fun hc => (h _ hc).2 rfl]
  opened := by
    intro front hfront
    rw [List.count_eq_zero.mpr fun hc => (h _ (hfront.subset hc)).2 rfl]
    exact Nat.zero_le _

/-- Pairs of parentheses one behind the other. -/
theorem Paired.append {first second : List Char} (h : Paired first) (h' : Paired second) :
    Paired (first ++ second) where
  equal := by rw [List.count_append, List.count_append, h.equal, h'.equal]
  opened := by
    intro front hfront
    rcases List.prefix_or_prefix_of_prefix hfront (List.prefix_append first second) with hle | ⟨more, rfl⟩
    · exact h.opened front hle
    · have := h'.opened more ((List.prefix_append_right_inj first).mp hfront)
      have := h.equal
      rw [List.count_append, List.count_append]
      omega

/-- A pair of parentheses around balanced ones. -/
theorem Balanced.paired {limit : Nat} {raw : List Char} (h : Balanced limit raw) :
    Paired ('(' :: (raw ++ [')'])) where
  equal := by simp [List.count_append, h.equal]
  opened := by
    intro front hfront
    rcases List.prefix_cons_iff.mp hfront with rfl | ⟨inner, rfl, hinner⟩
    · exact Nat.le_refl _
    · have hcount : inner.count ')' ≤ inner.count '(' + 1 := by
        rcases List.prefix_concat_iff.mp hinner with rfl | hle
        · have hclose : [')'].count ')' = 1 := rfl
          have hopen : [')'].count '(' = 0 := rfl
          rw [List.count_append, List.count_append, hclose, hopen, h.equal]
        · have := h.opened inner hle
          omega
      rw [List.count_cons_self, List.count_cons_of_ne (by decide)]
      omega

/-- A piece of a text, in front of a rest, whose parentheses come in pairs. -/
def Takes (text rest : List Char) : Prop := ∃ piece, text = piece ++ rest ∧ Paired piece

theorem Takes.refl (text : List Char) : Takes text text := ⟨[], rfl, paired_of_forall (by simp)⟩

/-- Pieces one behind the other are one piece. -/
theorem Takes.trans {text middle rest : List Char} (h : Takes text middle) (h' : Takes middle rest) :
    Takes text rest := by
  obtain ⟨piece, rfl, hpiece⟩ := h
  obtain ⟨piece', rfl, hpiece'⟩ := h'
  exact ⟨piece ++ piece', (List.append_assoc _ _ _).symm, hpiece.append hpiece'⟩

/-- A piece without parentheses. -/
theorem takes_of_forall {piece : List Char} (h : ∀ c ∈ piece, c ≠ '(' ∧ c ≠ ')') (rest : List Char) :
    Takes (piece ++ rest) rest := ⟨piece, rfl, paired_of_forall h⟩

/-- A single character that is no parenthesis. -/
theorem takes_mark (c : Char) (h : c ≠ '(' ∧ c ≠ ')') (rest : List Char) : Takes (c :: rest) rest :=
  takes_of_forall (fun _ hc => List.mem_singleton.mp hc ▸ h) rest

/-- An identifier has no parentheses. -/
theorem Name.takes {name rest : List Char} (h : Name name rest) : Takes (name ++ rest) rest :=
  takes_of_forall (fun c hc => ⟨ne_of_class (h.all c hc) (by decide), ne_of_class (h.all c hc) (by decide)⟩)
    rest

/-- The name of a function behind its mark has no parentheses. -/
theorem takes_call {name : List Char} (h : name.all Text.isIdentifierChar = true) (rest : List Char) :
    Takes (':' :: (name ++ rest)) rest := by
  apply (takes_mark ':' (by decide) _).trans
  apply takes_of_forall
  intro c hc
  have hname := List.all_eq_true.mp h c hc
  exact ⟨ne_of_class hname (by decide), ne_of_class hname (by decide)⟩

/-- A parameter between its parentheses is a piece. -/
theorem Balanced.takes {limit : Nat} {raw : List Char} (h : Balanced limit raw) (rest : List Char) :
    Takes ('(' :: (raw ++ ')' :: rest)) rest := ⟨'(' :: (raw ++ [')']), by simp, h.paired⟩

/-- A test takes a piece. -/
theorem Test.takes {text rest : List Char} {predicate : Predicate} (h : Test Inner text predicate rest) :
    Takes text rest := by
  cases h with
  | id hname => exact (takes_mark '#' (by decide) _).trans hname.takes
  | hasClass hname => exact (takes_mark '.' (by decide) _).trans hname.takes
  | first hname hopen => exact (takes_mark ':' (by decide) _).trans hname.takes
  | firstOf hraw => exact (takes_call (by decide) _).trans (hraw.takes rest)
  | not hraw hinner => exact (takes_call (by decide) _).trans (hraw.takes rest)
  | has hraw hinner => exact (takes_call (by decide) _).trans (hraw.takes rest)

/-- A run of tests takes a piece. -/
theorem Tests.takes {text rest : List Char} {predicates : List Predicate}
    (h : Tests Inner text predicates rest) : Takes text rest := by
  induction h with
  | done rest => exact .refl rest
  | more first others ih => exact first.takes.trans ih

/-- What a compound has behind its child mark is a piece. -/
theorem Body.takes {text rest : List Char} {predicates : List Predicate}
    (h : Body Inner text predicates rest) : Takes text rest := by
  cases h with
  | any tests => exact (takes_mark '*' (by decide) _).trans tests.takes
  | tag hname tests => exact hname.takes.trans tests.takes
  | bare tests => exact tests.takes

/-- Blanks are no parentheses. -/
theorem takes_of_isAsciiBlank {blanks : List Char} (h : ∀ c ∈ blanks, Text.isAsciiBlank c = true)
    (rest : List Char) : Takes (blanks ++ rest) rest :=
  takes_of_forall (fun c hc => ⟨ne_of_class (h c hc) (by decide), ne_of_class (h c hc) (by decide)⟩) rest

/-- A child mark and the blanks behind it are a piece. -/
theorem takes_child {blanks : List Char} (h : ∀ c ∈ blanks, Text.isAsciiBlank c = true)
    (rest : List Char) : Takes ('>' :: (blanks ++ rest)) rest :=
  (takes_mark '>' (by decide) _).trans (takes_of_isAsciiBlank h rest)

/-- A compound takes a piece. -/
theorem Compound.takes {text rest : List Char} {part : Part} (h : Compound Inner text part rest) :
    Takes text rest := by
  cases h with
  | child hblanks hall body hempty => exact (takes_child hblanks _).trans body.takes
  | plain body hempty => exact body.takes

/-- In a run of compounds the parentheses come in pairs. -/
theorem Compounds.paired {text : List Char} {parts : List Part} (h : Compounds Inner text parts) :
    Paired text := by
  induction h with
  | last compound =>
    obtain ⟨piece, rfl, hpiece⟩ := compound.takes
    rwa [List.append_nil]
  | blanks compound hne hblanks others ih =>
    obtain ⟨piece, rfl, hpiece⟩ := compound.takes.trans (takes_of_isAsciiBlank hblanks _)
    exact hpiece.append ih
  | child compound others ih =>
    obtain ⟨piece, rfl, hpiece⟩ := compound.takes
    exact hpiece.append ih

/-- A parameter that stands in a text behind a piece of it. -/
structure Parameter (raw text : List Char) : Prop where
  balanced : Balanced 31 raw
  takes : ∃ rest, Takes text ('(' :: (raw ++ ')' :: rest))

/-- A parameter of what is left of a text is one of the text. -/
theorem Parameter.of_takes {raw text rest : List Char} (h : Parameter raw rest) (htakes : Takes text rest) :
    Parameter raw text := by
  obtain ⟨hraw, left, hleft⟩ := h
  exact ⟨hraw, left, htakes.trans hleft⟩

/-- The parameter behind the name of a function. -/
theorem Balanced.parameter {raw : List Char} (h : Balanced 31 raw) {name : List Char}
    (hname : name.all Text.isIdentifierChar = true) (rest : List Char) :
    Parameter raw (':' :: (name ++ '(' :: (raw ++ ')' :: rest))) := ⟨h, rest, takes_call hname _⟩

/-- A test depends on what its parameter denotes, and on nothing else that is denoted. -/
theorem Test.imp {text rest : List Char} {predicate : Predicate} (h : Test Inner text predicate rest)
    (himp : ∀ raw selector, Parameter raw text → Inner raw selector → Inner' raw selector) :
    Test Inner' text predicate rest := by
  cases h with
  | id hname => exact .id hname
  | hasClass hname => exact .hasClass hname
  | first hname hopen => exact .first hname hopen
  | firstOf hraw => exact .firstOf hraw
  | not hraw hinner =>
    exact .not hraw (himp _ _ (hraw.parameter (by decide) _) hinner)
  | has hraw hinner =>
    exact .has hraw (himp _ _ (hraw.parameter (by decide) _) hinner)

/-- Tests depend on what their parameters denote. -/
theorem Tests.imp {text rest : List Char} {predicates : List Predicate}
    (h : Tests Inner text predicates rest)
    (himp : ∀ raw selector, Parameter raw text → Inner raw selector → Inner' raw selector) :
    Tests Inner' text predicates rest := by
  induction h with
  | done rest => exact .done rest
  | more first others ih =>
    exact .more (first.imp himp) (ih fun raw selector hraw => himp raw selector (hraw.of_takes first.takes))

/-- What a compound has behind its child mark depends on what its parameters denote. -/
theorem Body.imp {text rest : List Char} {predicates : List Predicate} (h : Body Inner text predicates rest)
    (himp : ∀ raw selector, Parameter raw text → Inner raw selector → Inner' raw selector) :
    Body Inner' text predicates rest := by
  cases h with
  | any tests =>
    have htakes := takes_mark '*' (by decide)
    exact .any (tests.imp fun raw selector hraw => himp raw selector (hraw.of_takes (htakes _)))
  | tag hname tests =>
    exact .tag hname (tests.imp fun raw selector hraw => himp raw selector (hraw.of_takes hname.takes))
  | bare tests => exact .bare (tests.imp himp)

/-- A compound depends on what its parameters denote. -/
theorem Compound.imp {text rest : List Char} {part : Part} (h : Compound Inner text part rest)
    (himp : ∀ raw selector, Parameter raw text → Inner raw selector → Inner' raw selector) :
    Compound Inner' text part rest := by
  cases h with
  | child hblanks hall body hempty =>
    refine .child hblanks hall (body.imp fun raw selector hraw => ?_) hempty
    exact himp raw selector (hraw.of_takes (takes_child hblanks _))
  | plain body hempty => exact .plain (body.imp himp) hempty

/-- A run of compounds depends on what its parameters denote. -/
theorem Compounds.imp {text : List Char} {parts : List Part} (h : Compounds Inner text parts)
    (himp : ∀ raw selector, Parameter raw text → Inner raw selector → Inner' raw selector) :
    Compounds Inner' text parts := by
  induction h with
  | last compound => exact .last (compound.imp himp)
  | blanks compound hne hblanks others ih =>
    have htakes := compound.takes.trans (takes_of_isAsciiBlank hblanks _)
    exact .blanks (compound.imp himp) hne hblanks
      (ih fun raw selector hraw => himp raw selector (hraw.of_takes htakes))
  | child compound others ih =>
    exact .child (compound.imp himp)
      (ih fun raw selector hraw => himp raw selector (hraw.of_takes compound.takes))

end TreeQuery.Grammar
