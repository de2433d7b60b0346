import TreeQuery.Proofs.Selector.Chaining
import TreeQuery.Proofs.Selector.Pieces

/-!
# Writing on behind a selector text

What a derivation says of a text it says of the text with more behind it, as long as the last piece of
the text does not go on into what is written there. The one compound that does is a bare `>` at the
end, which takes the blanks behind it.

Main statements: two texts with blanks between them denote the parts of the first and then those of the
second; a `>` between them sets the depth of the first part of the second; and a test behind a text is
chained behind the last predicate of it.
-/

namespace TreeQuery.Grammar

variable {Inner : List Char → Selector → Prop}

/-- A text that neither goes on with an identifier nor opens the parentheses of a parameter. -/
def Apart (more : List Char) : Prop := ∀ c ∈ more.head?, Text.isIdentifierChar c = false ∧ c ≠ '('

/-- A text that begins with an ASCII blank stands apart. -/
theorem apart_of_blank {c : Char} (h : Text.isAsciiBlank c = true) (tail : List Char) :
    Apart (c :: tail) := by
  intro d hd
  cases hd
  have hname := of_isAsciiBlank (p := fun c => !Text.isIdentifierChar c) (by decide) h
  exact ⟨by simpa using hname, ne_of_class h (by decide)⟩

/-- A text that begins with a mark stands apart. -/
theorem apart_of_mark {c : Char} (h : c ∈ marks) (tail : List Char) : Apart (c :: tail) := by
  intro d hd
  cases hd
  refine ⟨(of_mem_marks h).2.2.2, fun heq => ?_⟩
  subst heq
  exact absurd h (by decide)

/-- A maximal identifier is maximal in front of more, too. -/
theorem Name.append {name rest more : List Char} (h : Name name rest) (hmore : rest = [] → Apart more) :
    Name name (rest ++ more) where
  ne_nil := h.ne_nil
  all := h.all
  maximal := by
    cases rest with
    | nil => exact fun c hc => (hmore rfl c hc).1
    | cons d rest => exact h.maximal

/-- A test is the same test in front of more. -/
theorem Test.append {text rest more : List Char} {predicate : Predicate}
    (h : Test Inner text predicate rest) (hmore : rest = [] → Apart more) :
    Test Inner (text ++ more) predicate (rest ++ more) := by
  cases h <;> simp only [List.cons_append, List.append_assoc]
  case id hname => exact .id (hname.append hmore)
  case hasClass hname => exact .hasClass (hname.append hmore)
  case first hname hopen =>
    refine .first (hname.append hmore) ?_
    cases rest with
    | nil => exact fun c hc => (hmore rfl c hc).2
    | cons d rest => exact hopen
  case firstOf hraw => exact .firstOf hraw
  case not hraw hinner => exact .not hraw hinner
  case has hraw hinner => exact .has hraw hinner

/-- Where a text is used up, so is what was left of it. -/
theorem Takes.eq_nil {text rest : List Char} (h : Takes text rest) (hnil : text = []) : rest = [] := by
  obtain ⟨piece, rfl, -⟩ := h
  exact (List.append_eq_nil_iff.mp hnil).2

/-- Tests are the same tests in front of more. -/
theorem Tests.append {text rest more : List Char} {predicates : List Predicate}
    (h : Tests Inner text predicates rest) (hmore : rest = [] → Apart more) :
    Tests Inner (text ++ more) predicates (rest ++ more) := by
  induction h with
  | done rest => exact .done _
  | more first others ih => exact .more (first.append fun hnil => hmore (others.takes.eq_nil hnil)) (ih hmore)

/-- A test behind other tests. -/
theorem Tests.snoc {text middle rest : List Char} {predicates : List Predicate} {predicate : Predicate}
    (h : Tests Inner text predicates middle) (htest : Test Inner middle predicate rest) :
    Tests Inner text (predicates ++ [predicate]) rest := by
  induction h with
  | done middle => exact .more htest (.done rest)
  | more first others ih => exact .more first (ih htest)

/-- What a compound has behind its child mark is the same in front of more. -/
theorem Body.append {text rest more : List Char} {predicates : List Predicate}
    (h : Body Inner text predicates rest) (hmore : rest = [] → Apart more) :
    Body Inner (text ++ more) predicates (rest ++ more) := by
  cases h with
  | any tests => exact .any (tests.append hmore)
  | tag hname tests =>
    rw [List.append_assoc]
    exact .tag (hname.append fun hnil => hmore (tests.takes.eq_nil hnil)) (tests.append hmore)
  | bare tests => exact .bare (tests.append hmore)

/-- A test behind the body of a compound. -/
theorem Body.snoc {text middle rest : List Char} {predicates : List Predicate} {predicate : Predicate}
    (h : Body Inner text predicates middle) (htest : Test Inner middle predicate rest) :
    Body Inner text (predicates ++ [predicate]) rest := by
  cases h with
  | any tests => exact .any (tests.snoc htest)
  | tag hname tests => exact .tag hname (tests.snoc htest)
  | bare tests => exact .bare (tests.snoc htest)

/-- In nothing nothing is written. -/
theorem Body.eq_nil {predicates : List Predicate} {rest : List Char} (h : Body Inner [] predicates rest) :
    predicates = [] := by
  generalize htext : ([] : List Char) = text at h
  cases h with
  | any tests => simp at htext
  | tag hname tests => exact absurd (List.append_eq_nil_iff.mp htext.symm).1 hname.ne_nil
  | bare tests =>
    subst htext
    cases tests with
    | done => rfl
    | more first others =>
      obtain ⟨mark, tail, hnil, -⟩ := first.marked
      simp at hnil

/-- A compound is the same compound in front of more, unless it is a bare `>` at the end. -/
theorem Compound.append {text rest more : List Char} {part : Part} (h : Compound Inner text part rest)
    (hmore : rest = [] → Apart more) :
    Compound Inner (text ++ more) part (rest ++ more) ∨
      rest = [] ∧ part = ⟨some 1, .always⟩ ∧
        ∃ blanks, text = '>' :: blanks ∧ ∀ c ∈ blanks, Text.isAsciiBlank c = true := by
  cases h with
  | @child blanks text _ predicate hblanks hall body hempty =>
    by_cases hnil : text = []
    · subst hnil
      obtain rfl := body.eq_nil
      exact Or.inr ⟨body.takes.eq_nil rfl, rfl, blanks, by simp, hblanks⟩
    · have hbody := body.append hmore
      simp only [List.cons_append, List.append_assoc]
      refine Or.inl (.child hblanks ?_ hbody fun heq => ?_)
      · rwa [List.head?_append_of_ne_nil _ hnil]
      · obtain rfl := List.append_cancel_right heq
        rw [List.head?_append_of_ne_nil _ hnil]
        exact hempty rfl
  | plain body hempty =>
    exact Or.inl (.plain (body.append hmore) fun heq => hempty (List.append_cancel_right heq))

/-- A compound that leaves something is the same compound in front of more. -/
theorem Compound.append_of_ne_nil {text rest : List Char} {part : Part}
    (h : Compound Inner text part rest) (hne : rest ≠ []) (more : List Char) :
    Compound Inner (text ++ more) part (rest ++ more) :=
  (h.append fun hnil => absurd hnil hne).resolve_right fun hbare => hne hbare.1

/-- The last compound of a text, and what the text denotes when that compound is written on. -/
theorem Compounds.exists_last {text : List Char} {parts : List Part} (h : Compounds Inner text parts) :
    ∃ final init part, final <:+ text ∧ parts = init ++ [part] ∧ Compound Inner final part [] ∧
      ∀ more others, Compounds Inner (final ++ more) others →
        Compounds Inner (text ++ more) (init ++ others) := by
  induction h with
  | @last text part compound =>
    exact ⟨text, [], part, List.suffix_rfl, rfl, compound, fun _ _ others => others⟩
  | @blanks text blanks next part parts compound hne hblanks others ih =>
    obtain ⟨final, init, last, hfinal, rfl, hlast, hgrow⟩ := ih
    obtain ⟨piece, htext, -⟩ := compound.takes
    refine ⟨final, part :: init, last, ?_, rfl, hlast, fun more added hadded => ?_⟩
    · rw [htext, ← List.append_assoc]
      exact hfinal.trans (List.suffix_append _ next)
    · have hcompound := compound.append_of_ne_nil (by simp [hne]) more
      rw [List.append_assoc] at hcompound
      exact .blanks hcompound hne hblanks (hgrow more added hadded)
  | @child text next part parts compound others ih =>
    obtain ⟨final, init, last, hfinal, rfl, hlast, hgrow⟩ := ih
    obtain ⟨piece, htext, -⟩ := compound.takes
    refine ⟨final, part :: init, last, ?_, rfl, hlast, fun more added hadded => ?_⟩
    · rw [htext]
      exact hfinal.trans (List.suffix_append _ _)
    · exact .child (compound.append_of_ne_nil (by simp) more) (hgrow more added hadded)

/-- Two texts with blanks between them denote the parts of both, unless the first one ends with `>`. -/
theorem Compounds.append_blanks {first second blanks : List Char} {parts others : List Part}
    (hfirst : Compounds Inner first parts) (hsecond : Compounds Inner second others)
    (hlast : ∀ c ∈ first.getLast?, c ≠ '>' ∧ Text.isAsciiBlank c = false) (hne : blanks ≠ [])
    (hblanks : ∀ c ∈ blanks, Text.isAsciiBlank c = true) :
    Compounds Inner (first ++ (blanks ++ second)) (parts ++ others) := by
  obtain ⟨final, init, part, ⟨front, rfl⟩, rfl, hfinal, hgrow⟩ := hfirst.exists_last
  rw [List.append_assoc init]
  apply hgrow
  obtain ⟨blank, tail, rfl⟩ := List.exists_cons_of_ne_nil hne
  have hblank := hblanks blank List.mem_cons_self
  rcases hfinal.append fun _ => apart_of_blank hblank (tail ++ second) with
    hcompound | ⟨-, -, run, rfl, hrun⟩
  · have hspaced : Compound Inner (final ++ ((blank :: tail) ++ second)) part ((blank :: tail) ++ second) :=
      hcompound
    exact .blanks hspaced hne hblanks hsecond
  · -- a bare `>` at the end would be the last character, or a blank behind it would
    have hbare : '>' :: run ≠ [] := List.cons_ne_nil '>' run
    obtain ⟨c, hc⟩ := Option.isSome_iff_exists.mp (List.getLast?_isSome.mpr hbare)
    have hend := hlast c (by rwa [List.getLast?_append_of_ne_nil front hbare])
    rcases List.mem_cons.mp (List.mem_of_getLast? hc) with rfl | hmem
    · exact absurd rfl hend.1
    · exact absurd (hrun c hmem) (by simp [hend.2])

/-- A compound behind a new child mark, if it had none. -/
theorem Compound.mark {text rest blanks : List Char} {part : Part} (h : Compound Inner text part rest)
    (hhead : ∀ c ∈ text.head?, c ≠ '>') (hblanks : ∀ c ∈ blanks, Text.isAsciiBlank c = true) :
    Compound Inner ('>' :: (blanks ++ text)) { part with depth := some 1 } rest := by
  cases h with
  | child => exact absurd rfl (hhead '>' rfl)
  | plain body hempty =>
    obtain ⟨c, tail, rfl, -, hblank⟩ := body.head hempty
    refine .child hblanks (fun d hd => ?_) body fun heq => absurd heq hempty
    cases hd
    exact hblank

/-- A child mark in front of a text that begins with none sets the depth of its first part. -/
theorem Compounds.mark {text blanks : List Char} {part : Part} {parts : List Part}
    (h : Compounds Inner text (part :: parts)) (hhead : ∀ c ∈ text.head?, c ≠ '>')
    (hblanks : ∀ c ∈ blanks, Text.isAsciiBlank c = true) :
    Compounds Inner ('>' :: (blanks ++ text)) ({ part with depth := some 1 } :: parts) := by
  cases h with
  | last compound => exact .last (compound.mark hhead hblanks)
  | blanks compound hne hrun others => exact .blanks (compound.mark hhead hblanks) hne hrun others
  | child compound others => exact .child (compound.mark hhead hblanks) others

/-- A text behind another that begins with `>`, with blanks between them or none. -/
theorem Compounds.append_child {first next blanks : List Char} {parts others : List Part}
    (hfirst : Compounds Inner first parts) (hnext : Compounds Inner ('>' :: next) others)
    (hblanks : ∀ c ∈ blanks, Text.isAsciiBlank c = true) :
    Compounds Inner (first ++ (blanks ++ '>' :: next)) (parts ++ others) := by
  obtain ⟨final, init, part, -, rfl, hfinal, hgrow⟩ := hfirst.exists_last
  rw [List.append_assoc init]
  apply hgrow
  have hapart : Apart (blanks ++ '>' :: next) := by
    cases blanks with
    | nil =>
      intro c hc
      cases hc
      decide
    | cons blank tail => exact apart_of_blank (hblanks blank List.mem_cons_self) _
  rcases hfinal.append fun _ => hapart with hcompound | ⟨-, rfl, run, rfl, hrun⟩
  · cases blanks with
    | nil => exact .child hcompound hnext
    | cons blank tail =>
      have hspaced : Compound Inner (final ++ ((blank :: tail) ++ '>' :: next)) part
          ((blank :: tail) ++ '>' :: next) := hcompound
      exact .blanks hspaced (List.cons_ne_nil blank tail) hblanks hnext
  · -- a bare `>` takes the blanks and leaves the other `>`
    have hall : ∀ c ∈ run ++ blanks, Text.isAsciiBlank c = true := fun c hc =>
      (List.mem_append.mp hc).elim (hrun c) (hblanks c)
    have hbare : Compound Inner ('>' :: ((run ++ blanks) ++ '>' :: next)) ⟨some 1, .always⟩ ('>' :: next) :=
      .child hall (by simp; decide) (.bare (.done _)) (by simp)
    rw [List.append_assoc] at hbare
    exact .child hbare hnext

/-- A test behind a compound is chained behind its predicate. -/
theorem Compound.append_test {text more : List Char} {part : Part} {extra : Predicate}
    (h : Compound Inner text part []) (htest : Test Inner more extra []) :
    ∃ earlier : Option Predicate, part.predicate = earlier.getD .always ∧
      Compound Inner (text ++ more) ⟨part.depth, .chain earlier extra⟩ [] := by
  obtain ⟨mark, tail, rfl, hmark⟩ := htest.marked
  have hapart : ([] : List Char) = [] → Apart (mark :: tail) := fun _ => apart_of_mark hmark tail
  cases h with
  | @child blanks text _ predicates hblanks hall body hempty =>
    have hbody := (body.append hapart).snoc htest
    have hhead : ∀ c ∈ (text ++ mark :: tail).head?, Text.isAsciiBlank c = false := by
      cases text with
      | nil =>
        intro c hc
        cases hc
        exact (of_mem_marks hmark).2.2.1
      | cons c text => exact hall
    have hcompound := Compound.child hblanks hhead hbody (by simp)
    rw [← List.append_assoc, ← List.cons_append, ← chain_soFar body.single] at hcompound
    exact ⟨soFar predicates, (soFar_getD predicates).symm, hcompound⟩
  | @plain _ _ predicates body hempty =>
    have hbody := (body.append hapart).snoc htest
    have hcompound := Compound.plain hbody (by simp)
    rw [← chain_soFar body.single] at hcompound
    exact ⟨soFar predicates, (soFar_getD predicates).symm, hcompound⟩

/-- A test behind a text is chained behind the predicate of its last part. -/
theorem Compounds.append_test {text more : List Char} {parts : List Part} {extra : Predicate}
    (h : Compounds Inner text parts) (htest : Test Inner more extra []) :
    ∃ (init : List Part) (depth : Option Nat) (earlier : Option Predicate),
      parts = init ++ [⟨depth, earlier.getD .always⟩] ∧
      Compounds Inner (text ++ more) (init ++ [⟨depth, .chain earlier extra⟩]) := by
  obtain ⟨final, init, part, -, rfl, hfinal, hgrow⟩ := h.exists_last
  obtain ⟨earlier, hpredicate, hcompound⟩ := hfinal.append_test htest
  obtain ⟨depth, predicate⟩ := part
  change predicate = _ at hpredicate
  subst hpredicate
  exact ⟨init, depth, earlier, rfl, hgrow _ _ (.last hcompound)⟩

end TreeQuery.Grammar
