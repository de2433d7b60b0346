import TreeQuery.Proofs.Query.Combinators

/-!
# Where a text falls into parts

How many parts a text compiles to can be seen without reading it. What lies between parentheses is all one
piece, whatever stands there, and outside of them only `>` and the ASCII blanks separate anything. A run
of blanks beside a `>` separates nothing that the `>` does not, and a `>` in front of everything only
bounds the depth of the first part.

Main statement: a text that compiles is a single test exactly when neither `>` nor an ASCII blank stands in
it outside of parentheses, and it has one part more than it has seams.
-/

namespace TreeQuery.Grammar

/-- As many parentheses close in a front part of a text as open. In a text that compiles none closes before
it was opened, so behind such a part all are closed. -/
def Outside (front : List Char) : Prop := front.count '(' = front.count ')'

/-- The characters that stand between parts. -/
def separates (c : Char) : Bool := c == '>' || Text.isAsciiBlank c

/-- Somewhere in a text, outside of all parentheses, stands a character that separates parts. -/
def Parted (text : List Char) : Prop :=
  ∃ front c rest, text = front ++ c :: rest ∧ Outside front ∧ separates c = true

/-- A place of a text, between what stands in front of it and the rest, where one part ends and another
begins: a `>` that is not the first character, or the beginning of a maximal run of ASCII blanks that has
no `>` directly before or behind it, in either case outside of all parentheses. -/
def Seam (front rest : List Char) : Prop :=
  Outside front ∧
    (front ≠ [] ∧ rest.head? = some '>' ∨
      (∃ c ∈ rest.head?, Text.isAsciiBlank c = true) ∧ (∀ c ∈ front.getLast?, separates c = false) ∧
        (rest.dropWhile Text.isAsciiBlank).head? ≠ some '>')

instance (front : List Char) : Decidable (Outside front) :=
  inferInstanceAs (Decidable (front.count '(' = front.count ')'))

instance (front rest : List Char) : Decidable (Seam front rest) :=
  decidable_of_iff (Outside front ∧ (front ≠ [] ∧ rest.head? = some '>' ∨
      rest.head?.any Text.isAsciiBlank = true ∧ front.getLast?.all (fun c => !separates c) = true ∧
        (rest.dropWhile Text.isAsciiBlank).head? ≠ some '>')) <| by
    simp only [Seam, Option.any_eq_true, Option.all_eq_true, Bool.not_eq_true', Option.mem_def]

instance (text : List Char) : Decidable (Parted text) :=
  decidable_of_iff (∃ front ∈ text.inits, Outside front ∧
      (text.drop front.length).head?.any separates = true) <| by
    constructor
    · rintro ⟨front, hprefix, hfront, hhead⟩
      obtain ⟨left, rfl⟩ := (List.mem_inits _ _).mp hprefix
      rw [List.drop_left] at hhead
      cases left with
      | nil => simp at hhead
      | cons c rest => exact ⟨front, c, rest, rfl, hfront, by simpa using hhead⟩
    · rintro ⟨front, c, rest, rfl, hfront, hc⟩
      exact ⟨front, (List.mem_inits _ _).mpr (List.prefix_append front _), hfront, by simpa using hc⟩

/-- The number of seams in the rest of a text. -/
def seamsFrom (front : List Char) : List Char → Nat
  | [] => 0
  | c :: rest => (if Seam front (c :: rest) then 1 else 0) + seamsFrom (front ++ [c]) rest

/-- The number of seams in a text. -/
def seams (text : List Char) : Nat := seamsFrom [] text

/-- Behind what closes its parentheses a text is outside of them where the rest of it is. -/
theorem Outside.append_iff {first : List Char} (h : Outside first) (second : List Char) :
    Outside (first ++ second) ↔ Outside second := by
  unfold Outside at h ⊢
  rw [List.count_append, List.count_append, h]
  exact Nat.add_left_cancel_iff

/-- Behind what closes its parentheses a text is parted where one of the two is. -/
theorem Outside.parted_append_iff {first : List Char} (h : Outside first) (second : List Char) :
    Parted (first ++ second) ↔ Parted first ∨ Parted second := by
  constructor
  · rintro ⟨front, c, rest, htext, hfront, hc⟩
    rcases List.append_eq_append_iff.mp htext with ⟨more, rfl, hmore⟩ | ⟨more, rfl, hmore⟩
    · exact Or.inr ⟨more, c, rest, hmore, (h.append_iff more).mp hfront, hc⟩
    · cases more with
      | nil => exact Or.inr ⟨[], c, rest, hmore.symm, rfl, hc⟩
      | cons d tail =>
        obtain ⟨rfl, -⟩ := List.cons.inj hmore
        exact Or.inl ⟨front, c, tail, rfl, hfront, hc⟩
  · rintro (⟨front, c, rest, rfl, hfront, hc⟩ | ⟨front, c, rest, rfl, hfront, hc⟩)
    · exact ⟨front, c, rest ++ second, by simp, hfront, hc⟩
    · exact ⟨first ++ front, c, rest, by simp, (h.append_iff front).mpr hfront, hc⟩

/-- A piece of a text that no character parts. -/
structure Solid (piece : List Char) : Prop where
  outside : Outside piece
  whole : ¬ Parted piece

/-- A text without parentheses closes all of them. -/
theorem outside_of_forall {piece : List Char} (h : ∀ c ∈ piece, c ≠ '(' ∧ c ≠ ')') : Outside piece :=
  (paired_of_forall h).equal

/-- Blanks close no parentheses. -/
theorem outside_of_isAsciiBlank {blanks : List Char} (h : ∀ c ∈ blanks, Text.isAsciiBlank c = true) :
    Outside blanks :=
  outside_of_forall fun c hc => ⟨ne_of_class (h c hc) (by decide), ne_of_class (h c hc) (by decide)⟩

/-- A child mark and the blanks behind it close no parentheses. -/
theorem outside_child {blanks : List Char} (h : ∀ c ∈ blanks, Text.isAsciiBlank c = true) :
    Outside ('>' :: blanks) := by
  have hmark : Outside ['>'] := rfl
  exact (hmark.append_iff blanks).mpr (outside_of_isAsciiBlank h)

/-- A blank separates. -/
theorem separates_of_isAsciiBlank {c : Char} (h : Text.isAsciiBlank c = true) : separates c = true := by
  simp [separates, h]

/-- Characters that are neither parentheses nor separate anything. -/
theorem solid_of_forall {piece : List Char}
    (h : ∀ c ∈ piece, c ≠ '(' ∧ c ≠ ')' ∧ separates c = false) : Solid piece where
  outside := outside_of_forall fun c hc => ⟨(h c hc).1, (h c hc).2.1⟩
  whole := by
    rintro ⟨front, c, rest, rfl, -, hc⟩
    rw [(h c (by simp)).2.2] at hc
    contradiction

/-- A character of identifiers is no parenthesis and does not separate. -/
theorem of_isIdentifierChar {c : Char} (h : Text.isIdentifierChar c = true) :
    c ≠ '(' ∧ c ≠ ')' ∧ separates c = false := by
  have hchild : c ≠ '>' := ne_of_class h (by decide)
  refine ⟨ne_of_class h (by decide), ne_of_class h (by decide), ?_⟩
  simp [separates, hchild, isAsciiBlank_of_isIdentifierChar h]

/-- Solid pieces one behind the other. -/
theorem Solid.append {first second : List Char} (h : Solid first) (h' : Solid second) :
    Solid (first ++ second) where
  outside := (h.outside.append_iff second).mpr h'.outside
  whole := by
    rw [h.outside.parted_append_iff, not_or]
    exact ⟨h.whole, h'.whole⟩

/-- A solid piece does not begin with a character that separates. -/
theorem Solid.head {piece : List Char} (h : Solid piece) : ∀ c ∈ piece.head?, separates c = false := by
  intro c hc
  obtain ⟨tail, rfl⟩ := List.head?_eq_some_iff.mp hc
  by_contra hseparates
  exact h.whole ⟨[], c, tail, rfl, rfl, by simpa using hseparates⟩

/-- A solid piece does not end with a character that separates. -/
theorem Solid.last {piece : List Char} (h : Solid piece) : ∀ c ∈ piece.getLast?, separates c = false := by
  intro c hc
  obtain ⟨init, rfl⟩ := List.getLast?_eq_some_iff.mp hc
  by_contra hseparates
  have hc : separates c = true := by simpa using hseparates
  -- a parenthesis does not separate, so the piece is outside of them in front of its last character, too
  have hparenthesis : c ≠ '(' ∧ c ≠ ')' := ⟨ne_of_class hc (by decide), ne_of_class hc (by decide)⟩
  have hinit : Outside init := by
    have houtside := h.outside
    simpa [Outside, List.count_append, hparenthesis] using houtside
  exact h.whole ⟨init, c, [], rfl, hinit, hc⟩

/-- Between the parentheses of a parameter nothing is outside of them. -/
theorem Balanced.solid {limit : Nat} {raw : List Char} (h : Balanced limit raw) :
    Solid ('(' :: (raw ++ [')'])) where
  outside := h.paired.equal
  whole := by
    rintro ⟨front, c, rest, htext, hfront, hc⟩
    cases front with
    | nil =>
      obtain ⟨rfl, -⟩ := List.cons.inj htext
      exact absurd hc (by decide)
    | cons d inner =>
      obtain ⟨rfl, htail⟩ := List.cons.inj htext
      rcases List.append_eq_append_iff.mp htail with ⟨more, rfl, hmore⟩ | ⟨more, rfl, hmore⟩
      · have hlast : [')'] = more ++ c :: rest := hmore
        cases more with
        | nil =>
          obtain ⟨rfl, -⟩ := List.cons.inj hlast
          exact absurd hc (by decide)
        | cons => simp at hlast
      · have hopened := h.opened inner (List.prefix_append inner more)
        simp only [Outside, List.count_cons_self] at hfront
        rw [List.count_cons_of_ne (by decide)] at hfront
        omega

/-- A solid piece of a text, in front of a rest. -/
def TakesSolid (text rest : List Char) : Prop := ∃ piece, text = piece ++ rest ∧ Solid piece

/-- Solid pieces one behind the other are one piece. -/
theorem TakesSolid.trans {text middle rest : List Char} (h : TakesSolid text middle)
    (h' : TakesSolid middle rest) : TakesSolid text rest := by
  obtain ⟨piece, rfl, hpiece⟩ := h
  obtain ⟨piece', rfl, hpiece'⟩ := h'
  exact ⟨piece ++ piece', (List.append_assoc _ _ _).symm, hpiece.append hpiece'⟩

/-- A mark and an identifier behind it are solid. -/
theorem takesSolid_named (mark : Char) (name rest : List Char)
    (hmark : mark ≠ '(' ∧ mark ≠ ')' ∧ separates mark = false)
    (hname : ∀ c ∈ name, Text.isIdentifierChar c = true) : TakesSolid (mark :: (name ++ rest)) rest := by
  refine ⟨mark :: name, rfl, solid_of_forall fun c hc => ?_⟩
  rcases List.mem_cons.mp hc with rfl | hc
  · exact hmark
  · exact of_isIdentifierChar (hname c hc)

/-- A function with its parameter is solid. -/
theorem Balanced.takesSolid {raw : List Char} (h : Balanced 31 raw) {name : List Char}
    (hname : name.all Text.isIdentifierChar = true) (rest : List Char) :
    TakesSolid (':' :: (name ++ '(' :: (raw ++ ')' :: rest))) rest := by
  have hcall := takesSolid_named ':' name ('(' :: (raw ++ ')' :: rest)) (by decide)
    (List.all_eq_true.mp hname)
  exact hcall.trans ⟨'(' :: (raw ++ [')']), by simp, h.solid⟩

section

variable {Inner : List Char → Selector → Prop} {text rest : List Char}

/-- A test is solid. -/
theorem Test.takesSolid {predicate : Predicate} (h : Test Inner text predicate rest) :
    TakesSolid text rest := by
  cases h with
  | id hname => exact takesSolid_named _ _ rest (by decide) hname.all
  | hasClass hname => exact takesSolid_named _ _ rest (by decide) hname.all
  | first hname hopen => exact takesSolid_named _ _ rest (by decide) hname.all
  | firstOf hraw => exact hraw.takesSolid (by decide) rest
  | not hraw hinner => exact hraw.takesSolid (by decide) rest
  | has hraw hinner => exact hraw.takesSolid (by decide) rest

/-- A run of tests is solid. -/
theorem Tests.takesSolid {predicates : List Predicate} (h : Tests Inner text predicates rest) :
    TakesSolid text rest := by
  induction h with
  | done rest => exact ⟨[], rfl, solid_of_forall (by simp)⟩
  | more first others ih => exact first.takesSolid.trans ih

/-- What a compound has behind its child mark is solid. -/
theorem Body.takesSolid {predicates : List Predicate} (h : Body Inner text predicates rest) :
    TakesSolid text rest := by
  cases h with
  | any tests => exact (takesSolid_named '*' [] _ (by decide) (by simp)).trans tests.takesSolid
  | tag hname tests =>
    have hsolid := solid_of_forall fun c hc => of_isIdentifierChar (hname.all c hc)
    exact TakesSolid.trans ⟨_, rfl, hsolid⟩ tests.takesSolid
  | bare tests => exact tests.takesSolid

/-- A compound is a solid piece, behind a child mark with its blanks where it has one. Without a mark the
piece is not empty, and with one it is empty only at the end and before another mark. -/
theorem Compound.cut {part : Part} (h : Compound Inner text part rest) :
    ∃ mark piece, text = mark ++ (piece ++ rest) ∧ Solid piece ∧
      (piece = [] → mark ≠ [] ∧ ∀ c ∈ rest.head?, c = '>') ∧
      (mark = [] ∧ part.depth = none ∨
        ∃ blanks, mark = '>' :: blanks ∧ (∀ c ∈ blanks, Text.isAsciiBlank c = true) ∧
          part.depth = some 1) := by
  cases h with
  | child hblanks hall body hempty =>
    obtain ⟨piece, rfl, hpiece⟩ := body.takesSolid
    refine ⟨_, piece, rfl, hpiece, fun hnil => ⟨List.cons_ne_nil _ _, hempty ?_⟩,
      Or.inr ⟨_, rfl, hblanks, rfl⟩⟩
    rw [hnil, List.nil_append]
  | plain body hempty =>
    obtain ⟨piece, rfl, hpiece⟩ := body.takesSolid
    refine ⟨[], piece, rfl, hpiece, fun hnil => absurd ?_ hempty, Or.inl ⟨rfl, rfl⟩⟩
    rw [hnil, List.nil_append]

/-- The selector of a run of compounds is a single test exactly when nothing parts the text. -/
theorem Compounds.parted_iff {selector : Selector} (h : Compounds Inner text selector.parts) :
    Parted text ↔ selector.isSimple = false := by
  obtain ⟨head, others⟩ := selector
  simp only [Selector.parts] at h
  cases h with
  | last compound =>
    obtain ⟨mark, piece, rfl, hpiece, -, ⟨rfl, hdepth⟩ | ⟨blanks, rfl, hblanks, hdepth⟩⟩ := compound.cut
    · simpa [Selector.isSimple, hdepth] using hpiece.whole
    · rw [(outside_child hblanks).parted_append_iff]
      have hmark : Parted ('>' :: blanks) := ⟨[], '>', blanks, rfl, rfl, rfl⟩
      simp [Selector.isSimple, hdepth, hmark]
  | @blanks _ blanks next _ _ compound hne hblanks others =>
    obtain ⟨piece, rfl, hpiece⟩ := compound.takes
    obtain ⟨c, more, rfl⟩ := List.exists_cons_of_ne_nil hne
    have hc : separates c = true := separates_of_isAsciiBlank (hblanks c List.mem_cons_self)
    have hparted : Parted (piece ++ (c :: more ++ next)) :=
      ⟨piece, c, more ++ next, rfl, hpiece.equal, hc⟩
    exact iff_of_true hparted (by simp [Selector.isSimple, others.parts_ne_nil])
  | @child _ next _ _ compound others =>
    obtain ⟨piece, rfl, hpiece⟩ := compound.takes
    have hparted : Parted (piece ++ '>' :: next) := ⟨piece, '>', next, rfl, hpiece.equal, rfl⟩
    exact iff_of_true hparted (by simp [Selector.isSimple, others.parts_ne_nil])

/-- No seam lies in a solid piece. -/
theorem Solid.seamsFrom {front piece : List Char} (h : Solid piece) (hfront : Outside front)
    (rest : List Char) : seamsFrom front (piece ++ rest) = seamsFrom (front ++ piece) rest := by
  -- by induction on what is left of the piece, behind a front part of it
  suffices hleft : ∀ left done, piece = done ++ left →
      Grammar.seamsFrom (front ++ done) (left ++ rest) = Grammar.seamsFrom (front ++ piece) rest by
    simpa using hleft piece [] rfl
  intro left
  induction left with
  | nil =>
    intro done hpiece
    rw [hpiece, List.append_nil, List.nil_append]
  | cons c left ih =>
    intro done hpiece
    have hseam : ¬ Seam (front ++ done) (c :: (left ++ rest)) := by
      rintro ⟨houtside, hplace⟩
      have hc : separates c = true := by
        rcases hplace with ⟨-, hmark⟩ | ⟨hblank, -⟩
        · cases hmark
          rfl
        · exact separates_of_isAsciiBlank (by simpa using hblank)
      exact h.whole ⟨done, c, left, hpiece, (hfront.append_iff done).mp houtside, hc⟩
    have hrest := ih (done ++ [c]) (by simp [hpiece])
    rw [List.cons_append, Grammar.seamsFrom, if_neg hseam, Nat.zero_add, List.append_assoc]
    exact hrest

/-- No seam lies in blanks behind a character that separates. -/
theorem seamsFrom_blanks (front : List Char) {blanks : List Char}
    (hfront : ∃ c ∈ front.getLast?, separates c = true)
    (hblanks : ∀ c ∈ blanks, Text.isAsciiBlank c = true) (rest : List Char) :
    seamsFrom front (blanks ++ rest) = seamsFrom (front ++ blanks) rest := by
  induction blanks generalizing front with
  | nil => simp
  | cons c more ih =>
    have hblank := hblanks c List.mem_cons_self
    have hseam : ¬ Seam front (c :: (more ++ rest)) := by
      rintro ⟨-, ⟨-, hmark⟩ | ⟨-, hlast, -⟩⟩
      · cases hmark
        exact absurd hblank (by decide)
      · obtain ⟨d, hd, hseparates⟩ := hfront
        rw [hlast d hd] at hseparates
        contradiction
    have hmore := ih (front ++ [c]) ⟨c, by simp, separates_of_isAsciiBlank hblank⟩
      fun d hd => hblanks d (List.mem_cons_of_mem c hd)
    rw [List.cons_append, seamsFrom, if_neg hseam, Nat.zero_add, hmore, List.append_assoc]
    rfl

/-- Whether the first character of a rest is a `>` with something in front of it. -/
def seamAt (front rest : List Char) : Nat := if front ≠ [] ∧ rest.head? = some '>' then 1 else 0

/-- A child mark with its blanks has a seam in front of it where anything stands there. -/
theorem seamsFrom_child {front blanks : List Char} (hfront : Outside front)
    (hblanks : ∀ c ∈ blanks, Text.isAsciiBlank c = true) (rest : List Char) :
    seamsFrom front ('>' :: (blanks ++ rest)) =
      seamAt front ('>' :: (blanks ++ rest)) + seamsFrom (front ++ '>' :: blanks) rest := by
  have hseam : Seam front ('>' :: (blanks ++ rest)) ↔ front ≠ [] := by
    have hblank : Text.isAsciiBlank '>' = false := rfl
    simp [Seam, hfront, hblank]
  have hbehind := seamsFrom_blanks (front ++ ['>']) ⟨'>', by simp, rfl⟩ hblanks rest
  rw [seamsFrom, hbehind, List.append_assoc]
  simp only [hseam, seamAt, List.head?_cons, and_true, List.singleton_append]

/-- Blanks behind a character that does not separate have a seam in front of them unless `>` stands behind
them. -/
theorem seamsFrom_apart {front blanks rest : List Char} (hfront : Outside front)
    (hlast : ∀ c ∈ front.getLast?, separates c = false) (hne : blanks ≠ [])
    (hblanks : ∀ c ∈ blanks, Text.isAsciiBlank c = true)
    (hrest : ∀ c ∈ rest.head?, Text.isAsciiBlank c = false) :
    seamsFrom front (blanks ++ rest) =
      (if rest.head? = some '>' then 0 else 1) + seamsFrom (front ++ blanks) rest := by
  obtain ⟨c, more, rfl⟩ := List.exists_cons_of_ne_nil hne
  have hblank := hblanks c List.mem_cons_self
  have hskip : (c :: (more ++ rest)).dropWhile Text.isAsciiBlank = rest := by
    rw [← List.cons_append, List.dropWhile_append_of_pos hblanks]
    cases rest with
    | nil => rfl
    | cons d tail => rw [List.dropWhile_cons_of_neg (by simp [hrest d rfl])]
  have hseam : Seam front (c :: (more ++ rest)) ↔ rest.head? ≠ some '>' := by
    have hmark : c ≠ '>' := ne_of_class hblank (by decide)
    simp only [Seam, hfront, hskip, List.head?_cons, Option.some.injEq, hmark]
    simpa [hblank] using fun _ => hlast
  have hbehind := seamsFrom_blanks (front ++ [c])
    ⟨c, by simp, separates_of_isAsciiBlank hblank⟩ (fun d hd => hblanks d (List.mem_cons_of_mem c hd)) rest
  rw [List.cons_append, seamsFrom, hbehind, List.append_assoc]
  simp only [hseam, ne_eq, ite_not, List.singleton_append]

/-- The seams in a text that begins with a compound: the one in front of its child mark, if any, and those
behind it. Where something other than `>` stands behind it, it ends with no character that separates. -/
theorem Compound.seamsFrom {part : Part} (h : Compound Inner text part rest) {front : List Char}
    (hfront : Outside front) :
    ∃ piece, text = piece ++ rest ∧ piece ≠ [] ∧ Outside piece ∧
      Grammar.seamsFrom front text = seamAt front text + Grammar.seamsFrom (front ++ piece) rest ∧
      ((∃ c ∈ rest.head?, c ≠ '>') → ∀ c ∈ (front ++ piece).getLast?, separates c = false) := by
  obtain ⟨mark, piece, rfl, hpiece, hempty, hmark⟩ := h.cut
  have hne : mark ++ piece ≠ [] := by
    intro hnil
    obtain ⟨hmark, hpiece⟩ := List.append_eq_nil_iff.mp hnil
    exact (hempty hpiece).1 hmark
  refine ⟨mark ++ piece, (List.append_assoc _ _ _).symm, hne, ?outside, ?seams, ?last⟩
  case outside =>
    rcases hmark with ⟨rfl, -⟩ | ⟨blanks, rfl, hblanks, -⟩
    · exact hpiece.outside
    · exact ((outside_child hblanks).append_iff piece).mpr hpiece.outside
  case seams =>
    rcases hmark with ⟨rfl, -⟩ | ⟨blanks, rfl, hblanks, -⟩
    · -- without a mark the text begins with the piece, which does not begin with `>`
      obtain ⟨c, tail, rfl⟩ := List.exists_cons_of_ne_nil hne
      have hhead := hpiece.head c rfl
      have hc : c ≠ '>' := (ne_of_class (p := separates) (c := '>') rfl hhead).symm
      have hseam : seamAt front ([] ++ (c :: tail ++ rest)) = 0 := if_neg fun h => hc (by simpa using h.2)
      rw [hseam, Nat.zero_add, List.nil_append, List.nil_append]
      exact hpiece.seamsFrom hfront rest
    · have hbehind := ((hfront.append_iff _).mpr (outside_child hblanks))
      rw [List.cons_append, seamsFrom_child hfront hblanks, hpiece.seamsFrom hbehind, List.append_assoc]
  case last =>
    rintro ⟨d, hd, hother⟩ c hc
    have hpieceNe : piece ≠ [] := fun hnil => hother ((hempty hnil).2 d hd)
    rw [← List.append_assoc, List.getLast?_append_of_ne_nil _ hpieceNe] at hc
    exact hpiece.last c hc

/-- A run of compounds has one part more than seams, apart from a seam in front of the run. -/
theorem Compounds.seamsFrom {parts : List Part} (h : Compounds Inner text parts) {front : List Char}
    (hfront : Outside front) :
    Grammar.seamsFrom front text + 1 = parts.length + seamAt front text := by
  induction h generalizing front with
  | last compound =>
    obtain ⟨piece, -, -, -, hseams, -⟩ := compound.seamsFrom hfront
    rw [hseams, Grammar.seamsFrom, List.length_singleton]
    omega
  | @blanks _ blanks next _ _ compound hne hblanks others ih =>
    obtain ⟨piece, -, hpieceNe, hpiece, hseams, hlast⟩ := compound.seamsFrom hfront
    have hbehind := (hfront.append_iff piece).mpr hpiece
    have hnext := ih ((hbehind.append_iff blanks).mpr (outside_of_isAsciiBlank hblanks))
    have hhead : ∀ c ∈ next.head?, Text.isAsciiBlank c = false := by
      obtain ⟨c, tail, rfl, hc⟩ := others.head
      intro d hd
      cases hd
      exact hc
    have hblank : ∃ c ∈ (blanks ++ next).head?, c ≠ '>' := by
      obtain ⟨c, more, rfl⟩ := List.exists_cons_of_ne_nil hne
      exact ⟨c, rfl, ne_of_class (hblanks c List.mem_cons_self) (by decide)⟩
    rw [hseams, seamsFrom_apart hbehind (hlast hblank) hne hblanks hhead, List.length_cons]
    -- the seam at the blanks or else at the `>` behind them
    have hone : (if next.head? = some '>' then 0 else 1) + seamAt (front ++ piece ++ blanks) next = 1 := by
      by_cases hmark : next.head? = some '>' <;> simp [seamAt, hmark, hpieceNe]
    omega
  | @child _ next _ _ compound others ih =>
    obtain ⟨piece, -, hpieceNe, hpiece, hseams, -⟩ := compound.seamsFrom hfront
    have hnext := ih ((hfront.append_iff piece).mpr hpiece)
    have hone : seamAt (front ++ piece) ('>' :: next) = 1 := by simp [seamAt, hpieceNe]
    rw [hseams, List.length_cons]
    omega

end

end TreeQuery.Grammar

namespace TreeQuery

/-- What a text compiles to as a single test, where nothing is registered. -/
def compiledSimple (text : String) : Except Selector.Error Predicate :=
  (Functions.empty.compileSimple (.text text)).outcome.1

/-- As a single test a text compiles to the predicate of its selector, if that is one. -/
theorem compiledSimple_eq (text : String) :
    compiledSimple text = (compiled text).bind Selector.toPredicate := (gives_compileSimple text).outcome

/-- A text that compiles has one part more than it has seams. It is too complex for a single test exactly
when it is parted, and is one otherwise. A text that does not compile fails in the same way as a single
test. -/
theorem single_test_iff_not_parted (text : String) :
    (∀ selector, compiled text = .ok selector →
      (compiledSimple text = .error .complexSelector ↔ Grammar.Parted (Text.trimChars text.toList)) ∧
      (¬ Grammar.Parted (Text.trimChars text.toList) →
        ∃ predicate, selector = .simple predicate ∧ compiledSimple text = .ok predicate) ∧
      selector.parts.length = 1 + Grammar.seams (Text.trimChars text.toList)) ∧
    ∀ error, compiled text = .error error → compiledSimple text = .error error := by
  rw [compiledSimple_eq]
  refine ⟨fun selector hcompiled => ?_, fun error hcompiled => by rw [hcompiled]; rfl⟩
  obtain ⟨compounds⟩ := compiled_eq_ok_iff.mp hcompiled
  have hparted := compounds.parted_iff
  have hbind : (compiled text).bind Selector.toPredicate = selector.toPredicate := by rw [hcompiled]; rfl
  rw [hbind]
  refine ⟨?complex, ?single, ?count⟩
  case complex =>
    rw [hparted, Selector.toPredicate]
    cases selector.isSimple <;> simp
  case single =>
    intro hwhole
    rw [hparted, Bool.not_eq_false] at hwhole
    have hsingle : selector.toPredicate = .ok selector.head.predicate := if_pos hwhole
    exact ⟨_, Grammar.toPredicate_eq_ok_iff.mp hsingle, hsingle⟩
  case count =>
    have hseams := compounds.seamsFrom (by rfl : Grammar.Outside [])
    have hnone : Grammar.seamAt [] (Text.trimChars text.toList) = 0 := if_neg fun h => h.1 rfl
    rw [hnone] at hseams
    rw [Grammar.seams]
    omega

/-- The empty text does not compile. -/
theorem compiled_nothing : compiled "" = .error (.invalid .empty 0) := by
  have hplain : compiled "" = Plain.compileWithin Functions.nestingLimit "" :=
    (Plain.gives_compileWithin Functions.nestingLimit "").outcome
  have hlimit : Functions.nestingLimit = (2 ^ 62 - 1) + 1 := rfl
  have htrim : Text.trimChars "".toList = [] := rfl
  rw [hplain, hlimit, Plain.compileWithin, Compound.ofText_eq_readAll, htrim, Grammar.compounds_readAll_nil]
  rfl

/-- A `>` with blanks around it and another blank part the first text in three; the `>` of the parameter has
no share in that, and the test that it belongs to is single. The empty text fails in either case. -/
theorem single_test_iff_not_parted_parents :
    (∃ selector, compiled "* > * :has(* > *)" = .ok selector ∧ selector.parts.length = 3) ∧
      compiledSimple "* > * :has(* > *)" = .error .complexSelector ∧
      (∃ predicate, compiled ":has(* > *)" = .ok (.simple predicate) ∧
        compiledSimple ":has(* > *)" = .ok predicate) ∧
      compiledSimple "" = .error (.invalid .empty 0) := by
  have hspace : ∀ c ∈ " ".toList, Text.isAsciiBlank c = true := by simp; decide
  obtain ⟨children, hchildren, -⟩ :=
    exists_compiled_child compiled_star compiled_star (by decide) (by decide) (by decide) hspace hspace
  have hparents : compiled ":has(* > *)" = .ok (.simple (.has children)) :=
    (writesTest_has hchildren (by decide)).compiled
  obtain ⟨selector, hselector, -⟩ := exists_compiled_blanks hchildren hparents (by decide) (by decide)
    (by decide) (by decide : " " ≠ "") hspace
  obtain ⟨hcomplex, -, hcount⟩ := (single_test_iff_not_parted "* > * :has(* > *)").1 selector hselector
  obtain ⟨-, hsingle, -⟩ := (single_test_iff_not_parted _).1 _ hparents
  obtain ⟨predicate, hpredicate, hvalue⟩ := hsingle (by decide)
  refine ⟨⟨selector, hselector, hcount.trans (by decide)⟩, hcomplex.mpr (by decide),
    ⟨predicate, ?_, hvalue⟩, (single_test_iff_not_parted _).2 _ compiled_nothing⟩
  rw [hparents, hpredicate]

end TreeQuery
