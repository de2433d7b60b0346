import TreeQuery.Proofs.Selector.Lookahead

/-!
# The course up to a place in a text

A course is the same up to the component where it fails, or up to its end: components one after another
that do not fail, in compounds that have ended but for the last. What a course takes from a text on its
way to a place is the same in front of anything that begins as the text does at that place, since no
component looks further than one character ahead.

Main statements: a course has come to the place where its text ends or a component fails; up to a place it
is the same with another text behind the first character there; and what stands in front of the place
comes to something by itself, but for the blanks at its end.
-/

namespace TreeQuery.Course

open Grammar

/-- The child mark of a compound and the blanks behind it, or nothing where it has none. -/
inductive Mark : List Char → Bool → List Char → Prop
  | child (text : List Char) : Mark ('>' :: text) true (text.dropWhile Text.isAsciiBlank)
  | plain {text : List Char} (hplain : ∀ c ∈ text.head?, c ≠ '>') : Mark text false text

/-- The predicate of a tag, or none where a star or nothing stands for it. -/
inductive Tag : List Char → Option Predicate → List Char → Prop
  | any (text : List Char) : Tag ('*' :: text) none text
  | name {name text : List Char} (hname : Name name text) :
      Tag (name ++ text) (some (.chain none (.ofTag (.ofList name)))) text
  | bare {text : List Char} (hbare : ∀ c ∈ text.head?, c ≠ '*' ∧ Text.isIdentifierChar c = false) :
      Tag text none text

/-- A tag is found by looking one character ahead. -/
theorem Tag.foresees {text rest : List Char} {result : Option Predicate} (h : Tag text result rest) :
    Foresees (fun text rest => Tag text result rest) text rest := by
  cases h with
  | any => exact foresees_append ['*'] (segment_singleton (by decide)) fun other _ => .any other
  | name hname => exact foresees_append _ hname.segment fun other hother => .name (hname.begins hother)
  | bare hbare => exact foresees_refl fun other hother => .bare (hother.head hbare)

/-- The part of a compound with its mark and its predicate. -/
def partOf (child : Bool) (result : Option Predicate) : Part := (part child (result, [])).1

section

variable (functions : Functions) (Inner : String → Except Selector.Error Selector → List Call → Prop)
variable (whole : List Char)

/-- Components that do not fail, one after another, up to a place. -/
inductive Advance : List Char → Option Predicate → Option Predicate → List Char → List Call → Prop
  | here (place : List Char) (earlier : Option Predicate) : Advance place earlier earlier place []
  | step {text middle place : List Char} {earlier result : Option Predicate} {predicate : Predicate}
      {calls later : List Call}
      (first : Step functions Inner whole text earlier (.ok (predicate, middle)) calls)
      (others : Advance middle (some predicate) result place later) :
      Advance text earlier result place (calls ++ later)

/-- What happens to a compound at the place where it ends or fails. -/
inductive Stop (place : List Char) (result : Option Predicate) :
    Except Selector.Error (Option Predicate × List Char) → List Call → Prop
  | ends (hends : Ends place) : Stop place result (.ok (result, place.dropWhile Text.isAsciiBlank)) []
  | fails {error : Selector.Error} {calls : List Call}
      (step : Step functions Inner whole place result (.error error) calls) :
      Stop place result (.error error) calls

/-- A compound up to a place in it, with the predicate of what stands in front of that. -/
def Opening (text : List Char) (child : Bool) (result : Option Predicate) (place : List Char)
    (calls : List Call) : Prop :=
  ∃ body earlier rest, Mark text child body ∧ Tag body earlier rest ∧
    Advance functions Inner whole rest earlier result place calls

/-- Compounds that have ended, with their parts, and one that has come to a place. -/
inductive Reach : List Char → List Part → Bool → Option Predicate → List Char → List Call → Prop
  | opening {text place : List Char} {child : Bool} {result : Option Predicate} {calls : List Call}
      (hne : text ≠ []) (opening : Opening functions Inner whole text child result place calls) :
      Reach text [] child result place calls
  | more {text middle place : List Char} {child last : Bool} {found result : Option Predicate}
      {parts : List Part} {calls later : List Call} (hne : text ≠ [])
      (first : Opening functions Inner whole text child found middle calls) (hends : Ends middle)
      (others : Reach (middle.dropWhile Text.isAsciiBlank) parts last result place later) :
      Reach text (partOf child found :: parts) last result place (calls ++ later)

/-- What happens to a text at the place where it ends, but for blanks, or fails. -/
inductive Finish (parts : List Part) (child : Bool) (result : Option Predicate) (place : List Char) :
    Except Selector.Error (List Part) → List Call → Prop
  | ends (hends : place.dropWhile Text.isAsciiBlank = []) :
      Finish parts child result place (.ok (parts ++ [partOf child result])) []
  | fails {error : Selector.Error} {calls : List Call}
      (step : Step functions Inner whole place result (.error error) calls) :
      Finish parts child result place (.error error) calls

end

section

variable {functions : Functions} {Inner : String → Except Selector.Error Selector → List Call → Prop}
variable {whole : List Char}

/-- Components that do not fail are found by looking one character ahead of them. -/
theorem Advance.foresees {text place : List Char} {earlier result : Option Predicate} {calls : List Call}
    (h : Advance functions Inner whole text earlier result place calls) :
    Foresees (fun text place => ∀ whole,
      Advance functions Inner whole text earlier result place calls) text place := by
  induction h with
  | here place earlier => exact foresees_refl fun other _ whole => .here other earlier
  | step first others ih =>
    refine (first.foresees.trans ih).imp fun text place h whole => ?_
    obtain ⟨middle, first, others⟩ := h
    exact .step (first whole) (others whole)

/-- Components come to the place where they end or one of them fails. -/
theorem Steps.exists_advance {text : List Char} {earlier : Option Predicate}
    {outcome : Except Selector.Error (Option Predicate × List Char)} {calls : List Call}
    (h : Steps functions Inner whole text earlier outcome calls) :
    ∃ result place before later, Advance functions Inner whole text earlier result place before ∧
      Stop functions Inner whole place result outcome later ∧ calls = before ++ later := by
  induction h with
  | @done text earlier hends => exact ⟨earlier, text, [], [], .here text earlier, .ends hends, rfl⟩
  | @fail text earlier error calls first => exact ⟨earlier, text, [], calls, .here text earlier, .fails first, rfl⟩
  | more first others ih =>
    obtain ⟨result, place, before, later, advance, stop, rfl⟩ := ih
    exact ⟨result, place, _, later, .step first advance, stop, (List.append_assoc _ _ _).symm⟩

/-- Components that have come to a place end or fail as they do there. -/
theorem Advance.steps {text place : List Char} {earlier result : Option Predicate}
    {outcome : Except Selector.Error (Option Predicate × List Char)} {before later : List Call}
    (h : Advance functions Inner whole text earlier result place before)
    (stop : Stop functions Inner whole place result outcome later) :
    Steps functions Inner whole text earlier outcome (before ++ later) := by
  induction h with
  | here place earlier =>
    cases stop with
    | ends hends => exact .done hends
    | fails step => exact .fail step
  | step first others ih =>
    rw [List.append_assoc]
    exact .more first (ih stop)

/-- A compound comes to the place where it ends or fails. -/
theorem Compound.exists_opening {text : List Char} {outcome : Except Selector.Error (Part × List Char)}
    {calls : List Call} (h : Compound functions Inner whole text outcome calls) :
    ∃ child result place before later found, Opening functions Inner whole text child result place before ∧
      Stop functions Inner whole place result found later ∧ outcome = found.map (part child) ∧
      calls = before ++ later := by
  have hbody : ∀ {text body : List Char} {child : Bool} {found calls}, Mark text child body →
      Body functions Inner whole body found calls → ∃ result place before later,
        Opening functions Inner whole text child result place before ∧
          Stop functions Inner whole place result found later ∧ calls = before ++ later := by
    intro text body child found calls mark hbody
    have hsteps : ∃ earlier rest, Tag body earlier rest ∧
        Steps functions Inner whole rest earlier found calls := by
      cases hbody with
      | any steps => exact ⟨_, _, .any _, steps⟩
      | tag hname steps => exact ⟨_, _, .name hname, steps⟩
      | bare hbare steps => exact ⟨_, _, .bare hbare, steps⟩
    obtain ⟨earlier, rest, tag, steps⟩ := hsteps
    obtain ⟨result, place, before, later, advance, stop, hcalls⟩ := steps.exists_advance
    exact ⟨result, place, before, later, ⟨body, earlier, rest, mark, tag, advance⟩, stop, hcalls⟩
  cases h with
  | @child text found calls body =>
    obtain ⟨result, place, before, later, opening, stop, hcalls⟩ := hbody (.child text) body
    exact ⟨true, result, place, before, later, found, opening, stop, rfl, hcalls⟩
  | @plain text found calls hplain body =>
    obtain ⟨result, place, before, later, opening, stop, hcalls⟩ := hbody (.plain hplain) body
    exact ⟨false, result, place, before, later, found, opening, stop, rfl, hcalls⟩

/-- A compound that has come to a place ends or fails as it does there. -/
theorem Opening.compound {text place : List Char} {child : Bool} {result : Option Predicate}
    {found : Except Selector.Error (Option Predicate × List Char)} {before later : List Call}
    (h : Opening functions Inner whole text child result place before)
    (stop : Stop functions Inner whole place result found later) :
    Compound functions Inner whole text (found.map (part child)) (before ++ later) := by
  obtain ⟨body, earlier, rest, mark, tag, advance⟩ := h
  have steps := advance.steps stop
  have hbody : Body functions Inner whole body found (before ++ later) := by
    cases tag with
    | any => exact .any steps
    | name hname => exact .tag hname steps
    | bare hbare => exact .bare hbare steps
  cases mark with
  | child => exact .child hbody
  | plain hplain => exact .plain hplain hbody

/-- A text of no characters has no parts. -/
theorem Compounds.of_nil {outcome : Except Selector.Error (List Part)} {calls : List Call}
    (h : Compounds functions Inner whole [] outcome calls) : outcome = .ok [] ∧ calls = [] := by
  cases h with
  | done => exact ⟨rfl, rfl⟩
  | fail hne => exact absurd rfl hne
  | more hne => exact absurd rfl hne

/-- A course has come to the place where its text ends or a component fails. -/
theorem Compounds.exists_finish {text : List Char} {outcome : Except Selector.Error (List Part)}
    {calls : List Call} (h : Compounds functions Inner whole text outcome calls) (hne : text ≠ []) :
    ∃ parts child result place before later,
      Reach functions Inner whole text parts child result place before ∧
        Finish functions Inner whole parts child result place outcome later ∧ calls = before ++ later := by
  induction h with
  | done => exact absurd rfl hne
  | fail hne first =>
    obtain ⟨child, result, place, before, later, found, opening, stop, hfound, rfl⟩ := first.exists_opening
    cases stop with
    | ends hends => cases hfound
    | fails step =>
      cases hfound
      exact ⟨[], child, result, place, before, later, .opening hne opening, .fails step, rfl⟩
  | @more text rest head outcome calls later hne first others ih =>
    obtain ⟨child, found, middle, before, after, outcome', opening, stop, hfound, rfl⟩ := first.exists_opening
    cases stop with
    | fails step => cases hfound
    | ends hends =>
      cases hfound
      rw [List.append_nil]
      by_cases hrest : middle.dropWhile Text.isAsciiBlank = []
      · rw [hrest] at others
        obtain ⟨rfl, rfl⟩ := others.of_nil
        exact ⟨[], child, found, middle, before, [], .opening hne opening, .ends hrest, rfl⟩
      · obtain ⟨parts, last, result, place, calls, later, reach, finish, rfl⟩ := ih hrest
        refine ⟨_, last, result, place, _, later, .more hne opening hends reach, ?_,
          (List.append_assoc _ _ _).symm⟩
        cases finish with
        | ends hends => exact .ends hends
        | fails step => exact .fails step

/-- A blank text is the end of a compound. -/
theorem ends_of_dropWhile {place : List Char} (h : place.dropWhile Text.isAsciiBlank = []) : Ends place :=
  fun c hc => Or.inr (List.dropWhile_eq_nil_iff.mp h c (List.mem_of_mem_head? hc))

/-- A course that has come to a place ends or fails as it does there. -/
theorem Reach.compounds {text place : List Char} {parts : List Part} {child : Bool}
    {result : Option Predicate} {outcome : Except Selector.Error (List Part)} {before later : List Call}
    (h : Reach functions Inner whole text parts child result place before)
    (finish : Finish functions Inner whole parts child result place outcome later) :
    Compounds functions Inner whole text outcome (before ++ later) := by
  induction h generalizing outcome with
  | @opening text place child result calls hne opening =>
    cases finish with
    | ends hends =>
      have compound := opening.compound (.ends (ends_of_dropWhile hends))
      rw [List.append_nil] at compound
      have others : Compounds functions Inner whole (place.dropWhile Text.isAsciiBlank) (.ok []) [] := by
        rw [hends]
        exact .done
      exact .more hne compound others
    | fails step => exact .fail hne (opening.compound (.fails step))
  | @more text middle place child last found result parts calls later hne first hends others ih =>
    have compound := first.compound (.ends hends)
    rw [List.append_nil] at compound
    rw [List.append_assoc]
    cases finish with
    | ends hends => exact .more hne compound (ih (.ends hends))
    | fails step => exact .more hne compound (ih (.fails step))

/-- Behind blanks a text goes on with what is no blank. -/
theorem dropWhile_append_of_head {blanks text : List Char}
    (hblanks : ∀ c ∈ blanks, Text.isAsciiBlank c = true)
    (hhead : ∀ c ∈ text.head?, Text.isAsciiBlank c = false) :
    (blanks ++ text).dropWhile Text.isAsciiBlank = text := by
  rw [List.dropWhile_append_of_pos hblanks]
  cases text with
  | nil => rfl
  | cons c rest => exact List.dropWhile_cons_of_neg (by simp [hhead c rfl])

/-- Blanks in front of a text that does not begin with one are none. -/
theorem eq_nil_of_head {blanks text : List Char} (hblanks : ∀ c ∈ blanks, Text.isAsciiBlank c = true)
    (hhead : ∀ c ∈ (blanks ++ text).head?, Text.isAsciiBlank c = false) : blanks = [] := by
  cases blanks with
  | nil => rfl
  | cons blank blanks =>
    have hblank := hblanks blank List.mem_cons_self
    rw [hhead blank rfl] at hblank
    contradiction

/-- The child mark of a compound is found by looking one character ahead of the blanks behind it, and those
may be left out. -/
theorem Mark.exists_blanks {text body : List Char} {child : Bool} (h : Mark text child body) :
    ∃ mark blanks, text = mark ++ (blanks ++ body) ∧ Segment mark ∧
      (∀ c ∈ blanks, Text.isAsciiBlank c = true) ∧
      ∀ run other, run ⊆ blanks → Begins other body → Mark (mark ++ (run ++ other)) child other := by
  cases h with
  | plain hplain =>
    refine ⟨[], [], rfl, segment_of_forall (by simp), by simp, fun run other hrun hother => ?_⟩
    obtain rfl := List.subset_nil.mp hrun
    exact .plain (hother.head hplain)
  | child text =>
    have hblanks : ∀ c ∈ text.takeWhile Text.isAsciiBlank, Text.isAsciiBlank c = true :=
      fun c hc => List.mem_takeWhile_imp hc
    refine ⟨['>'], text.takeWhile Text.isAsciiBlank, by simp, segment_singleton (by decide), hblanks,
      fun run other hrun hother => ?_⟩
    have hmark := Mark.child (run ++ other)
    rwa [dropWhile_append_of_head (fun c hc => hblanks c (hrun hc))
      (hother.head (head_dropWhile_isAsciiBlank text))] at hmark

/-- What a compound takes up to a place in it, and by itself but for the blanks at its end. -/
theorem Opening.exists_core {text place : List Char} {child : Bool} {result : Option Predicate}
    {calls : List Call} (h : Opening functions Inner whole text child result place calls) :
    ∃ core blanks, text = core ++ (blanks ++ place) ∧ Segment core ∧
      (∀ c ∈ blanks, Text.isAsciiBlank c = true) ∧
      (∀ whole other, Begins other place →
        Opening functions Inner whole (core ++ (blanks ++ other)) child result other calls) ∧
      ∀ whole, Opening functions Inner whole core child result [] calls := by
  obtain ⟨body, earlier, rest, mark, tag, advance⟩ := h
  obtain ⟨piece, hpiece, rfl, htakes⟩ := tag.foresees.trans advance.foresees
  obtain ⟨front, blanks, rfl, hfront, hblanks, hmark⟩ := mark.exists_blanks
  have hopening : ∀ whole run other, run ⊆ blanks → Begins other place →
      Opening functions Inner whole (front ++ (run ++ (piece ++ other))) child result other calls := by
    intro whole run other hrun hother
    obtain ⟨rest, tag, advance⟩ := htakes other hother
    exact ⟨_, _, _, hmark run _ hrun (hother.append piece), tag, advance whole⟩
  by_cases hnil : piece = []
  · -- nothing stands behind the blanks, and the compound is the same without them
    subst hnil
    refine ⟨front, blanks, rfl, hfront, hblanks, fun whole other hother => ?_, fun whole => ?_⟩
    · exact hopening whole blanks other (List.Subset.refl blanks) hother
    · have hself := hopening whole [] [] (List.nil_subset blanks) (begins_nil place)
      simpa using hself
  · have hcore := hfront.append ((balanced_of_isAsciiBlank hblanks 32).segment hpiece hnil)
    refine ⟨front ++ (blanks ++ piece), [], by simp, hcore, by simp, fun whole other hother => ?_, fun whole => ?_⟩
    · have hall := hopening whole blanks other (List.Subset.refl blanks) hother
      simpa using hall
    · have hself := hopening whole blanks [] (List.Subset.refl blanks) (begins_nil place)
      simpa using hself

/-- What a compound that has ended takes, with the blanks behind it, and by itself. -/
theorem Opening.exists_gap {text middle : List Char} {child : Bool} {result : Option Predicate}
    {calls : List Call} (h : Opening functions Inner whole text child result middle calls)
    (hends : Ends middle) :
    ∃ core gap, text = core ++ (gap ++ middle.dropWhile Text.isAsciiBlank) ∧ Segment core ∧
      (∀ c ∈ gap, Text.isAsciiBlank c = true) ∧
      (∀ whole other, Begins other (middle.dropWhile Text.isAsciiBlank) →
        ∃ middle, Opening functions Inner whole (core ++ (gap ++ other)) child result middle calls ∧
          Ends middle ∧ middle.dropWhile Text.isAsciiBlank = other) ∧
      ∀ whole, Opening functions Inner whole core child result [] calls := by
  obtain ⟨core, blanks, rfl, hcore, hblanks, hall, hself⟩ := h.exists_core
  have hhead := head_dropWhile_isAsciiBlank middle
  have hrun : ∀ c ∈ middle.takeWhile Text.isAsciiBlank, Text.isAsciiBlank c = true :=
    fun c hc => List.mem_takeWhile_imp hc
  have hmiddle : middle.takeWhile Text.isAsciiBlank ++ middle.dropWhile Text.isAsciiBlank = middle :=
    List.takeWhile_append_dropWhile
  refine ⟨core, blanks ++ middle.takeWhile Text.isAsciiBlank, ?_, hcore, ?_, fun whole other hother => ?_, hself⟩
  · rw [List.append_assoc, hmiddle]
  · exact List.forall_mem_append.mpr ⟨hblanks, hrun⟩
  · have hbegins : Begins (middle.takeWhile Text.isAsciiBlank ++ other) middle := by
      have happend := hother.append (middle.takeWhile Text.isAsciiBlank)
      rwa [hmiddle] at happend
    rw [List.append_assoc]
    exact ⟨_, hall whole _ hbegins, hbegins.ends hends, dropWhile_append_of_head hrun (hother.head hhead)⟩

/-- A compound up to the end of a text is all of the text. -/
theorem Opening.compounds {text : List Char} {child : Bool} {result : Option Predicate} {calls : List Call}
    (h : Opening functions Inner whole text child result [] calls) (hne : text ≠ []) :
    ∃ parts, Compounds functions Inner whole text (.ok parts) calls := by
  have reach := Reach.opening hne h
  have compounds := reach.compounds (.ends rfl)
  rw [List.append_nil] at compounds
  exact ⟨_, compounds⟩

/-- What a compound takes up to a place in it is balanced. -/
theorem Opening.exists_piece {text place : List Char} {child : Bool} {result : Option Predicate}
    {calls : List Call} (h : Opening functions Inner whole text child result place calls) :
    ∃ piece, text = piece ++ place ∧ Balanced 32 piece := by
  obtain ⟨core, blanks, rfl, hcore, hblanks, -⟩ := h.exists_core
  exact ⟨core ++ blanks, (List.append_assoc _ _ _).symm,
    hcore.toBalanced.append (balanced_of_isAsciiBlank hblanks 32)⟩

/-- What a course takes from a text on its way to a place is balanced. -/
theorem Reach.exists_piece {text place : List Char} {parts : List Part} {child : Bool}
    {result : Option Predicate} {calls : List Call}
    (h : Reach functions Inner whole text parts child result place calls) :
    ∃ piece, text = piece ++ place ∧ Balanced 32 piece := by
  induction h with
  | opening hne opening => exact opening.exists_piece
  | more hne first hends others ih =>
    obtain ⟨core, gap, rfl, hcore, hgap, -⟩ := first.exists_gap hends
    obtain ⟨piece, hrest, hpiece⟩ := ih
    refine ⟨core ++ (gap ++ piece), ?_,
      hcore.toBalanced.append ((balanced_of_isAsciiBlank hgap 32).append hpiece)⟩
    rw [hrest, List.append_assoc, List.append_assoc]

/-- What a course takes from a text on its way to a place. Another text may stand behind the first character
there, and the course is the same. What stands in front of the place comes to something, but for the blanks
at its end. -/
theorem Reach.exists_core {text rest : List Char} {c : Char} {parts : List Part} {child : Bool}
    {result : Option Predicate} {calls : List Call}
    (h : Reach functions Inner whole text parts child result (c :: rest) calls)
    (hhead : ∀ c ∈ text.head?, Text.isAsciiBlank c = false) :
    ∃ core blanks, text = core ++ (blanks ++ c :: rest) ∧ Segment core ∧
      (∀ c ∈ blanks, Text.isAsciiBlank c = true) ∧
      (∀ whole behind, Reach functions Inner whole (core ++ (blanks ++ c :: behind)) parts child result
        (c :: behind) calls) ∧
      (core ≠ [] → ∀ whole, ∃ parts calls, Compounds functions Inner whole core (.ok parts) calls) := by
  generalize hplace : c :: rest = place at h
  induction h with
  | @opening text place child result calls hne opening =>
    subst hplace
    obtain ⟨core, blanks, rfl, hcore, hblanks, hall, hself⟩ := opening.exists_core
    refine ⟨core, blanks, rfl, hcore, hblanks, fun whole behind => ?_, fun hne whole => ?_⟩
    · exact .opening (by simp) (hall whole _ (begins_cons c behind rest))
    · obtain ⟨parts, compounds⟩ := (hself whole).compounds hne
      exact ⟨parts, calls, compounds⟩
  | @more text middle place child last found result parts calls later hne first hends others ih =>
    subst hplace
    have hfirst := head_dropWhile_isAsciiBlank middle
    obtain ⟨core, gap, rfl, hcore, hgap, hall, hself⟩ := first.exists_gap hends
    obtain ⟨core', blanks', hrest, hcore', hblanks', hall', hself'⟩ := ih hfirst rfl
    rw [hrest] at hfirst hall ⊢
    -- another text behind the place leaves the compounds in front of it as they are
    have hreach : ∀ whole behind, Reach functions Inner whole
        (core ++ (gap ++ (core' ++ (blanks' ++ c :: behind)))) (partOf child found :: parts) last result
          (c :: behind) (calls ++ later) := by
      intro whole behind
      have hbegins := ((begins_cons c behind rest).append blanks').append core'
      obtain ⟨middle, opening, hends, hnext⟩ := hall whole _ hbegins
      have hothers := hall' whole behind
      rw [← hnext] at hothers
      exact .more (by simp) opening hends hothers
    by_cases hnil : core' = []
    · subst hnil
      obtain rfl := eq_nil_of_head hblanks' hfirst
      refine ⟨core, gap, rfl, hcore, hgap, hreach, fun hne whole => ?_⟩
      obtain ⟨parts, compounds⟩ := (hself whole).compounds hne
      exact ⟨parts, calls, compounds⟩
    · have hlonger := hcore.append ((balanced_of_isAsciiBlank hgap 32).segment hcore' hnil)
      refine ⟨core ++ (gap ++ core'), blanks', by simp, hlonger, hblanks', fun whole behind => ?_, fun _ whole => ?_⟩
      · have hself := hreach whole behind
        simpa using hself
      · obtain ⟨parts, after, compounds⟩ := hself' hnil whole
        obtain ⟨middle, opening, hends, rfl⟩ := hall whole core' (begins_append core' _)
        exact ⟨_, _, .more (by simp [hnil]) (opening.compound (.ends hends)) compounds⟩

end

end TreeQuery.Course
