import TreeQuery.Proofs.Selector.Chaining
import TreeQuery.Proofs.Selector.Pieces
import TreeQuery.Proofs.Selector.Reading
import TreeQuery.Selector.Compound

/-!
# Reading compounds

The reader of a whole text and the relation of the grammar agree. A compound ends at the end of the
text, before blanks or before `>`; the reader leaves the blanks behind it, so what it goes on with is
the beginning of the next compound or nothing. The tests of a compound are chained as they are read, and
what they have been chained to at any point is the conjunction of those read so far.

Main statement: the compounds of a text without blanks around it compile to the parts that the
grammar derives, and to nothing else.
-/

namespace TreeQuery.Grammar

variable {compile : String → Except Selector.Error Selector}

/-- A rest with which a compound ends. -/
def Ends (rest : List Char) : Prop := ∀ c ∈ rest.head?, c = '>' ∨ Text.isAsciiBlank c = true

/-- A compound ends before blanks. -/
theorem ends_append {blanks : List Char} (hne : blanks ≠ [])
    (hblanks : ∀ c ∈ blanks, Text.isAsciiBlank c = true) (rest : List Char) : Ends (blanks ++ rest) := by
  intro c hc
  rw [List.head?_append_of_ne_nil _ hne] at hc
  exact Or.inr (hblanks c (List.mem_of_mem_head? hc))

/-- What reading components does, component by component. -/
theorem readAll_cons (position : Nat) {mark : Char} (rest : List Char) (hmark : mark ≠ '>')
    (hblank : Text.isAsciiBlank mark = false) :
    Component.readAll ⟨position, mark :: rest⟩ =
      ((Component.read position mark rest).1 :: (Component.readAll (Component.read position mark rest).2).1,
        (Component.readAll (Component.read position mark rest).2).2) := by
  rw [Component.readAll]
  simp [hmark, hblank]

/-- At the end of a compound no component is read, and blanks are left behind. -/
theorem Ends.readAll {rest : List Char} (h : Ends rest) (position : Nat) :
    Component.readAll ⟨position, rest⟩ = ([], Remaining.skip ⟨position, rest⟩ Text.isAsciiBlank) := by
  rw [Component.readAll]
  cases rest with
  | nil => rfl
  | cons c rest =>
    by_cases hchild : c = '>'
    · subst hchild
      rfl
    · have hblank := (h c rfl).resolve_left hchild
      simp [hchild, hblank]

/-- Components that are read and compile behind some tests are further tests of the grammar, up to the end
of a compound. -/
theorem tests_of_readAll {input : Remaining} {before : List Predicate} {result : Option Predicate}
    (hbefore : ∀ predicate ∈ before, Single predicate)
    (h : Plain.components compile (soFar before) (Component.readAll input).1 = .ok result) :
    ∃ predicates rest, result = soFar (before ++ predicates) ∧
      Tests (Compiles compile) input.text predicates rest ∧ Ends rest ∧
      (Component.readAll input).2.text = rest.dropWhile Text.isAsciiBlank := by
  obtain ⟨position, text⟩ := input
  -- by the length of the text; a test that is read joins those in front of the rest
  induction hlength : text.length using Nat.strong_induction_on generalizing position text before with
  | _ length ih =>
    by_cases hends : Ends text
    · rw [hends.readAll position] at h ⊢
      cases h
      exact ⟨[], text, by rw [List.append_nil], .done text, hends, rfl⟩
    · cases text with
      | nil => exact absurd (by simp [Ends]) hends
      | cons mark tail =>
        have hmark : mark ≠ '>' ∧ Text.isAsciiBlank mark = false := by
          simpa [Ends, not_or] using hends
        rw [readAll_cons position tail hmark.1 hmark.2] at h ⊢
        obtain ⟨predicate, hfirst, hothers⟩ := Plain.bind_eq_ok_iff.mp h
        obtain ⟨test, rfl, htest⟩ := test_of_read hfirst
        rw [some_chain_soFar hbefore] at hothers
        have hlt := Component.length_read position mark tail
        simp only [List.length_cons] at hlength
        have hshorter : (Component.read position mark tail).2.text.length < length := by omega
        obtain ⟨predicates, rest, hresult, htests, hrest, htext⟩ :=
          ih _ hshorter (htest.single_concat hbefore) _ _ hothers rfl
        rw [List.append_assoc, List.singleton_append] at hresult
        exact ⟨test :: predicates, rest, hresult, .more htest htests, hrest, htext⟩

/-- Tests of the grammar up to the end of a compound are read as components that compile. -/
theorem Tests.readAll {text rest : List Char} {predicates before : List Predicate}
    (h : Tests (Compiles compile) text predicates rest) (hblank : NoneBlank compile)
    (hends : Ends rest) (hbefore : ∀ predicate ∈ before, Single predicate) (position : Nat) :
    Plain.components compile (soFar before) (Component.readAll ⟨position, text⟩).1 =
        .ok (soFar (before ++ predicates)) ∧
      (Component.readAll ⟨position, text⟩).2.text = rest.dropWhile Text.isAsciiBlank := by
  induction h generalizing position before with
  | done rest =>
    rw [hends.readAll position, List.append_nil]
    exact ⟨rfl, rfl⟩
  | @more test predicates _ _ _ first others ih =>
    obtain ⟨mark, tail, rfl, hmark⟩ := first.marked
    obtain ⟨hchild, -, hspace, -⟩ := of_mem_marks hmark
    obtain ⟨hfirst, htail⟩ := first.read hblank (soFar before) position
    obtain ⟨hothers, hrest⟩ :=
      ih hends (first.single_concat hbefore) (Component.read position mark tail).2.position
    rw [← htail] at hothers hrest
    rw [readAll_cons position tail hchild hspace]
    refine ⟨?_, hrest⟩
    rw [Plain.components, hfirst]
    simpa only [Except.bind, some_chain_soFar hbefore, List.append_assoc, List.singleton_append] using hothers

/-- The components of a compound behind its child mark, and what is left behind them. -/
def readBody (input : Remaining) : List Component × Remaining :=
  ((Compound.readTag input).1 ++ (Component.readAll (Compound.readTag input).2).1,
    (Component.readAll (Compound.readTag input).2).2)

/-- A compound is its child mark and what stands behind that. -/
theorem read_eq (input : Remaining) :
    TreeQuery.Compound.read input =
      (⟨(TreeQuery.Compound.readChild input).1, (readBody (TreeQuery.Compound.readChild input).2).1⟩,
        (readBody (TreeQuery.Compound.readChild input).2).2) := rfl

/-- A tag is read up to its end. -/
theorem Name.readTag {name rest : List Char} (h : Name name rest) (position : Nat) :
    TreeQuery.Compound.readTag ⟨position, name ++ rest⟩ =
      ([.tag (.ofList name)], ⟨position + Text.byteLength name, rest⟩) := by
  have hne : name.isEmpty = false := by simpa using h.ne_nil
  have hstar : ∀ tail, name ++ rest ≠ '*' :: tail := by
    obtain ⟨c, front, rfl, hc⟩ := h.head
    intro tail heq
    exact ne_of_class hc (by decide) (List.cons.inj heq).1
  unfold TreeQuery.Compound.readTag
  split
  next tail heq => exact absurd heq (hstar tail)
  next =>
    simp only [Remaining.skip, h.takeWhile_eq, h.dropWhile_eq, hne]
    rfl

/-- Where no tag begins none is read. -/
theorem readTag_none {text : List Char}
    (h : ∀ c ∈ text.head?, c ≠ '*' ∧ Text.isIdentifierChar c = false) (position : Nat) :
    TreeQuery.Compound.readTag ⟨position, text⟩ = ([], ⟨position, text⟩) := by
  cases text with
  | nil => rfl
  | cons c tail =>
    obtain ⟨hstar, hname⟩ := h c rfl
    unfold TreeQuery.Compound.readTag
    split
    next rest heq => exact absurd (List.cons.inj heq).1 hstar
    next => simp [Remaining.skip, hname, Text.byteLength]

/-- Behind a tag the components go on from its test. -/
theorem components_tag (name : List Char) (rest : List Component) :
    Plain.components compile none (.tag (.ofList name) :: rest) =
      Plain.components compile (soFar [.tag (.ofList (name.map Char.toLower))]) rest := by
  rw [Plain.components, Plain.component, ofTag_ofList]
  rfl

/-- What is read behind a child mark and compiles is derived by the grammar. -/
theorem body_of_readBody {input : Remaining} {result : Option Predicate}
    (h : Plain.components compile none (readBody input).1 = .ok result) :
    ∃ predicates rest, result = soFar predicates ∧ Body (Compiles compile) input.text predicates rest ∧
      Ends rest ∧ (readBody input).2.text = rest.dropWhile Text.isAsciiBlank := by
  obtain ⟨position, text⟩ := input
  by_cases hstar : ∃ tail, text = '*' :: tail
  · obtain ⟨tail, rfl⟩ := hstar
    have hall : Plain.components compile none (Component.readAll ⟨position + 1, tail⟩).1 = .ok result := h
    obtain ⟨predicates, rest, hresult, htests, hends, htext⟩ := tests_of_readAll (List.forall_mem_nil _) hall
    exact ⟨predicates, rest, hresult, .any htests, hends, htext⟩
  · by_cases hname : text.takeWhile Text.isIdentifierChar = []
    · have htag : TreeQuery.Compound.readTag ⟨position, text⟩ = ([], ⟨position, text⟩) := by
        refine readTag_none (fun c hc => ?_) position
        cases text with
        | nil => simp at hc
        | cons head tail =>
          cases hc
          exact ⟨fun heq => hstar ⟨tail, by rw [heq]⟩, by simpa [List.takeWhile_cons] using hname⟩
      simp only [readBody, htag, List.nil_append] at h ⊢
      obtain ⟨predicates, rest, hresult, htests, hends, htext⟩ := tests_of_readAll (List.forall_mem_nil _) h
      exact ⟨predicates, rest, hresult, .bare htests, hends, htext⟩
    · have htag := (name_takeWhile hname).readTag position
      rw [List.takeWhile_append_dropWhile] at htag
      simp only [readBody, htag, List.singleton_append, components_tag] at h ⊢
      obtain ⟨predicates, rest, hresult, htests, hends, htext⟩ := tests_of_readAll (single_tag _) h
      refine ⟨_, rest, hresult, ?_, hends, htext⟩
      have := Body.tag (name_takeWhile hname) htests
      rwa [List.takeWhile_append_dropWhile] at this

/-- What the grammar derives behind a child mark is read and compiles. -/
theorem Body.read {text rest : List Char} {predicates : List Predicate}
    (h : Body (Compiles compile) text predicates rest) (hblank : NoneBlank compile) (hends : Ends rest)
    (position : Nat) :
    Plain.components compile none (readBody ⟨position, text⟩).1 = .ok (soFar predicates) ∧
      (readBody ⟨position, text⟩).2.text = rest.dropWhile Text.isAsciiBlank := by
  cases h with
  | any tests => exact tests.readAll hblank hends (List.forall_mem_nil _) (position + 1)
  | tag hname tests =>
    simp only [readBody, hname.readTag position, List.singleton_append, components_tag]
    exact tests.readAll hblank hends (single_tag _) _
  | bare tests =>
    have htag : TreeQuery.Compound.readTag ⟨position, text⟩ = ([], ⟨position, text⟩) := by
      refine readTag_none (fun c hc => ?_) position
      rcases tests.marked with rfl | ⟨mark, tail, rfl, hmark⟩
      · rcases hends c hc with rfl | hspace
        · decide
        · have hname := of_isAsciiBlank (p := fun c => !Text.isIdentifierChar c) (by decide) hspace
          exact ⟨ne_of_class hspace (by decide), by simpa using hname⟩
      · cases hc
        obtain ⟨-, hstar, -, hname⟩ := of_mem_marks hmark
        exact ⟨hstar, hname⟩
    simp only [readBody, htag, List.nil_append]
    exact tests.readAll hblank hends (List.forall_mem_nil _) position

/-- Behind a child mark its blanks are read. -/
theorem readChild_child {blanks text : List Char} (hblanks : ∀ c ∈ blanks, Text.isAsciiBlank c = true)
    (hall : ∀ c ∈ text.head?, Text.isAsciiBlank c = false) (position : Nat) :
    ∃ after, TreeQuery.Compound.readChild ⟨position, '>' :: (blanks ++ text)⟩ = (true, ⟨after, text⟩) := by
  have hskip : (blanks ++ text).dropWhile Text.isAsciiBlank = text := by
    rw [List.dropWhile_append_of_pos hblanks]
    cases text with
    | nil => rfl
    | cons c rest => rw [List.dropWhile_cons_of_neg (by simp [hall c rfl])]
  refine ⟨position + 1 + Text.byteLength ((blanks ++ text).takeWhile Text.isAsciiBlank), ?_⟩
  simp only [TreeQuery.Compound.readChild, Remaining.skip, hskip]

/-- Where no child mark begins none is read. -/
theorem readChild_none {c : Char} (hc : c ≠ '>') (position : Nat) (tail : List Char) :
    TreeQuery.Compound.readChild ⟨position, c :: tail⟩ = (false, ⟨position, c :: tail⟩) := by
  unfold TreeQuery.Compound.readChild
  split
  next rest heq => exact absurd (List.cons.inj heq).1 hc
  next => rfl

/-- Behind a run of ASCII blanks stands something else. -/
theorem head_dropWhile_isAsciiBlank (text : List Char) :
    ∀ c ∈ (text.dropWhile Text.isAsciiBlank).head?, Text.isAsciiBlank c = false := by
  intro c hc
  have hne := List.head?_dropWhile_not Text.isAsciiBlank text
  rw [Option.mem_def.mp hc] at hne
  simpa using hne

/-- A compound that is read and compiles is derived by the grammar. -/
theorem compound_of_read {position : Nat} {c : Char} {tail : List Char} {part : Part}
    (hspace : Text.isAsciiBlank c = false)
    (h : Plain.compound compile (TreeQuery.Compound.read ⟨position, c :: tail⟩).1 = .ok part) :
    ∃ rest, Compound (Compiles compile) (c :: tail) part rest ∧ Ends rest ∧
      (TreeQuery.Compound.read ⟨position, c :: tail⟩).2.text = rest.dropWhile Text.isAsciiBlank := by
  by_cases hc : c = '>'
  · subst hc
    have hblanks : ∀ c ∈ tail.takeWhile Text.isAsciiBlank, Text.isAsciiBlank c = true :=
      fun c hc => List.mem_takeWhile_imp hc
    have hall := head_dropWhile_isAsciiBlank tail
    obtain ⟨after, hchild⟩ := readChild_child hblanks hall position
    rw [List.takeWhile_append_dropWhile] at hchild
    rw [read_eq, hchild] at h ⊢
    obtain ⟨result, hbody, hpart⟩ := Plain.bind_eq_ok_iff.mp h
    obtain ⟨predicates, rest, rfl, hderived, hends, htext⟩ := body_of_readBody hbody
    rw [soFar_getD] at hpart
    cases hpart
    have hempty : tail.dropWhile Text.isAsciiBlank = rest → ∀ c ∈ rest.head?, c = '>' := by
      intro heq c hc
      subst heq
      exact (hends c hc).resolve_right (by simp [hall c hc])
    refine ⟨rest, ?_, hends, htext⟩
    have hcompound := Compound.child hblanks hall hderived hempty
    rwa [List.takeWhile_append_dropWhile] at hcompound
  · rw [read_eq, readChild_none hc] at h ⊢
    obtain ⟨result, hbody, hpart⟩ := Plain.bind_eq_ok_iff.mp h
    obtain ⟨predicates, rest, rfl, hderived, hends, htext⟩ := body_of_readBody hbody
    rw [soFar_getD] at hpart
    cases hpart
    have hempty : c :: tail ≠ rest := by
      intro heq
      subst heq
      cases hends c rfl with
      | inl hmark => exact hc hmark
      | inr hblank => simp [hspace] at hblank
    exact ⟨rest, .plain hderived hempty, hends, htext⟩

/-- A compound that the grammar derives is read and compiles. -/
theorem Compound.read {text rest : List Char} {part : Part}
    (h : Compound (Compiles compile) text part rest) (hblank : NoneBlank compile) (hends : Ends rest)
    (position : Nat) :
    Plain.compound compile (TreeQuery.Compound.read ⟨position, text⟩).1 = .ok part ∧
      (TreeQuery.Compound.read ⟨position, text⟩).2.text = rest.dropWhile Text.isAsciiBlank := by
  cases h with
  | child hblanks hall body hempty =>
    obtain ⟨after, hchild⟩ := readChild_child hblanks hall position
    obtain ⟨hbody, htext⟩ := body.read hblank hends after
    rw [read_eq, hchild]
    refine ⟨?_, htext⟩
    rw [Plain.compound, hbody, Except.bind, soFar_getD]
    rfl
  | plain body hempty =>
    obtain ⟨c, tail, rfl, hc, -⟩ := body.head hempty
    obtain ⟨hbody, htext⟩ := body.read hblank hends position
    rw [read_eq, readChild_none hc]
    refine ⟨?_, htext⟩
    rw [Plain.compound, hbody, Except.bind, soFar_getD]
    rfl

/-- A run of compounds is read compound by compound. -/
theorem compounds_readAll (input : Remaining) (h : input.text ≠ []) :
    TreeQuery.Compound.readAll input = (TreeQuery.Compound.read input).1 ::
      TreeQuery.Compound.readAll (TreeQuery.Compound.read input).2 := by
  rw [TreeQuery.Compound.readAll, dif_neg h]

/-- Compounds are read from the text that is left. -/
theorem compounds_readAll_of_text {left : Remaining} {text : List Char} (h : left.text = text) :
    TreeQuery.Compound.readAll left = TreeQuery.Compound.readAll ⟨left.position, text⟩ := by
  subst h
  rfl

/-- At the end of a text no compound is read. -/
theorem compounds_readAll_nil (position : Nat) : TreeQuery.Compound.readAll ⟨position, []⟩ = [] := by
  rw [TreeQuery.Compound.readAll, dif_pos rfl]

/-- A run of compounds compiles to its first part and the parts of the others. -/
theorem parts_cons_eq_ok {first : TreeQuery.Compound} {rest : List TreeQuery.Compound}
    {result : List Part} :
    Plain.parts compile (first :: rest) = .ok result ↔ ∃ part others, result = part :: others ∧
      Plain.compound compile first = .ok part ∧ Plain.parts compile rest = .ok others := by
  rw [Plain.parts, Plain.bind_eq_ok_iff]
  constructor
  · intro h
    obtain ⟨part, hfirst, h⟩ := h
    obtain ⟨others, hrest, h⟩ := Plain.bind_eq_ok_iff.mp h
    exact ⟨part, others, (Except.ok.inj h).symm, hfirst, hrest⟩
  · intro h
    obtain ⟨part, others, hresult, hfirst, hrest⟩ := h
    exact ⟨part, hfirst, Plain.bind_eq_ok_iff.mpr ⟨others, hrest, congrArg Except.ok hresult.symm⟩⟩

/-- The compounds of a text that has no blank around it, once they are read and compile, are derived by
the grammar. -/
theorem compounds_of_readAll {position : Nat} {text : List Char} {result : List Part} (hne : text ≠ [])
    (hhead : ∀ c ∈ text.head?, Text.isAsciiBlank c = false)
    (hlast : ∀ c ∈ text.getLast?, Text.isAsciiBlank c = false)
    (h : Plain.parts compile (TreeQuery.Compound.readAll ⟨position, text⟩) = .ok result) :
    Compounds (Compiles compile) text result := by
  induction hlength : text.length using Nat.strong_induction_on generalizing position text result with
  | _ length ih =>
    have hinput : (Remaining.mk position text).text ≠ [] := hne
    have hshorter := TreeQuery.Compound.length_read hinput
    rw [compounds_readAll _ hne] at h
    obtain ⟨part, others, rfl, hpart, hothers⟩ := parts_cons_eq_ok.mp h
    obtain ⟨c, tail, rfl⟩ := List.exists_cons_of_ne_nil hne
    obtain ⟨rest, hcompound, hends, htext⟩ := compound_of_read (hhead c rfl) hpart
    obtain ⟨piece, hpiece, -⟩ := hcompound.takes
    by_cases hrest : rest = []
    · subst hrest
      rw [compounds_readAll_of_text htext, List.dropWhile_nil, compounds_readAll_nil] at hothers
      cases hothers
      exact .last hcompound
    · -- the last character is no blank, so there is something behind the blanks
      have hleft : rest.dropWhile Text.isAsciiBlank ≠ [] := by
        intro hnil
        have hmem := List.getLast?_eq_some_getLast hrest
        have hall := List.dropWhile_eq_nil_iff.mp hnil _ (List.getLast_mem hrest)
        rw [← List.getLast?_append_of_ne_nil piece hrest, ← hpiece] at hmem
        simp [hlast _ hmem] at hall
      have hend : ∀ c ∈ (rest.dropWhile Text.isAsciiBlank).getLast?, Text.isAsciiBlank c = false := by
        intro c hc
        apply hlast c
        rw [hpiece, List.getLast?_append_of_ne_nil piece hrest,
          ← List.takeWhile_append_dropWhile (p := Text.isAsciiBlank) (l := rest),
          List.getLast?_append_of_ne_nil _ hleft]
        exact hc
      rw [compounds_readAll_of_text htext] at hothers
      rw [htext, hlength] at hshorter
      have hnext := ih _ hshorter hleft (head_dropWhile_isAsciiBlank rest) hend hothers rfl
      obtain ⟨d, tail', rfl⟩ := List.exists_cons_of_ne_nil hrest
      rcases hends d rfl with rfl | hspace
      · exact .child hcompound hnext
      · rw [← List.takeWhile_append_dropWhile (p := Text.isAsciiBlank) (l := d :: tail')] at hcompound
        refine .blanks hcompound ?_ (fun c hc => List.mem_takeWhile_imp hc) hnext
        simp [hspace]

/-- The compounds that the grammar derives are read and compile. -/
theorem Compounds.readAll {text : List Char} {result : List Part}
    (h : Compounds (Compiles compile) text result) (hblank : NoneBlank compile) (position : Nat) :
    Plain.parts compile (TreeQuery.Compound.readAll ⟨position, text⟩) = .ok result := by
  induction h generalizing position with
  | last compound =>
    obtain ⟨c, tail, rfl, -⟩ := compound.head
    obtain ⟨hfirst, htext⟩ := compound.read hblank (by simp [Ends]) position
    rw [compounds_readAll _ (List.cons_ne_nil c tail), parts_cons_eq_ok]
    refine ⟨_, [], rfl, hfirst, ?_⟩
    rw [compounds_readAll_of_text htext, List.dropWhile_nil, compounds_readAll_nil]
    rfl
  | blanks compound hne hblanks others ih =>
    obtain ⟨c, tail, rfl, -⟩ := compound.head
    obtain ⟨hfirst, htext⟩ := compound.read hblank (ends_append hne hblanks _) position
    rw [compounds_readAll _ (List.cons_ne_nil c tail), parts_cons_eq_ok]
    refine ⟨_, _, rfl, hfirst, ?_⟩
    obtain ⟨d, next, rfl, hd⟩ := others.head
    rw [List.dropWhile_append_of_pos hblanks, List.dropWhile_cons_of_neg (by simp [hd])] at htext
    rw [compounds_readAll_of_text htext]
    exact ih _
  | child compound others ih =>
    obtain ⟨c, tail, rfl, -⟩ := compound.head
    obtain ⟨hfirst, htext⟩ := compound.read hblank (by simp [Ends]) position
    rw [compounds_readAll _ (List.cons_ne_nil c tail), parts_cons_eq_ok]
    refine ⟨_, _, rfl, hfirst, ?_⟩
    rw [List.dropWhile_cons_of_neg (by decide)] at htext
    rw [compounds_readAll_of_text htext]
    exact ih _

end TreeQuery.Grammar
