import TreeQuery.Proofs.Selector.Course

/-!
# Looking one character ahead

The pieces of a selector text end where their last character says so or the next one does: an identifier
before the first character that cannot go on with it, a parameter with its parenthesis, the name of a
function without a parameter before anything but a parenthesis. What takes a piece from a text thus takes
the same piece in front of any other rest with the same first character, and at the end of a text.

Main statement: a component that does not fail is found by looking no further than one character ahead,
whatever the functions come to.
-/

namespace TreeQuery

namespace Grammar

/-- A text that begins as another does, or is empty. -/
def Begins (other rest : List Char) : Prop := ∀ c ∈ other.head?, c ∈ rest.head?

/-- The empty text begins as any other. -/
theorem begins_nil (rest : List Char) : Begins [] rest := by
  simp [Begins]

/-- Texts with the same first character begin alike. -/
theorem begins_cons (c : Char) (other rest : List Char) : Begins (c :: other) (c :: rest) := fun _ h => h

/-- Behind the same piece texts begin alike if they do without it. -/
theorem Begins.append {other rest : List Char} (h : Begins other rest) (piece : List Char) :
    Begins (piece ++ other) (piece ++ rest) := by
  cases piece with
  | nil => exact h
  | cons c piece => exact begins_cons c _ _

/-- What is true of the first character of a text is true of that of a text that begins alike. -/
theorem Begins.head {other rest : List Char} (h : Begins other rest) {p : Char → Prop}
    (hrest : ∀ c ∈ rest.head?, p c) : ∀ c ∈ other.head?, p c := fun c hc => hrest c (h c hc)

/-- What begins as the end of a compound does is one. -/
theorem Begins.ends {other rest : List Char} (h : Begins other rest) (hends : Ends rest) : Ends other :=
  h.head hends

/-- A text begins as it does with more behind it. -/
theorem begins_append (piece more : List Char) : Begins piece (piece ++ more) := by
  cases piece with
  | nil => exact begins_nil more
  | cons c piece => exact begins_cons c _ _

/-- A text without parentheses is balanced. -/
theorem balanced_of_forall {piece : List Char} (h : ∀ c ∈ piece, c ≠ '(' ∧ c ≠ ')') (limit : Nat) :
    Balanced limit piece where
  equal := (paired_of_forall h).equal
  opened := (paired_of_forall h).opened
  nested := by
    intro front hfront
    rw [List.count_eq_zero.mpr fun hc => (h _ (hfront.subset hc)).1 rfl]
    exact Nat.zero_le _

/-- ASCII blanks are balanced. -/
theorem balanced_of_isAsciiBlank {blanks : List Char} (h : ∀ c ∈ blanks, Text.isAsciiBlank c = true)
    (limit : Nat) : Balanced limit blanks :=
  balanced_of_forall (fun c hc => ⟨ne_of_class (h c hc) (by decide), ne_of_class (h c hc) (by decide)⟩) limit

/-- Blanks of any kind are balanced. -/
theorem balanced_of_isBlank {blanks : List Char} (h : ∀ c ∈ blanks, Text.isBlank c = true) (limit : Nat) :
    Balanced limit blanks :=
  balanced_of_forall (fun c hc => ⟨ne_of_class (h c hc) (by decide), ne_of_class (h c hc) (by decide)⟩) limit

/-- A balanced text in front of a rest is a piece. -/
theorem takes_of_balanced {limit : Nat} {piece : List Char} (h : Balanced limit piece) (rest : List Char) :
    Takes (piece ++ rest) rest := ⟨piece, rfl, h.equal, h.opened⟩

/-- Balanced texts one behind the other are balanced. -/
theorem Balanced.append {limit : Nat} {first second : List Char} (h : Balanced limit first)
    (h' : Balanced limit second) : Balanced limit (first ++ second) where
  equal := by rw [List.count_append, List.count_append, h.equal, h'.equal]
  opened := (Paired.append ⟨h.equal, h.opened⟩ ⟨h'.equal, h'.opened⟩).opened
  nested := by
    intro front hfront
    rcases List.prefix_or_prefix_of_prefix hfront (List.prefix_append first second) with hle | ⟨more, rfl⟩
    · exact h.nested front hle
    · have := h'.nested more ((List.prefix_append_right_inj first).mp hfront)
      have := h.equal
      rw [List.count_append, List.count_append]
      omega

/-- One more pair of parentheses around a balanced text. -/
theorem Balanced.enclosed {limit : Nat} {raw : List Char} (h : Balanced limit raw) :
    Balanced (limit + 1) ('(' :: (raw ++ [')'])) where
  equal := h.paired.equal
  opened := h.paired.opened
  nested := by
    intro front hfront
    rcases List.prefix_cons_iff.mp hfront with rfl | ⟨inner, rfl, hinner⟩
    · exact Nat.zero_le _
    · have hcount : inner.count '(' ≤ inner.count ')' + limit := by
        rcases List.prefix_concat_iff.mp hinner with rfl | hle
        · rw [List.count_append, List.count_append, h.equal]
          have hopen : [')'].count '(' = 0 := rfl
          omega
        · exact h.nested inner hle
      rw [List.count_cons_self, List.count_cons_of_ne (by decide)]
      omega

/-- A balanced piece of a text that does not end with a blank. -/
structure Segment (piece : List Char) : Prop extends Balanced 32 piece where
  last : ∀ c ∈ piece.getLast?, Text.isBlank c = false

/-- A piece without parentheses and blanks. -/
theorem segment_of_forall {piece : List Char}
    (h : ∀ c ∈ piece, (c ≠ '(' ∧ c ≠ ')') ∧ Text.isBlank c = false) : Segment piece where
  toBalanced := balanced_of_forall (fun c hc => (h c hc).1) 32
  last := fun c hc => (h c (List.mem_of_getLast? hc)).2

/-- A single character that is neither a parenthesis nor a blank. -/
theorem segment_singleton {c : Char} (h : (c ≠ '(' ∧ c ≠ ')') ∧ Text.isBlank c = false) : Segment [c] :=
  segment_of_forall fun _ hd => List.mem_singleton.mp hd ▸ h

/-- A segment behind a balanced piece is the end of a segment, if there is any of it. -/
theorem Balanced.segment {front piece : List Char} (hfront : Balanced 32 front) (h : Segment piece)
    (hne : piece ≠ []) : Segment (front ++ piece) where
  toBalanced := hfront.append h.toBalanced
  last := by
    rw [List.getLast?_append_of_ne_nil front hne]
    exact h.last

/-- Segments one behind the other are one segment. -/
theorem Segment.append {first second : List Char} (h : Segment first) (h' : Segment second) :
    Segment (first ++ second) := by
  by_cases hne : second = []
  · rwa [hne, List.append_nil]
  · exact h.toBalanced.segment h' hne

/-- A character of identifiers is neither a parenthesis nor a blank. -/
theorem plain_of_isIdentifierChar {c : Char} (h : Text.isIdentifierChar c = true) :
    (c ≠ '(' ∧ c ≠ ')') ∧ Text.isBlank c = false := by
  refine ⟨⟨ne_of_class h (by decide), ne_of_class h (by decide)⟩, ?_⟩
  by_contra hblank
  rw [Bool.not_eq_false, Text.isBlank, List.contains_iff_mem] at hblank
  have hall : Text.blanks.all (fun c => !Text.isIdentifierChar c) = true := by decide
  simpa [h] using List.all_eq_true.mp hall c hblank

/-- An identifier is a segment. -/
theorem Name.segment {name rest : List Char} (h : Name name rest) : Segment name :=
  segment_of_forall fun c hc => plain_of_isIdentifierChar (h.all c hc)

/-- A parameter between its parentheses is a segment. -/
theorem segment_parameter {raw : List Char} (h : Balanced 31 raw) : Segment ('(' :: (raw ++ [')'])) where
  toBalanced := h.enclosed
  last := by
    rw [← List.cons_append, List.getLast?_concat]
    intro c hc
    cases hc
    decide

/-- Something takes a segment from the beginning of a text, and so it does in front of any rest that
begins as the rest of the text does. -/
def Foresees (takes : List Char → List Char → Prop) (text rest : List Char) : Prop :=
  ∃ piece, Segment piece ∧ text = piece ++ rest ∧
    ∀ other, Begins other rest → takes (piece ++ other) other

section

variable {takes more : List Char → List Char → Prop} {text middle rest : List Char}

/-- What takes nothing foresees its rest. -/
theorem foresees_refl (h : ∀ other, Begins other text → takes other other) : Foresees takes text text :=
  ⟨[], segment_of_forall (by simp), rfl, h⟩

/-- What takes a segment wherever it stands foresees its rest. -/
theorem foresees_append (piece : List Char) (hpiece : Segment piece)
    (h : ∀ other, Begins other rest → takes (piece ++ other) other) :
    Foresees takes (piece ++ rest) rest := ⟨piece, hpiece, rfl, h⟩

/-- One thing after another foresees the rest of the second. -/
theorem Foresees.trans (h : Foresees takes text middle) (h' : Foresees more middle rest) :
    Foresees (fun text rest => ∃ middle, takes text middle ∧ more middle rest) text rest := by
  obtain ⟨piece, hpiece, rfl, htakes⟩ := h
  obtain ⟨piece', hpiece', rfl, hmore⟩ := h'
  refine ⟨piece ++ piece', hpiece.append hpiece', (List.append_assoc _ _ _).symm, fun other hother => ?_⟩
  rw [List.append_assoc]
  exact ⟨piece' ++ other, htakes _ (hother.append piece'), hmore other hother⟩

/-- What comes of something that foresees its rest does so, too. -/
theorem Foresees.imp (h : Foresees takes text rest) (himp : ∀ text rest, takes text rest → more text rest) :
    Foresees more text rest := by
  obtain ⟨piece, hpiece, htext, htakes⟩ := h
  exact ⟨piece, hpiece, htext, fun other hother => himp _ _ (htakes other hother)⟩

end

/-- A maximal identifier is maximal in front of what begins as its rest does. -/
theorem Name.begins {name rest other : List Char} (h : Name name rest) (hother : Begins other rest) :
    Name name other := ⟨h.ne_nil, h.all, hother.head h.maximal⟩

end Grammar

namespace Course

open Grammar

/-- What stands behind the name of a function is found by looking one character ahead. -/
theorem Parameter.foresees {text rest : List Char} {value : Option String}
    (h : Parameter text (.ok (value, rest))) :
    Foresees (fun text rest => Parameter text (.ok (value, rest))) text rest := by
  have hparameter : ∀ {raw : List Char}, Balanced 31 raw →
      (∀ rest, Parameter ('(' :: (raw ++ ')' :: rest)) (.ok (value, rest))) →
        Foresees (fun text rest => Parameter text (.ok (value, rest))) ('(' :: (raw ++ ')' :: rest)) rest := by
    intro raw hraw hall
    have hsplit : ∀ rest, '(' :: (raw ++ ')' :: rest) = '(' :: (raw ++ [')']) ++ rest := by simp
    rw [hsplit]
    exact foresees_append _ (segment_parameter hraw) fun other _ => hsplit other ▸ hall other
  cases h with
  | absent hopen => exact foresees_refl fun other hother => .absent (hother.head hopen)
  | blank hraw hblank => exact hparameter hraw fun _ => .blank hraw hblank
  | present hraw hblank => exact hparameter hraw fun _ => .present hraw hblank

variable {functions : Functions} {Inner : String → Except Selector.Error Selector → List Call → Prop}
variable {whole : List Char}

/-- A component that does not fail is found by looking one character ahead. -/
theorem Step.foresees {text rest : List Char} {earlier : Option Predicate} {predicate : Predicate}
    {calls : List Call} (h : Step functions Inner whole text earlier (.ok (predicate, rest)) calls) :
    Foresees (fun text rest => ∀ whole,
      Step functions Inner whole text earlier (.ok (predicate, rest)) calls) text rest := by
  have hnamed : ∀ {mark : Char} {name text : List Char}, mark ∈ marks → Name name text →
      Foresees (fun text rest => ∃ name', name' = name ∧ text = mark :: (name' ++ rest) ∧ Name name' rest)
        (mark :: (name ++ text)) text := by
    intro mark name text hmark hname
    have hsegment : Segment (mark :: name) := by
      have hmark : Segment [mark] := by
        simp only [marks, List.mem_cons, List.not_mem_nil, or_false] at hmark
        rcases hmark with rfl | rfl | rfl <;> exact segment_singleton (by decide)
      exact hmark.append hname.segment
    exact foresees_append (mark :: name) hsegment fun other hother =>
      ⟨name, rfl, rfl, hname.begins hother⟩
  generalize houtcome : Except.ok (predicate, rest) = outcome at h
  cases h with
  | id hname =>
    cases houtcome
    refine (hnamed (by decide) hname).imp fun text rest h whole => ?_
    obtain ⟨_, rfl, rfl, hname⟩ := h
    exact .id hname
  | hasClass hname =>
    cases houtcome
    refine (hnamed (by decide) hname).imp fun text rest h whole => ?_
    obtain ⟨_, rfl, rfl, hname⟩ := h
    exact .hasClass hname
  | @call _ _ _ _ _ _ _ result _ hname hresolve parameter follows =>
    cases result with
    | error error => cases houtcome
    | ok value =>
      cases houtcome
      refine ((hnamed (by decide) hname).trans parameter.foresees).imp fun text rest h whole => ?_
      obtain ⟨_, ⟨_, rfl, rfl, hname⟩, parameter⟩ := h
      exact .call hname hresolve parameter follows
  | nameless => cases houtcome
  | unknown => cases houtcome
  | parentheses => cases houtcome
  | unexpected => cases houtcome

end Course

end TreeQuery
