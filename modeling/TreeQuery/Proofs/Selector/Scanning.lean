import TreeQuery.Proofs.Selector.Calls
import TreeQuery.Proofs.Selector.Checked

/-!
# The index stands between characters

Between two pieces of a selector text the index is where a character begins or the text ends. Inside of a
parameter it also stops in the middle of characters, but it looks for parentheses only, and no byte in the
middle of a character is one. So the scan comes out of the parameter at the end of a character again.

Each step of the reader is said here for an index that stands in front of a rest of the text: what it gives
and where it leaves the index. No check fails.
-/

namespace TreeQuery.Checked

open Grammar

variable {α β σ : Type}

/-- Behind a failure nothing goes on. -/
@[simp] theorem throw_bind (error : Selector.Error) (next : α → Checked β) :
    (throw error : Checked α) >>= next = throw error := rfl

/-- An index stands where the rest of a text begins. -/
structure At (source : List Char) (index : Nat) (rest : List Char) : Prop where
  suffix : rest <:+ source
  stands : Course.Stands source index rest

theorem at_zero (source : List Char) : At source 0 source := ⟨List.suffix_rfl, Nat.zero_add _⟩

section

variable {source rest : List Char} {index : Nat}

/-- Behind a piece of the rest the index stands where the others begin. -/
theorem At.append {piece : List Char} (h : At source index (piece ++ rest)) :
    At source (index + Text.byteLength piece) rest :=
  ⟨(List.suffix_append piece rest).trans h.suffix, h.stands.append⟩

/-- Behind an ASCII character the index stands one byte further. -/
theorem At.cons {c : Char} (hsize : c.utf8Size = 1) (h : At source index (c :: rest)) :
    At source (index + 1) rest :=
  ⟨(List.suffix_cons c rest).trans h.suffix, hsize ▸ h.stands.cons⟩

/-- There is only one place where a rest begins. -/
theorem At.index_eq {other : Nat} (h : At source index rest) (h' : Course.Stands source other rest) :
    other = index := Nat.add_right_cancel (h'.trans h.stands.symm)

/-- The text in front of the index. -/
theorem At.exists_front (h : At source index rest) :
    ∃ front, source = front ++ rest ∧ index = Text.byteLength front := by
  obtain ⟨front, rfl⟩ := h.suffix
  have hstands := h.stands
  rw [Course.Stands, Text.byteLength_append] at hstands
  exact ⟨front, rfl, Nat.add_right_cancel hstands⟩

/-- The bytes from the index on are those of the rest. -/
theorem At.getElem?_bytes (h : At source index rest) (count : Nat) :
    (Text.bytes source)[index + count]? = (Text.bytes rest)[count]? := by
  obtain ⟨front, rfl, rfl⟩ := h.exists_front
  rw [Text.bytes_append, ← Text.length_bytes, List.getElem?_append_right (Nat.le_add_right _ _),
    Nat.add_sub_cancel_left]

/-- What the index stands in front of is the first byte of the rest. -/
theorem At.peek_eq (h : At source index rest) : peek source index = (Text.bytes rest).head? := by
  rw [List.head?_eq_getElem?]
  exact h.getElem?_bytes 0

/-- What the index stands in front of is of a class of ASCII characters where the first character is. -/
theorem At.any_peek_eq {p : Char → Bool} (hp : Text.OnlyAscii p) (h : At source index rest) :
    (peek source index).any (Text.isByteOf p) = rest.head?.any p := by
  rw [h.peek_eq, Text.any_isByteOf_head? hp]

/-- There is a round for each byte of the rest, and one more. -/
theorem At.roundsFrom_eq (h : At source index rest) : roundsFrom source index = Text.byteLength rest + 1 := by
  rw [roundsFrom, ← h.stands, Nat.add_sub_cancel_left]

/-- There is a round for each character of the rest, and one more. -/
theorem At.length_lt_roundsFrom (h : At source index rest) : rest.length < roundsFrom source index := by
  rw [h.roundsFrom_eq]
  exact Nat.lt_succ_of_le (Text.length_le_byteLength rest)

/-- The index has not come to the end where something is left. -/
theorem At.lt {c : Char} (h : At source index (c :: rest)) : index + c.utf8Size ≤ Text.byteLength source := by
  have hstands := h.stands
  rw [Course.Stands, Text.byteLength_cons] at hstands
  omega

/-- In front of the end the index goes up. -/
theorem advance_eq (hlt : index < Text.byteLength source) : advance source index = pure (index + 1) := if_pos hlt

/-- A position at which a rest of the text begins is a good one for a fault. -/
theorem At.raise_eq (h : At source index rest) (fault : Fault) :
    (raise source fault index : Checked α) = throw (.invalid fault index) := by
  obtain ⟨front, rfl, rfl⟩ := h.exists_front
  rw [raise, Text.cut?_eq_some_iff.mpr ⟨rfl, rfl⟩, Option.isSome_some, if_pos rfl]

/-- The piece between two places is cut out. -/
theorem At.slice_eq {piece : List Char} (h : At source index (piece ++ rest)) :
    slice source index (index + Text.byteLength piece) = pure piece := by
  obtain ⟨front, rfl, rfl⟩ := h.exists_front
  have hstop : Text.cut? (Text.byteLength front + Text.byteLength piece) (front ++ (piece ++ rest)) =
      some (front ++ piece, rest) :=
    Text.cut?_eq_some_iff.mpr ⟨(List.append_assoc _ _ _).symm, (Text.byteLength_append _ _).symm⟩
  have hstart : Text.cut? (Text.byteLength front) (front ++ piece) = some (front, piece) :=
    Text.cut?_eq_some_iff.mpr ⟨rfl, rfl⟩
  simp only [slice, hstop, Option.bind_some, hstart]

/-- A character that is next is eaten. -/
theorem At.eat_eq {mark : Char} (hmark : mark.utf8Size = 1) (h : At source index (mark :: rest)) :
    eat source mark index = pure (true, index + 1) := by
  have hpeek : peek source index = some mark.toUInt8 := by
    rw [h.peek_eq]
    exact (Text.head?_bytes_eq_some_iff hmark).mpr rfl
  have hlt := h.lt
  rw [eat, if_pos hpeek, advance_eq (by omega), pure_bind]

/-- A character that is not next is not eaten. -/
theorem At.eat_ne {mark : Char} (hmark : mark.utf8Size = 1) (hne : ∀ c ∈ rest.head?, c ≠ mark)
    (h : At source index rest) : eat source mark index = pure (false, index) := by
  have hpeek : peek source index ≠ some mark.toUInt8 := by
    rw [h.peek_eq, ne_eq, Text.head?_bytes_eq_some_iff hmark]
    exact fun hhead => hne mark hhead rfl
  rw [eat, if_neg hpeek]

/-- In front of another character none is eaten. -/
theorem At.eat_other {mark c : Char} (hmark : mark.utf8Size = 1) (hne : c ≠ mark)
    (h : At source index (c :: rest)) : eat source mark index = pure (false, index) := by
  refine h.eat_ne hmark ?_
  rintro d ⟨⟩
  exact hne

/-- One more round that does not come to a value yet. -/
theorem loop_inl {round : σ → Checked (σ ⊕ α)} {state after : σ} (h : round state = pure (.inl after))
    (rounds : Nat) : loop round (rounds + 1) state = loop round rounds after := by
  rw [loop, h, pure_bind]

/-- A round that comes to a value is the last. -/
theorem loop_inr {round : σ → Checked (σ ⊕ α)} {state : σ} {value : α} (h : round state = pure (.inr value))
    (rounds : Nat) : loop round (rounds + 1) state = pure value := by
  rw [loop, h, pure_bind]

/-- A round that fails is the last. -/
theorem loop_throw {round : σ → Checked (σ ⊕ α)} {state : σ} {error : Selector.Error}
    (h : round state = throw error) (rounds : Nat) : loop round (rounds + 1) state = throw error := by
  rw [loop, h, throw_bind]

/-- A run of ASCII characters of one class is left behind in as many rounds, and one more. -/
theorem loop_eatOne {p : Char → Bool} (hp : Text.OnlyAscii p) {rounds : Nat}
    (h : At source index rest) (hrounds : rest.length < rounds) :
    loop (eatOne source p) rounds index = pure (index + Text.byteLength (rest.takeWhile p)) := by
  induction rest generalizing index rounds with
  | nil =>
    obtain ⟨rounds, rfl⟩ := Nat.exists_eq_add_one_of_ne_zero (Nat.ne_zero_of_lt hrounds)
    exact loop_inr (by rw [eatOne, h.any_peek_eq hp]; rfl) rounds
  | cons c tail ih =>
    obtain ⟨rounds, rfl⟩ := Nat.exists_eq_add_one_of_ne_zero (Nat.ne_zero_of_lt hrounds)
    cases hc : p c with
    | false =>
      rw [List.takeWhile_cons, hc]
      exact loop_inr (by rw [eatOne, h.any_peek_eq hp, List.head?_cons, Option.any_some, hc]; rfl) rounds
    | true =>
      have hsize := hp c hc
      have hlt := h.lt
      have hround : eatOne source p index = pure (.inl (index + 1)) := by
        rw [eatOne, h.any_peek_eq hp, List.head?_cons, Option.any_some, hc, if_pos rfl,
          advance_eq (by omega), pure_bind]
      rw [loop_inl hround, ih (h.cons hsize) (Nat.lt_of_succ_lt_succ hrounds), List.takeWhile_cons, hc,
        if_pos rfl, Text.byteLength_cons, hsize, Nat.add_assoc]

/-- A run of ASCII characters of one class is left behind. -/
theorem At.eatWhile_eq {p : Char → Bool} (hp : Text.OnlyAscii p) (h : At source index rest) :
    eatWhile source p index = pure (index + Text.byteLength (rest.takeWhile p)) :=
  loop_eatOne hp h h.length_lt_roundsFrom

/-- Behind a run of characters of one class the index stands where the others begin. -/
theorem At.skip (h : At source index rest) (p : Char → Bool) :
    At source (index + Text.byteLength (rest.takeWhile p)) (rest.dropWhile p) := by
  rw [← List.takeWhile_append_dropWhile (p := p) (l := rest)] at h
  exact h.append

/-- No run begins with a character of another class. -/
theorem takeWhile_eq_nil {p : Char → Bool} (h : ∀ c ∈ rest.head?, p c = false) : rest.takeWhile p = [] := by
  cases rest with
  | nil => rfl
  | cons c tail => rw [List.takeWhile_cons, h c rfl, if_neg Bool.false_ne_true]

/-- The identifier that is next is eaten, even if it is empty. -/
theorem At.eatIdentifier_eq (h : At source index rest) :
    eatIdentifier source index = pure (rest.takeWhile Text.isIdentifierChar,
      index + Text.byteLength (rest.takeWhile Text.isIdentifierChar)) := by
  have hpiece := h
  rw [← List.takeWhile_append_dropWhile (p := Text.isIdentifierChar) (l := rest)] at hpiece
  rw [eatIdentifier, h.eatWhile_eq Text.onlyAscii_isIdentifierChar, pure_bind, hpiece.slice_eq, pure_bind]

/-- A name is eaten where an identifier has to be. -/
theorem At.expectIdentifier_eq {name : List Char} (hname : Name name rest) (mark : Char)
    (h : At source index (name ++ rest)) :
    expectIdentifier source mark index = pure (name, index + Text.byteLength name) := by
  rw [expectIdentifier, h.eatIdentifier_eq, pure_bind, hname.takeWhile_eq]
  exact if_neg (by simpa using hname.ne_nil)

/-- Where an identifier has to be and is not, the fault is right there. -/
theorem At.expectIdentifier_throw (hrest : ∀ c ∈ rest.head?, Text.isIdentifierChar c = false) (mark : Char)
    (h : At source index rest) :
    expectIdentifier source mark index = throw (.invalid (.missingIdentifier mark) index) := by
  rw [expectIdentifier, h.eatIdentifier_eq, pure_bind, takeWhile_eq_nil hrest]
  exact h.raise_eq _

/-- Blanks that are next are eaten. -/
theorem At.eatBlanks_eq (h : At source index rest) :
    eatBlanks source index = pure (rest.head?.any Text.isAsciiBlank,
      index + Text.byteLength (rest.takeWhile Text.isAsciiBlank)) := by
  rw [eatBlanks, h.eatWhile_eq Text.onlyAscii_isAsciiBlank, pure_bind]
  congr 2
  cases rest with
  | nil => simp [Text.byteLength]
  | cons c tail =>
    have hpos := c.utf8Size_pos
    cases hc : Text.isAsciiBlank c with
    | false => simp [hc, Text.byteLength]
    | true =>
      rw [List.takeWhile_cons, hc, if_pos rfl, Text.byteLength_cons, List.head?_cons, Option.any_some, hc]
      exact decide_eq_true (by omega)

/-- Where a compound ends the blanks behind it are left behind. -/
theorem At.eatEnd_eq (hends : Ends rest) (h : At source index rest) :
    eatEnd source index = pure (index + Text.byteLength (rest.takeWhile Text.isAsciiBlank)) := by
  cases rest with
  | nil =>
    have hstands := h.stands
    exact if_pos (Nat.le_of_eq hstands.symm)
  | cons c tail =>
    have hpos := c.utf8Size_pos
    have hlt := h.lt
    rw [eatEnd, if_neg (by omega), h.eatBlanks_eq, pure_bind]
    cases hc : Text.isAsciiBlank c with
    | true => simp [hc]
    | false =>
      have hchild : c = '>' := by simpa [Ends, hc] using hends
      have hpeek : peek source index = some '>'.toUInt8 := by
        rw [h.peek_eq, hchild]
        exact (Text.head?_bytes_eq_some_iff rfl).mpr rfl
      simp [hc, Text.byteLength, hpeek]

/-- Where a compound does not end the character is a fault. -/
theorem At.eatEnd_throw {c : Char} (hends : ¬ Ends (c :: rest)) (h : At source index (c :: rest)) :
    eatEnd source index = throw (.invalid .unexpectedCharacter index) := by
  have hpos := c.utf8Size_pos
  have hlt := h.lt
  obtain ⟨hchild, hblank⟩ : c ≠ '>' ∧ Text.isAsciiBlank c = false := by simpa [Ends, not_or] using hends
  have hpeek : peek source index ≠ some '>'.toUInt8 := by
    rw [h.peek_eq, ne_eq, Text.head?_bytes_eq_some_iff rfl, List.head?_cons, Option.some.injEq]
    exact hchild
  rw [eatEnd, if_neg (by omega), h.eatBlanks_eq, pure_bind]
  simp [hblank, Text.byteLength, hpeek, h.raise_eq]

/-- What the scan of a parameter comes to, some of which has been scanned already. -/
def scanned (sofar : List Char) : Except (Fault × Nat) (List Char × Remaining) → Checked (List Char × Nat)
  | .error (fault, position) => throw (.invalid fault position)
  | .ok (raw, left) => pure (sofar ++ raw, left.position)

/-- One more character has been scanned. -/
theorem scanned_map (sofar : List Char) (c : Char) (found : Except (Fault × Nat) (List Char × Remaining)) :
    scanned sofar (found.map fun (raw, left) => (c :: raw, left)) = scanned (sofar ++ [c]) found := by
  cases found with
  | error fault => rfl
  | ok found => simp [scanned, Except.map]

/-- The scan goes through the bytes of a character that is no parenthesis, one after another. -/
theorem At.loop_through {c : Char} (hopen : c ≠ '(') (hclose : c ≠ ')') (h : At source index (c :: rest))
    (start opened rounds : Nat) {left count : Nat} (hcount : count + left = c.utf8Size) :
    loop (eatInside source start) (rounds + left) (index + count, opened) =
      loop (eatInside source start) rounds (index + c.utf8Size, opened) := by
  induction left generalizing count with
  | zero => rw [← hcount]; rfl
  | succ left ih =>
    have hlt := h.lt
    have hlength : count < (String.utf8EncodeChar c).length := by
      rw [String.length_utf8EncodeChar]
      omega
    have hpeek : peek source (index + count) = some (String.utf8EncodeChar c)[count] := by
      rw [peek, h.getElem?_bytes, Text.bytes_cons, List.getElem?_append_left hlength,
        List.getElem?_eq_getElem hlength]
    -- whether the byte is the first of the character or not, it looks like no parenthesis
    have hmem : (String.utf8EncodeChar c)[count] ∈ String.utf8EncodeChar c := List.getElem_mem hlength
    have hround : eatInside source start (index + count, opened) = pure (.inl (index + count + 1, opened)) := by
      rw [eatInside, hpeek]
      simp only [advance_eq (show index + count < Text.byteLength source by omega), pure_bind]
      rw [if_neg (mt (Text.eq_toUInt8_iff_of_mem rfl hmem).mp hopen),
        if_neg (mt (Text.eq_toUInt8_iff_of_mem rfl hmem).mp hclose)]
    rw [← Nat.add_assoc, loop_inl hround, Nat.add_assoc]
    exact ih (by omega)

/-- An ASCII character is its own byte, and the index goes up behind it. -/
theorem At.peek_and_advance {mark : Char} (hmark : mark.utf8Size = 1) (h : At source index (mark :: rest)) :
    peek source index = some mark.toUInt8 ∧ advance source index = pure (index + 1) := by
  have hlt := h.lt
  refine ⟨?_, advance_eq (by omega)⟩
  rw [h.peek_eq]
  exact (Text.head?_bytes_eq_some_iff hmark).mpr rfl

/-- A parenthesis that opens is scanned, unless it is inside of too many others. -/
theorem At.eatInside_open (h : At source index ('(' :: rest)) (start opened : Nat) :
    eatInside source start (index, opened) =
      if opened < Component.maxNesting then pure (.inl (index + 1, opened + 1))
      else throw (.invalid .nestedTooDeeply index) := by
  obtain ⟨hpeek, hadvance⟩ := h.peek_and_advance rfl
  simp only [eatInside, hpeek, hadvance, pure_bind, if_true]
  by_cases hnesting : opened < Component.maxNesting
  · rw [if_pos hnesting, if_neg (Nat.not_lt.mpr hnesting)]
  · rw [if_neg hnesting, if_pos (Nat.lt_succ_of_le (Nat.not_lt.mp hnesting))]
    exact h.raise_eq _

/-- A parenthesis that closes another inside of others is scanned. -/
theorem At.eatInside_close (h : At source index (')' :: rest)) (start : Nat) {opened : Nat} (hopened : 1 < opened) :
    eatInside source start (index, opened) = pure (.inl (index + 1, opened - 1)) := by
  obtain ⟨hpeek, hadvance⟩ := h.peek_and_advance rfl
  obtain ⟨others, rfl⟩ : ∃ others, opened = others + 2 := ⟨opened - 2, by omega⟩
  have hother : ')'.toUInt8 ≠ '('.toUInt8 := by decide
  simp [eatInside, hpeek, hadvance, hother, decrement]

/-- The parenthesis that closes the last one ends the scan. -/
theorem At.eatInside_last {start : Nat} {raw : List Char} (hstart : At source start (raw ++ ')' :: rest))
    (h : At source index (')' :: rest)) :
    eatInside source start (index, 1) = pure (.inr (raw, index + 1)) := by
  obtain ⟨hpeek, hadvance⟩ := h.peek_and_advance rfl
  have hindex : start + Text.byteLength raw = index := h.index_eq hstart.append.stands
  have hslice : slice source start index = pure raw := hindex ▸ hstart.slice_eq
  have hother : ')'.toUInt8 ≠ '('.toUInt8 := by decide
  simp [eatInside, hpeek, hadvance, hother, decrement, hslice]

/-- The scan inside of parentheses comes to what the text between them is. -/
theorem loop_eatInside {start opened : Nat} {sofar opening : List Char} {rounds : Nat}
    (hopening : At source (start - 1) opening) (hstart : At source start (sofar ++ rest))
    (h : At source index rest) (hopened : 1 ≤ opened) (hrounds : Text.byteLength rest < rounds) :
    loop (eatInside source start) rounds (index, opened) =
      scanned sofar (Component.balanced (start - 1) opened index rest) := by
  induction rest generalizing index opened sofar rounds with
  | nil =>
    obtain ⟨rounds, rfl⟩ := Nat.exists_eq_add_one_of_ne_zero (Nat.ne_zero_of_lt hrounds)
    refine loop_throw ?_ rounds
    rw [eatInside, h.peek_eq]
    exact hopening.raise_eq _
  | cons c tail ih =>
    have hnext : At source start ((sofar ++ [c]) ++ tail) := by
      rwa [List.append_assoc, List.singleton_append]
    rw [Text.byteLength_cons] at hrounds
    obtain ⟨rounds, rfl⟩ : ∃ others, rounds = others + c.utf8Size := ⟨rounds - c.utf8Size, by omega⟩
    have hrest : Text.byteLength tail < rounds := by omega
    by_cases hopen : c = '('
    · subst hopen
      have hround := h.eatInside_open start opened
      rw [Component.balanced, if_pos rfl]
      by_cases hnesting : opened < Component.maxNesting
      · rw [if_pos hnesting] at hround ⊢
        rw [scanned_map, ← ih hnext (h.cons rfl) (Nat.le_succ_of_le hopened) hrest]
        exact loop_inl hround rounds
      · rw [if_neg hnesting] at hround ⊢
        exact loop_throw hround rounds
    by_cases hclose : c = ')'
    · subst hclose
      rw [Component.balanced, if_neg hopen, if_pos rfl]
      by_cases hlast : opened ≤ 1
      · obtain rfl : opened = 1 := Nat.le_antisymm hlast hopened
        rw [if_pos hlast, scanned, List.append_nil]
        exact loop_inr (hstart.eatInside_last h) rounds
      · rw [if_neg hlast, scanned_map, ← ih hnext (h.cons rfl) (by omega) hrest]
        exact loop_inl (h.eatInside_close start (Nat.lt_of_not_le hlast)) rounds
    · have hafter : At source (index + c.utf8Size) tail :=
        ⟨(List.suffix_cons c tail).trans h.suffix, h.stands.cons⟩
      rw [Component.balanced, if_neg hopen, if_neg hclose, scanned_map, ← ih hnext hafter hopened hrest]
      exact h.loop_through hopen hclose start opened rounds (Nat.zero_add _)

/-- The text between parentheses is scanned from behind the first of them. -/
theorem At.eatParenthesized_eq (h : At source index ('(' :: rest)) :
    eatParenthesized source (index + 1) = scanned [] (Component.balanced index 1 (index + 1) rest) := by
  have hinside : At source (index + 1) rest := h.cons rfl
  refine loop_eatInside h hinside hinside (Nat.le_refl 1) ?_
  rw [hinside.roundsFrom_eq]
  exact Nat.lt_succ_self _

/-- The parameter behind the name of a function is eaten, or what is wrong with it is found. -/
theorem At.eatParameter_eq (h : At source index rest) :
    eatParameter source index =
      match Component.readParameter ⟨index, rest⟩ with
      | (.ok value, left) => pure (value, left.position)
      | (.error (fault, position), _) => throw (.invalid fault position) := by
  by_cases hopen : ∃ inside, rest = '(' :: inside
  · obtain ⟨inside, rfl⟩ := hopen
    rw [eatParameter, h.eat_eq rfl, pure_bind]
    simp only [if_true, h.eatParenthesized_eq, Component.readParameter]
    rcases hscan : Component.balanced index 1 (index + 1) inside with ⟨fault, position⟩ | ⟨raw, left⟩
    · rfl
    · simp only [scanned, List.nil_append, pure_bind, List.isEmpty_iff, Text.trimChars_eq_nil_iff]
  · have hne : ∀ c ∈ rest.head?, c ≠ '(' := by
      intro c hc heq
      obtain ⟨inside, rfl⟩ := List.head?_eq_some_iff.mp hc
      exact hopen ⟨inside, by rw [heq]⟩
    rw [eatParameter, h.eat_ne rfl hne, pure_bind, readParameter_none hne index]
    rfl

/-- A star that begins a compound counts for nothing. -/
theorem At.eatTag_star (h : At source index ('*' :: rest)) : eatTag source index = pure (none, index + 1) := by
  rw [eatTag, h.eat_eq rfl]
  rfl

/-- A name that begins a compound is its tag. -/
theorem At.eatTag_name {name : List Char} (hname : Name name rest) (h : At source index (name ++ rest)) :
    eatTag source index = pure (some (.chain none (.ofTag (.ofList name))), index + Text.byteLength name) := by
  have hne : ∀ c ∈ (name ++ rest).head?, c ≠ '*' := by
    obtain ⟨c, tail, rfl, hc⟩ := hname.head
    rintro d ⟨⟩
    exact ne_of_class hc (by decide)
  rw [eatTag, h.eat_ne rfl hne, pure_bind]
  simp [h.eatIdentifier_eq, hname.takeWhile_eq, hname.ne_nil]

/-- A compound that begins with neither has no tag. -/
theorem At.eatTag_none (hbare : ∀ c ∈ rest.head?, c ≠ '*' ∧ Text.isIdentifierChar c = false)
    (h : At source index rest) : eatTag source index = pure (none, index) := by
  rw [eatTag, h.eat_ne rfl fun c hc => (hbare c hc).1, pure_bind]
  simp [h.eatIdentifier_eq, takeWhile_eq_nil fun c hc => (hbare c hc).2, Text.byteLength]

/-- A compound ends where nothing is left. -/
theorem ends_nil : Ends [] := by
  rintro c ⟨⟩

/-- No mark stands where a compound ends. -/
theorem unmarked_of_ends (hends : Ends rest) : ∀ c ∈ rest.head?, c ∉ marks := by
  intro c hc hmark
  obtain ⟨hchild, -, hblank, -⟩ := of_mem_marks hmark
  rcases hends c hc with heq | heq
  · exact hchild heq
  · exact Bool.false_ne_true (hblank.symm.trans heq)

section

variable (functions : Functions) (compile : String → Checked Selector) (earlier : Option Predicate)

/-- Where no mark stands the compound has to end. -/
theorem At.eatComponent_unmarked (hmark : ∀ c ∈ rest.head?, c ∉ marks) (h : At source index rest) :
    eatComponent source functions compile (earlier, index) =
      eatEnd source index >>= fun index => pure (.inr (earlier, index)) := by
  have hne : ∀ mark ∈ marks, ∀ c ∈ rest.head?, c ≠ mark := by
    rintro mark hmem c hc rfl
    exact hmark c hc hmem
  simp [eatComponent, h.eat_ne rfl (hne '#' (by decide)), h.eat_ne rfl (hne '.' (by decide)),
    h.eat_ne rfl (hne ':' (by decide))]

/-- An id behind an earlier predicate. -/
theorem At.eatComponent_id {name : List Char} (hname : Name name rest)
    (h : At source index ('#' :: (name ++ rest))) :
    eatComponent source functions compile (earlier, index) =
      pure (.inl (some (.chain earlier (.id (.ofList name))), index + 1 + Text.byteLength name)) := by
  simp [eatComponent, h.eat_eq rfl, (h.cons rfl).expectIdentifier_eq hname]

/-- A class behind an earlier predicate. -/
theorem At.eatComponent_hasClass {name : List Char} (hname : Name name rest)
    (h : At source index ('.' :: (name ++ rest))) :
    eatComponent source functions compile (earlier, index) =
      pure (.inl (some (.chain earlier (.hasClass (.ofList name))), index + 1 + Text.byteLength name)) := by
  simp [eatComponent, h.eat_other rfl (show '.' ≠ '#' by decide), h.eat_eq rfl,
    (h.cons rfl).expectIdentifier_eq hname]

/-- A function behind an earlier predicate. -/
theorem At.eatComponent_call (h : At source index (':' :: rest)) :
    eatComponent source functions compile (earlier, index) =
      eatCall source functions compile earlier (index + 1) >>= fun found =>
        pure (.inl (some found.1, found.2)) := by
  simp [eatComponent, h.eat_other rfl (show ':' ≠ '#' by decide), h.eat_other rfl (show ':' ≠ '.' by decide),
    h.eat_eq rfl]

/-- A mark is an ASCII character. -/
theorem utf8Size_of_mem_marks {mark : Char} (h : mark ∈ marks) : mark.utf8Size = 1 := by
  simp only [marks, List.mem_cons, List.not_mem_nil, or_false] at h
  rcases h with rfl | rfl | rfl <;> rfl

/-- A mark without an identifier behind it is a fault, right behind the mark. -/
theorem At.eatComponent_nameless {mark : Char} (hmark : mark ∈ marks)
    (hrest : ∀ c ∈ rest.head?, Text.isIdentifierChar c = false) (h : At source index (mark :: rest)) :
    eatComponent source functions compile (earlier, index) =
      throw (.invalid (.missingIdentifier mark) (index + 1)) := by
  simp only [marks, List.mem_cons, List.not_mem_nil, or_false] at hmark
  rcases hmark with rfl | rfl | rfl
  · simp [eatComponent, h.eat_eq rfl, (h.cons rfl).expectIdentifier_throw hrest]
  · simp [eatComponent, h.eat_other rfl (show '.' ≠ '#' by decide), h.eat_eq rfl,
      (h.cons rfl).expectIdentifier_throw hrest]
  · rw [h.eatComponent_call, eatCall, (h.cons rfl).expectIdentifier_throw hrest]
    rfl

/-- Where something is left another compound is compiled. -/
theorem At.eatNext_eq {c : Char} (h : At source index (c :: rest)) (parts : List Part) :
    eatNext source functions compile (parts, index) =
      eatCompound source functions compile index >>= fun found => pure (.inl (parts ++ [found.1], found.2)) := by
  have hpos := c.utf8Size_pos
  have hlt := h.lt
  exact if_neg (by omega)

/-- Where nothing is left the compounds are over. -/
theorem At.loop_eatNext_end (h : At source index []) (parts : List Part) (rounds : Nat) :
    loop (eatNext source functions compile) (rounds + 1) (parts, index) = pure parts := by
  have hround : eatNext source functions compile (parts, index) = pure (.inr parts) :=
    if_pos (Nat.le_of_eq h.stands.symm)
  exact loop_inr hround rounds

/-- Where a compound ends the components are over. -/
theorem At.loop_eatComponent_end (hends : Ends rest) (h : At source index rest) (rounds : Nat) :
    loop (eatComponent source functions compile) (rounds + 1) (earlier, index) =
      pure (earlier, index + Text.byteLength (rest.takeWhile Text.isAsciiBlank)) := by
  have hround := h.eatComponent_unmarked functions compile earlier (unmarked_of_ends hends)
  rw [h.eatEnd_eq hends, pure_bind] at hround
  exact loop_inr hround rounds

end

end

end TreeQuery.Checked
