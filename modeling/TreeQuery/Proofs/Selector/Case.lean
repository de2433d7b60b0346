import TreeQuery.Proofs.Search.Elements
import TreeQuery.Proofs.Selector.Bytes
import TreeQuery.Proofs.Selector.Language
import TreeQuery.Proofs.Selector.Plain

/-!
# The case of tags in selector text

An identifier is a tag where a compound may begin: at the start of a text, behind blanks, behind `>`, or
behind the parenthesis that opens a parameter. Which identifiers these are can be told from left to
right without reading the compounds, so a whole text is brought into lower case there in one pass,
parameters inside parameters included, and every other identifier keeps its case.

The reader of selector text commutes with that pass. It finds the same components at the same positions,
with their tags in lower case and their parameters passed over in turn; and a tag is compiled to its
lower case anyway.

Main statement: `compileWithin_lowerTags`, that texts which differ only in the case of their tags compile
alike, errors included.
-/

namespace TreeQuery

namespace Text

/-- The characters that a compound may begin behind: blanks, `>` and the open parenthesis. -/
def precedesCompound (c : Char) : Bool := isBlank c || c == '>' || c == '('

/-- Whether a tag begins behind a character, if an identifier does. Inside of an identifier the question
stays what it was at its beginning. -/
def opensTag (here : Bool) (c : Char) : Bool :=
  if isIdentifierChar c then here else precedesCompound c

/-- A character in lower case if it stands in a tag. -/
def lowerIf (here : Bool) (c : Char) : Char := if here then c.toLower else c

/-- A text with its tags in lower case; `here` says whether an identifier at its start is one. -/
def lowerTagsFrom : Bool → List Char → List Char
  | _, [] => []
  | here, c :: rest => lowerIf here c :: lowerTagsFrom (opensTag here c) rest

/-- A selector text with its tags in lower case. -/
def lowerTags (text : String) : String := .ofList (lowerTagsFrom true text.toList)

/-- Whether a compound may begin behind a text, or at the start if the text is empty. -/
def beginsCompound (front : List Char) : Bool := front.getLast?.all precedesCompound

/-- A capital is a character of identifiers. -/
theorem isIdentifierChar_of_isUpper {c : Char} (h : c.isUpper = true) : isIdentifierChar c = true := by
  simp [isIdentifierChar, Char.isAlphanum, Char.isAlpha, h]

/-- The lower case of a character stands in identifiers where the character does. -/
theorem isIdentifierChar_toLower (c : Char) : isIdentifierChar c.toLower = isIdentifierChar c := by
  by_cases h : c.isUpper = true
  · rw [isIdentifierChar_of_isUpper h]
    simp [isIdentifierChar, Char.isAlphanum, Char.isAlpha, h]
  · rw [Char.toLower_eq_of_not_isUpper h]

/-- Lower case is brought into lower case already. -/
theorem lower_lower (text : String) : lower (lower text) = lower text := by
  simp [lower, Function.comp_def]

/-- A blank is no character of identifiers. -/
theorem isIdentifierChar_of_isBlank {c : Char} (h : isBlank c = true) : isIdentifierChar c = false := by
  have hall : blanks.all (fun c => !isIdentifierChar c) = true := by decide
  simpa using List.all_eq_true.mp hall c (List.contains_iff_mem.mp h)

/-- A compound may begin behind no character of identifiers. -/
theorem isIdentifierChar_of_precedesCompound {c : Char} (h : precedesCompound c = true) :
    isIdentifierChar c = false := by
  simp only [precedesCompound, Bool.or_eq_true, beq_iff_eq, or_assoc] at h
  rcases h with hblank | rfl | rfl
  · exact isIdentifierChar_of_isBlank hblank
  · rfl
  · rfl

section

variable {c : Char} (here : Bool)

/-- Outside of identifiers case makes no difference. -/
theorem lowerIf_eq_self (h : isIdentifierChar c = false) : lowerIf here c = c := by
  cases here with
  | false => rfl
  | true =>
    apply Char.toLower_eq_of_not_isUpper
    intro hupper
    rw [isIdentifierChar_of_isUpper hupper] at h
    contradiction

/-- Lower case keeps the characters of identifiers apart from the others. -/
@[simp] theorem isIdentifierChar_lowerIf (c : Char) :
    isIdentifierChar (lowerIf here c) = isIdentifierChar c := by
  cases here with
  | false => rfl
  | true => exact isIdentifierChar_toLower c

/-- A class without characters of identifiers makes no difference between a character and its lower case. -/
theorem class_lowerIf {p : Char → Bool} (hp : ∀ c, p c = true → isIdentifierChar c = false) (c : Char) :
    p (lowerIf here c) = p c := by
  cases hc : isIdentifierChar c with
  | false => rw [lowerIf_eq_self here hc]
  | true =>
    have hlower := (isIdentifierChar_lowerIf here c).trans hc
    have hnot (d : Char) (hd : isIdentifierChar d = true) : p d = false := by
      by_contra h
      rw [hp d (by simpa using h)] at hd
      contradiction
    rw [hnot _ hlower, hnot _ hc]

/-- A class of blanks makes no difference between a character and its lower case. -/
theorem blank_lowerIf {p : Char → Bool} (hp : ∀ c, p c = true → isBlank c = true) (c : Char) :
    p (lowerIf here c) = p c :=
  class_lowerIf here (fun c h => isIdentifierChar_of_isBlank (hp c h)) c

/-- A character that is none of identifiers stays, and no other becomes that. -/
theorem lowerIf_eq_iff {mark : Char} (hmark : isIdentifierChar mark = false) :
    lowerIf here c = mark ↔ c = mark := by
  have hclass := class_lowerIf here (fun d hd => eq_of_beq hd ▸ hmark : ∀ d, (d == mark) = true → _) c
  rw [← beq_iff_eq, hclass, beq_iff_eq]

@[simp] theorem utf8Size_lowerIf (c : Char) : (lowerIf here c).utf8Size = c.utf8Size := by
  cases hc : isIdentifierChar c with
  | false => rw [lowerIf_eq_self here hc]
  | true =>
    rw [onlyAscii_isIdentifierChar c hc]
    exact onlyAscii_isIdentifierChar _ ((isIdentifierChar_lowerIf here c).trans hc)

end

section

variable (here : Bool) (text : List Char)

/-- Behind a character outside of identifiers nothing depends on what stood before. -/
theorem lowerTagsFrom_cons {c : Char} (h : isIdentifierChar c = false) (rest : List Char) :
    lowerTagsFrom here (c :: rest) = c :: lowerTagsFrom (precedesCompound c) rest := by
  rw [lowerTagsFrom, lowerIf_eq_self here h, opensTag, if_neg (by simp [h])]

/-- Before such a character nothing does either. -/
theorem lowerTagsFrom_eq_true {c : Char} (h : isIdentifierChar c = false) (rest : List Char) :
    lowerTagsFrom here (c :: rest) = lowerTagsFrom true (c :: rest) := by
  rw [lowerTagsFrom_cons here h, lowerTagsFrom_cons true h]

/-- The identifier that a text begins with is a tag or none. -/
theorem takeWhile_lowerTagsFrom :
    (lowerTagsFrom here text).takeWhile isIdentifierChar =
      (text.takeWhile isIdentifierChar).map (lowerIf here) := by
  induction text with
  | nil => rfl
  | cons c rest ih =>
    cases hc : isIdentifierChar c with
    | false => simp [lowerTagsFrom, hc]
    | true => simp [lowerTagsFrom, opensTag, hc, ih]

/-- What stands behind the identifier that a text begins with is passed over alike. -/
theorem dropWhile_lowerTagsFrom :
    (lowerTagsFrom here text).dropWhile isIdentifierChar =
      lowerTagsFrom here (text.dropWhile isIdentifierChar) := by
  induction text with
  | nil => rfl
  | cons c rest ih =>
    cases hc : isIdentifierChar c with
    | false => simp [lowerTagsFrom, hc]
    | true => simp [lowerTagsFrom, opensTag, hc, ih]

/-- The bytes of a text are as many as before. -/
theorem byteLength_map_lowerIf : byteLength (text.map (lowerIf here)) = byteLength text := by
  induction text with
  | nil => rfl
  | cons c rest ih => rw [List.map_cons, byteLength_cons, byteLength_cons, ih, utf8Size_lowerIf]

variable {p : Char → Bool} (hp : ∀ c, p c = true → isBlank c = true)
include hp

/-- The blanks that a text begins with stay. -/
theorem takeWhile_blank_lowerTagsFrom : (lowerTagsFrom here text).takeWhile p = text.takeWhile p := by
  induction text generalizing here with
  | nil => rfl
  | cons c rest ih =>
    have hc := blank_lowerIf here hp c
    cases h : p c with
    | false => simp [lowerTagsFrom, hc, h]
    | true =>
      have hself := lowerIf_eq_self here (isIdentifierChar_of_isBlank (hp c h))
      simp [lowerTagsFrom, hself, h, ih]

/-- Behind the blanks that a text begins with a tag may begin. -/
theorem dropWhile_blank_lowerTagsFrom :
    (lowerTagsFrom true text).dropWhile p = lowerTagsFrom true (text.dropWhile p) := by
  induction text with
  | nil => rfl
  | cons c rest ih =>
    have hc := blank_lowerIf true hp c
    cases h : p c with
    | false => simp [lowerTagsFrom, hc, h]
    | true =>
      have hblank := hp c h
      have hprecedes : precedesCompound c = true := by simp [precedesCompound, hblank]
      rw [lowerTagsFrom_cons true (isIdentifierChar_of_isBlank hblank), hprecedes,
        List.dropWhile_cons_of_pos h, List.dropWhile_cons_of_pos h]
      exact ih

end

/-- Texts one behind the other are passed over one behind the other. -/
theorem lowerTagsFrom_append (here : Bool) (first second : List Char) :
    lowerTagsFrom here (first ++ second) =
      lowerTagsFrom here first ++ lowerTagsFrom (first.foldl opensTag here) second := by
  induction first generalizing here with
  | nil => rfl
  | cons c rest ih => exact congrArg (lowerIf here c :: ·) (ih (opensTag here c))

/-- Where a compound may begin a tag may. -/
theorem foldl_opensTag {front : List Char} (h : beginsCompound front = true) :
    front.foldl opensTag true = true := by
  induction front using List.reverseRecOn with
  | nil => rfl
  | append_singleton front c _ =>
    have hc : precedesCompound c = true := by simpa [beginsCompound] using h
    rw [List.foldl_append, List.foldl_cons, List.foldl_nil, opensTag, isIdentifierChar_of_precedesCompound hc]
    exact hc

/-- A tag is brought into lower case with what follows it. -/
theorem lowerTagsFrom_name {name : List Char} (h : name.all isIdentifierChar = true) (rest : List Char) :
    lowerTagsFrom true (name ++ rest) = name.map Char.toLower ++ lowerTagsFrom true rest := by
  induction name with
  | nil => rfl
  | cons c name ih =>
    rw [List.all_cons, Bool.and_eq_true] at h
    simp [lowerTagsFrom, lowerIf, opensTag, h.1, ih h.2]

/-- Texts that differ in the case of one tag are the same in lower case, wherever a compound may begin with
that tag. -/
theorem lowerTags_tag {front name name' : String} (rest : String)
    (hfront : beginsCompound front.toList = true)
    (hname : name.toList.all isIdentifierChar = true) (hlower : lower name' = lower name) :
    lowerTags (front ++ name' ++ rest) = lowerTags (front ++ name ++ rest) := by
  have hchars : name'.toList.map Char.toLower = name.toList.map Char.toLower := by
    simpa [lower] using congrArg String.toList hlower
  have hname' : name'.toList.all isIdentifierChar = true := by
    have hall (text : List Char) :
        (text.map Char.toLower).all isIdentifierChar = text.all isIdentifierChar := by
      rw [List.all_map]
      exact congrArg text.all (funext fun c => isIdentifierChar_lowerIf true c)
    rw [← hall, hchars, hall, hname]
  simp only [lowerTags, String.toList_append, List.append_assoc, lowerTagsFrom_append true front.toList,
    foldl_opensTag hfront, lowerTagsFrom_name hname, lowerTagsFrom_name hname', hchars]

/-- Trimming takes the same characters away. -/
theorem trimChars_lowerTagsFrom (text : List Char) :
    trimChars (lowerTagsFrom true text) = lowerTagsFrom true (trimChars text) := by
  have hend (text : List Char) :
      (lowerTagsFrom true text).rdropWhile isBlank = lowerTagsFrom true (text.rdropWhile isBlank) := by
    induction text using List.reverseRecOn with
    | nil => rfl
    | append_singleton rest c ih =>
      have hc := blank_lowerIf (rest.foldl opensTag true) (fun _ h => h) c
      rw [lowerTagsFrom_append, lowerTagsFrom, lowerTagsFrom, List.rdropWhile_concat, hc,
        List.rdropWhile_concat, ih]
      split
      · rfl
      · rw [lowerTagsFrom_append]
        rfl
  have htrim (text : List Char) : trimChars text = (text.dropWhile isBlank).rdropWhile isBlank := rfl
  rw [htrim, htrim, dropWhile_blank_lowerTagsFrom text fun c h => h]
  exact hend _

/-- A text is blank where it was. -/
theorem all_isBlank_lowerTagsFrom (here : Bool) (text : List Char) :
    (lowerTagsFrom here text).all isBlank = text.all isBlank := by
  induction text generalizing here with
  | nil => rfl
  | cons c rest ih =>
    have hc := blank_lowerIf here (fun _ h => h) c
    rw [lowerTagsFrom, List.all_cons, List.all_cons, hc, ih]

end Text

/-- What is left of a text, with its tags in lower case. -/
def Remaining.lowerTags (here : Bool) (input : Remaining) : Remaining :=
  ⟨input.position, Text.lowerTagsFrom here input.text⟩

/-- A component with its tag or the tags of its parameter in lower case. -/
def Component.lowerTags : Component → Component
  | .tag name => .tag (Text.lower name)
  | .id value => .id value
  | .hasClass name => .hasClass name
  | .call name parameter => .call name (parameter.map (Option.map Text.lowerTags))
  | .unreadable fault position => .unreadable fault position

/-- A compound with its tags in lower case. -/
def Compound.lowerTags (compound : Compound) : Compound :=
  ⟨compound.child, compound.components.map Component.lowerTags⟩

namespace Remaining

/-- Leaving an identifier behind. -/
theorem skip_identifier_lowerTags (here : Bool) (input : Remaining) :
    (input.lowerTags here).skip Text.isIdentifierChar =
      (input.skip Text.isIdentifierChar).lowerTags here := by
  simp only [skip, lowerTags, Text.takeWhile_lowerTagsFrom, Text.dropWhile_lowerTagsFrom,
    Text.byteLength_map_lowerIf]

/-- Leaving blanks behind. -/
theorem skip_blanks_lowerTags (input : Remaining) :
    (input.lowerTags true).skip Text.isAsciiBlank = (input.skip Text.isAsciiBlank).lowerTags true := by
  have hblank (c : Char) : Text.isAsciiBlank c = true → Text.isBlank c = true :=
    Grammar.of_isAsciiBlank (by decide)
  simp only [skip, lowerTags, Text.takeWhile_blank_lowerTagsFrom true input.text hblank,
    Text.dropWhile_blank_lowerTagsFrom input.text hblank]

end Remaining

namespace Component

/-- The parenthesis that closes a parameter stands where it stood. -/
theorem balanced_lowerTags (start opened position : Nat) (here : Bool) (text : List Char) :
    balanced start opened position (Text.lowerTagsFrom here text) =
      (balanced start opened position text).map fun found =>
        (Text.lowerTagsFrom here found.1, found.2.lowerTags false) := by
  induction text generalizing opened position here with
  | nil => rfl
  | cons c rest ih =>
    -- One character further both sides go on alike, whatever the count of open parentheses.
    have hgo (opened position : Nat) :
        (balanced start opened position (Text.lowerTagsFrom (Text.opensTag here c) rest)).map
            (fun found => (Text.lowerIf here c :: found.1, found.2)) =
          ((balanced start opened position rest).map fun found => (c :: found.1, found.2)).map
            fun found => (Text.lowerTagsFrom here found.1, found.2.lowerTags false) := by
      rw [ih]
      cases balanced start opened position rest <;> rfl
    have hopen : Text.lowerIf here c = '(' ↔ c = '(' := Text.lowerIf_eq_iff here (by decide)
    have hclose : Text.lowerIf here c = ')' ↔ c = ')' := Text.lowerIf_eq_iff here (by decide)
    simp only [Text.lowerTagsFrom, balanced, hopen, hclose, Text.utf8Size_lowerIf]
    split
    · split
      · exact hgo (opened + 1) (position + 1)
      · rfl
    · split
      next hlast =>
        subst hlast
        split
        · rfl
        · exact hgo (opened - 1) (position + 1)
      next => exact hgo opened (position + c.utf8Size)

/-- The parameter of a function is passed over like a text of its own. -/
theorem readParameter_lowerTags (input : Remaining) :
    readParameter (input.lowerTags false) =
      ((readParameter input).1.map (Option.map Text.lowerTags),
        (readParameter input).2.lowerTags false) := by
  obtain ⟨position, text⟩ := input
  cases text with
  | nil => rfl
  | cons c rest =>
    by_cases hopen : c = '('
    · subst hopen
      have hinside : Remaining.lowerTags false ⟨position, '(' :: rest⟩ =
          ⟨position, '(' :: Text.lowerTagsFrom true rest⟩ := rfl
      rw [hinside]
      simp only [readParameter, balanced_lowerTags]
      cases balanced position 1 (position + 1) rest with
      | error fault => rfl
      | ok found =>
        simp only [Except.map, Text.all_isBlank_lowerTagsFrom]
        cases found.1.all Text.isBlank <;> simp [Text.lowerTags]
    · have hhead : ∀ d ∈ (c :: rest).head?, d ≠ '(' := by simpa using hopen
      have hhead' : ∀ d ∈ (Text.lowerTagsFrom false (c :: rest)).head?, d ≠ '(' := hhead
      rw [Grammar.readParameter_none hhead]
      exact Grammar.readParameter_none hhead' position

/-- The identifier behind a mark is no tag and stays. -/
theorem readNamed_lowerTags (mark : Char) (input : Remaining)
    (make : String → Remaining → Component × Remaining)
    (h : ∀ name left, make name (left.lowerTags false) =
      ((make name left).1.lowerTags, (make name left).2.lowerTags false)) :
    readNamed mark (input.lowerTags false) make =
      ((readNamed mark input make).1.lowerTags, (readNamed mark input make).2.lowerTags false) := by
  have hname : (input.lowerTags false).text.takeWhile Text.isIdentifierChar =
      input.text.takeWhile Text.isIdentifierChar :=
    (Text.takeWhile_lowerTagsFrom false input.text).trans (List.map_id _)
  simp only [readNamed, hname, input.skip_identifier_lowerTags, h]
  split <;> rfl

/-- What begins with no mark cannot be read. -/
theorem read_of_not_mem_marks {mark : Char} (h : mark ∉ Grammar.marks) (position : Nat) (rest : List Char) :
    read position mark rest =
      (.unreadable .unexpectedCharacter position, ⟨position + mark.utf8Size, []⟩) := by
  simp only [Grammar.marks, List.mem_cons, List.not_mem_nil, or_false, not_or] at h
  unfold read
  split <;> simp_all [Remaining.stop]

/-- A component is read where it was, and no tag begins behind it. -/
theorem read_lowerTags (here : Bool) (position : Nat) (mark : Char) (rest : List Char) :
    read position (Text.lowerIf here mark) (Text.lowerTagsFrom (Text.opensTag here mark) rest) =
      ((read position mark rest).1.lowerTags, (read position mark rest).2.lowerTags false) := by
  have hmarks : Text.lowerIf here mark ∈ Grammar.marks ↔ mark ∈ Grammar.marks := by
    have houtside (c : Char) (hc : decide (c ∈ Grammar.marks) = true) : Text.isIdentifierChar c = false :=
      (Grammar.of_mem_marks (of_decide_eq_true hc)).2.2.2
    exact decide_eq_decide.mp (Text.class_lowerIf here houtside mark)
  by_cases hmark : mark ∈ Grammar.marks
  · have hself := Text.lowerIf_eq_self here (Grammar.of_mem_marks hmark).2.2.2
    simp only [Grammar.marks, List.mem_cons, List.not_mem_nil, or_false] at hmark
    rw [hself]
    rcases hmark with rfl | rfl | rfl
    · exact readNamed_lowerTags '#' ⟨position + ('#').utf8Size, rest⟩ (fun name left => (.id name, left))
        fun name left => rfl
    · exact readNamed_lowerTags '.' ⟨position + ('.').utf8Size, rest⟩
        (fun name left => (.hasClass name, left)) fun name left => rfl
    · apply readNamed_lowerTags ':' ⟨position + (':').utf8Size, rest⟩
        (fun name left => (.call name (readParameter left).1, (readParameter left).2))
      intro name left
      rw [readParameter_lowerTags]
      rfl
  · -- Behind `*` this may be the beginning of an identifier, which is no tag there.
    rw [read_of_not_mem_marks hmark, read_of_not_mem_marks (mt hmarks.mp hmark), Text.utf8Size_lowerIf]
    rfl

/-- A compound ends with no character of identifiers. -/
theorem isIdentifierChar_of_ends {c : Char} {rest : List Char} (h : Grammar.Ends (c :: rest)) :
    Text.isIdentifierChar c = false := by
  rcases h c rfl with rfl | hblank
  · rfl
  · exact Text.isIdentifierChar_of_isBlank (Grammar.of_isAsciiBlank (by decide) hblank)

/-- A compound ends where it ended. -/
theorem ends_lowerTagsFrom (here : Bool) (text : List Char) :
    Grammar.Ends (Text.lowerTagsFrom here text) ↔ Grammar.Ends text := by
  cases text with
  | nil => rfl
  | cons c rest =>
    constructor
    · intro h
      have houtside : Text.isIdentifierChar (Text.lowerIf here c) = false := isIdentifierChar_of_ends h
      rw [Text.isIdentifierChar_lowerIf] at houtside
      rwa [Text.lowerTagsFrom_cons here houtside] at h
    · intro h
      rw [Text.lowerTagsFrom_cons here (isIdentifierChar_of_ends h)]
      exact h

/-- A compound ends where it ended, and a tag may begin behind its end. -/
theorem readAll_lowerTags_of_ends (here : Bool) (position : Nat) {text : List Char}
    (hends : Grammar.Ends text) :
    readAll (Remaining.lowerTags here ⟨position, text⟩) =
      ([], (readAll ⟨position, text⟩).2.lowerTags true) := by
  cases text with
  | nil =>
    rw [Compound.components_nil]
    exact Compound.components_nil position
  | cons mark rest =>
    -- What ends the compound opens the next one, so it makes no difference where the components began.
    have hmark : Text.isIdentifierChar mark = false := isIdentifierChar_of_ends hends
    have htrue : Remaining.lowerTags here ⟨position, mark :: rest⟩ =
        Remaining.lowerTags true ⟨position, mark :: rest⟩ :=
      congrArg (Remaining.mk position) (Text.lowerTagsFrom_eq_true here hmark rest)
    have hends' : Grammar.Ends (Text.lowerTagsFrom true (mark :: rest)) := by
      rw [Text.lowerTagsFrom_cons true hmark]
      exact hends
    rw [htrue, hends.readAll, ← Remaining.skip_blanks_lowerTags]
    exact hends'.readAll position

/-- Components are read up to the same place, and a tag may begin behind it. -/
theorem readAll_lowerTags (here : Bool) (input : Remaining) :
    readAll (input.lowerTags here) =
      ((readAll input).1.map Component.lowerTags, (readAll input).2.lowerTags true) := by
  obtain ⟨position, text⟩ := input
  induction hlength : text.length using Nat.strong_induction_on generalizing here position text with
  | _ length ih =>
    by_cases hends : Grammar.Ends text
    · rw [readAll_lowerTags_of_ends here position hends, hends.readAll]
      rfl
    · cases text with
      | nil => exact absurd (by simp [Grammar.Ends]) hends
      | cons mark rest =>
        have hends' := mt (ends_lowerTagsFrom here (mark :: rest)).mp hends
        obtain ⟨hmark, hblank⟩ : mark ≠ '>' ∧ Text.isAsciiBlank mark = false := by
          simpa [Grammar.Ends, not_or] using hends
        obtain ⟨hmark', hblank'⟩ : Text.lowerIf here mark ≠ '>' ∧
            Text.isAsciiBlank (Text.lowerIf here mark) = false := by
          simpa [Grammar.Ends, not_or, Text.lowerTagsFrom] using hends'
        have hlt := length_read position mark rest
        rw [List.length_cons] at hlength
        have hshorter : (read position mark rest).2.text.length < length := by omega
        have hothers := ih _ hshorter false (read position mark rest).2.position _ rfl
        rw [Remaining.lowerTags, Text.lowerTagsFrom, Grammar.readAll_cons position _ hmark' hblank',
          Grammar.readAll_cons position rest hmark hblank, read_lowerTags, hothers]
        rfl

end Component

namespace Compound

/-- A child mark is read where it was. -/
theorem readChild_lowerTags (input : Remaining) :
    readChild (input.lowerTags true) = ((readChild input).1, (readChild input).2.lowerTags true) := by
  obtain ⟨position, text⟩ := input
  cases text with
  | nil => rfl
  | cons c rest =>
    by_cases hc : c = '>'
    · subst hc
      have hskip := Remaining.skip_blanks_lowerTags ⟨position + 1, rest⟩
      exact congrArg (Prod.mk true) hskip
    · have hc' : Text.lowerIf true c ≠ '>' := mt (Text.lowerIf_eq_iff true (by decide)).mp hc
      rw [Grammar.readChild_none hc]
      exact Grammar.readChild_none hc' position _

/-- A tag is read in lower case. -/
theorem readTag_lowerTags (input : Remaining) :
    ∃ here, readTag (input.lowerTags true) =
      ((readTag input).1.map Component.lowerTags, (readTag input).2.lowerTags here) := by
  obtain ⟨position, text⟩ := input
  by_cases hstar : ∃ rest, text = '*' :: rest
  · obtain ⟨rest, rfl⟩ := hstar
    exact ⟨false, rfl⟩
  · have hread (text : List Char) (h : ¬ ∃ rest, text = '*' :: rest) :
        readTag ⟨position, text⟩ =
          (if (text.takeWhile Text.isIdentifierChar).isEmpty then []
            else [.tag (.ofList (text.takeWhile Text.isIdentifierChar))],
            Remaining.skip ⟨position, text⟩ Text.isIdentifierChar) := by
      unfold readTag
      split
      next rest htext => exact absurd ⟨rest, htext⟩ h
      next => rfl
    have hstar' : ¬ ∃ rest, Text.lowerTagsFrom true text = '*' :: rest := by
      rintro ⟨rest, hlower⟩
      cases text with
      | nil => nomatch hlower
      | cons c rest =>
        have hc := (List.cons.inj hlower).1
        rw [Text.lowerIf_eq_iff true (by decide)] at hc
        exact hstar ⟨rest, congrArg (· :: rest) hc⟩
    refine ⟨true, ?_⟩
    have hskip := Remaining.skip_identifier_lowerTags true ⟨position, text⟩
    rw [hread text hstar, ← hskip]
    refine (hread _ hstar').trans ?_
    rw [Text.takeWhile_lowerTagsFrom, List.isEmpty_map]
    split
    · rfl
    · simp only [List.map_cons, List.map_nil, Component.lowerTags, Text.lower, String.toList_ofList]
      rfl

/-- A compound is read with its tags in lower case. -/
theorem read_lowerTags (input : Remaining) :
    read (input.lowerTags true) = ((read input).1.lowerTags, (read input).2.lowerTags true) := by
  obtain ⟨here, htag⟩ := readTag_lowerTags (readChild input).2
  rw [Grammar.read_eq, Grammar.read_eq, readChild_lowerTags, Grammar.readBody, Grammar.readBody, htag,
    Component.readAll_lowerTags]
  simp [lowerTags]

/-- Compounds are read with their tags in lower case. -/
theorem readAll_lowerTags (input : Remaining) :
    readAll (input.lowerTags true) = (readAll input).map lowerTags := by
  fun_induction readAll input with
  | case1 input htext =>
    rw [Remaining.lowerTags, htext]
    exact Grammar.compounds_readAll_nil _
  | case2 input htext found ih =>
    have hne : (input.lowerTags true).text ≠ [] := by
      rw [Remaining.lowerTags]
      cases htext' : input.text with
      | nil => exact absurd htext' htext
      | cons c rest => exact List.cons_ne_nil _ _
    rw [Grammar.compounds_readAll _ hne, read_lowerTags, ih]
    rfl

/-- The compounds of a text are read with their tags in lower case. -/
theorem ofText_lowerTagsFrom (text : List Char) :
    ofText (Text.lowerTagsFrom true text) = (ofText text).map lowerTags := by
  rw [ofText_eq_readAll, ofText_eq_readAll]
  exact readAll_lowerTags ⟨0, text⟩

end Compound

namespace Plain

section

variable {compile : String → Except Selector.Error Selector}
  (hcompile : ∀ text, compile (Text.lowerTags text) = compile text)
include hcompile

/-- A component compiles like itself in lower case, if parameters do. -/
theorem component_lowerTags (earlier : Option Predicate) (part : Component) :
    component compile earlier part.lowerTags = component compile earlier part := by
  cases part with
  | tag name =>
    rw [Component.lowerTags, component, component, Predicate.ofTag, Predicate.ofTag, Text.lower_lower]
  | id value => rfl
  | hasClass name => rfl
  | unreadable fault position => rfl
  | call name parameter =>
    simp only [Component.lowerTags, component]
    cases Builtin.ofName? name with
    | none => rfl
    | some builtin =>
      rcases parameter with ⟨fault, position⟩ | _ | text
      · rfl
      · rfl
      · cases builtin <;> simp [Except.map, call, hcompile]

/-- Components compile like themselves in lower case, if parameters do. -/
theorem components_lowerTags (earlier : Option Predicate) (list : List Component) :
    components compile earlier (list.map Component.lowerTags) = components compile earlier list := by
  induction list generalizing earlier with
  | nil => rfl
  | cons first rest ih =>
    rw [List.map_cons, components, components, component_lowerTags hcompile]
    exact congrArg _ (funext fun predicate => ih (some predicate))

/-- Compounds compile like themselves in lower case, if parameters do. -/
theorem compounds_lowerTags (list : List Compound) :
    compounds compile (list.map Compound.lowerTags) = compounds compile list := by
  have hcompound (written : Compound) : compound compile written.lowerTags = compound compile written := by
    rw [compound, compound, Compound.lowerTags, components_lowerTags hcompile]
  have hparts (list : List Compound) : parts compile (list.map Compound.lowerTags) = parts compile list := by
    induction list with
    | nil => rfl
    | cons first rest ih => rw [List.map_cons, parts, parts, hcompound, ih]
  cases list with
  | nil => rfl
  | cons first rest => rw [List.map_cons, compounds, compounds, hcompound, hparts]

end

/-- A text compiles like itself with its tags in lower case, on any number of levels. -/
theorem compileWithin_lowerTags (levels : Nat) (text : String) :
    compileWithin levels (Text.lowerTags text) = compileWithin levels text := by
  induction levels generalizing text with
  | zero => rfl
  | succ levels ih =>
    rw [compileWithin, compileWithin, Text.lowerTags, String.toList_ofList, Text.trimChars_lowerTagsFrom,
      Compound.ofText_lowerTagsFrom, compounds_lowerTags ih]

end Plain

end TreeQuery
