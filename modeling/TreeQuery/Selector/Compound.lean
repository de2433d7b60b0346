import TreeQuery.Selector.Component

/-!
# Reading the compounds of selector text

A selector text is a run of compounds. A compound begins with an optional `>` and the ASCII blanks
behind it, goes on with `*` or a tag, and then lists components.

Main statement: `length_read` says that reading a compound uses up some of the text, so that a text
is a finite run of compounds.
-/

namespace TreeQuery

/-- A compound, as it is written. -/
structure Compound where
  /-- Whether it begins with `>`. -/
  child : Bool
  components : List Component

namespace Compound

/-- The child mark of a compound and the blanks behind it. -/
def readChild (input : Remaining) : Bool × Remaining :=
  match input.text with
  | '>' :: rest => (true, (Remaining.mk (input.position + 1) rest).skip Text.isAsciiBlank)
  | _ => (false, input)

/-- The tag of a compound, which `*` or nothing may stand for. -/
def readTag (input : Remaining) : List Component × Remaining :=
  match input.text with
  | '*' :: rest => ([], ⟨input.position + 1, rest⟩)
  | text =>
    let name := text.takeWhile Text.isIdentifierChar
    (if name.isEmpty then [] else [.tag (.ofList name)], input.skip Text.isIdentifierChar)

/-- One compound, and what is left behind it. -/
def read (input : Remaining) : Compound × Remaining :=
  let (child, input) := readChild input
  let (tag, input) := readTag input
  let (components, input) := Component.readAll input
  (⟨child, tag ++ components⟩, input)

/-- A child mark is used up if there is one, and otherwise nothing is. -/
theorem length_readChild (input : Remaining) :
    (readChild input).2.text.length < input.text.length ∨
      (readChild input).2 = input ∧ ∀ rest, input.text ≠ '>' :: rest := by
  unfold readChild
  split
  next rest heq =>
    have := (Remaining.mk (input.position + 1) rest).length_skip Text.isAsciiBlank
    rw [heq]
    exact Or.inl (Nat.lt_succ_of_le this)
  next h => exact Or.inr ⟨rfl, h⟩

/-- Reading a tag uses up some of the text or nothing at all. -/
theorem length_readTag (input : Remaining) :
    (readTag input).2.text.length < input.text.length ∨ (readTag input).2.text = input.text := by
  unfold readTag
  split
  next rest heq => simp [heq]
  next text =>
    rcases Nat.lt_or_ge (input.skip Text.isIdentifierChar).text.length input.text.length with h | h
    · exact Or.inl h
    · exact Or.inr ((List.dropWhile_sublist _).eq_of_length_le h)

/-- Reading a compound uses up some of a text that is not empty. -/
theorem length_read {input : Remaining} (h : input.text ≠ []) :
    (read input).2.text.length < input.text.length := by
  have hall := Component.length_readAll (readTag (readChild input).2).2
  show (Component.readAll (readTag (readChild input).2).2).2.text.length < _
  rcases length_readTag (readChild input).2 with htag | htag
  · rcases length_readChild input with hchild | ⟨hchild, _⟩
    · omega
    · rw [hchild] at htag hall ⊢
      omega
  · rcases length_readChild input with hchild | ⟨hchild, hmark⟩
    · rw [htag] at hall
      omega
    · rw [hchild] at htag hall ⊢
      obtain ⟨mark, rest, htext⟩ := List.exists_cons_of_ne_nil h
      have := Component.length_readAll_lt (htag.trans htext) fun heq => hmark rest (heq ▸ htext)
      rw [htag] at this
      exact this

/-- The compounds of a text, in order. -/
def readAll (input : Remaining) : List Compound :=
  if _h : input.text = [] then []
  else
    let found := read input
    found.1 :: readAll found.2
termination_by input.text.length
decreasing_by exact length_read _h

/-- The component that a whole text writes by itself: a tag, or a mark and an identifier. -/
def alone? (text : List Char) : Option Component :=
  if Text.isIdentifier text then some (.tag (.ofList text))
  else
    match text with
    | [] => none
    | mark :: name =>
      if Text.isIdentifier name then
        match mark with
        | '#' => some (.id (.ofList name))
        | '.' => some (.hasClass (.ofList name))
        | ':' => some (.call (.ofList name) (.ok none))
        | _ => none
      else none

/-- The compounds that a text writes. A text of one component needs no reading. -/
def ofText (text : List Char) : List Compound :=
  match alone? text with
  | some component => [⟨false, [component]⟩]
  | none => readAll ⟨0, text⟩

end Compound

end TreeQuery
