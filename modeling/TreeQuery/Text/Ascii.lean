/-!
# ASCII text rules

Tag names compare without regard to the case of ASCII letters, class attributes are split at ASCII
blanks, and identifiers are runs of ASCII letters, digits, `_` and `-`. All three rules leave every
character outside ASCII alone.
-/

namespace TreeQuery.Text

/-- The ASCII blanks: space, tab, line feed, form feed and carriage return. -/
def isAsciiBlank (c : Char) : Bool :=
  c == ' ' || c == '\t' || c == '\n' || c == '\x0c' || c == '\r'

/-- The characters of identifiers: ASCII letters and digits, `_` and `-`. -/
def isIdentifierChar (c : Char) : Bool :=
  c.isAlphanum || c == '_' || c == '-'

/-- Whether a text is one non-empty identifier. -/
def isIdentifier (text : List Char) : Bool :=
  !text.isEmpty && text.all isIdentifierChar

/-- A string with its ASCII letters in lower case. -/
def lower (text : String) : String := .ofList (text.toList.map Char.toLower)

/-- Equality up to the case of ASCII letters. -/
def sameIgnoringCase (a b : String) : Bool := lower a == lower b

/-- The maximal runs of characters other than ASCII blanks, after the run that `current` has
begun (its characters in reverse). -/
def wordsFrom (current : List Char) : List Char → List (List Char)
  | [] => if current.isEmpty then [] else [current.reverse]
  | c :: rest =>
    if isAsciiBlank c then
      if current.isEmpty then wordsFrom [] rest else current.reverse :: wordsFrom [] rest
    else wordsFrom (c :: current) rest

/-- The words of a string: its maximal runs of characters other than ASCII blanks, in order. -/
def words (text : String) : List String := (wordsFrom [] text.toList).map String.ofList

/-- The number of bytes that a text takes in UTF-8. -/
def byteLength (text : List Char) : Nat := text.foldl (fun length c => length + c.utf8Size) 0

/-- Texts one behind the other take the bytes of both. -/
theorem byteLength_append (first second : List Char) :
    byteLength (first ++ second) = byteLength first + byteLength second := by
  have hfrom : ∀ (text : List Char) (start : Nat),
      text.foldl (fun length c => length + c.utf8Size) start = start + byteLength text := by
    intro text
    induction text with
    | nil => exact fun _ => rfl
    | cons c rest ih =>
      intro start
      rw [byteLength, List.foldl_cons, List.foldl_cons, ih, ih, Nat.zero_add, Nat.add_assoc]
  rw [byteLength, List.foldl_append, hfrom second]
  rfl

/-- A text takes the bytes of its first character and those of the others. -/
theorem byteLength_cons (c : Char) (rest : List Char) :
    byteLength (c :: rest) = c.utf8Size + byteLength rest := by
  have hone : byteLength [c] = c.utf8Size := Nat.zero_add c.utf8Size
  rw [← hone]
  exact byteLength_append [c] rest

end TreeQuery.Text
