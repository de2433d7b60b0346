/-!
# Escaping in markup

Four characters and the no-break space have to be written as entities where they could be taken for
markup: the ampersand and the no-break space everywhere, the quote inside attribute values, the angle
brackets inside texts.
-/

namespace TreeQuery.Markup

/-- Where escaped characters stand. -/
inductive Place where
  | attribute
  | text
  deriving DecidableEq

/-- The entity that stands for a character at a place, if the character cannot stand for itself. -/
def entity? : Place → Char → Option String
  | _, '&' => some "&amp;"
  | _, '\u00a0' => some "&nbsp;"
  | .attribute, '"' => some "&quot;"
  | .text, '<' => some "&lt;"
  | .text, '>' => some "&gt;"
  | _, _ => none

/-- What is written for a character: its entity, or the character itself. -/
def escapeChar (place : Place) (c : Char) : List Char :=
  match entity? place c with
  | some entity => entity.toList
  | none => [c]

/-- Escape a text character by character. -/
def escape (place : Place) (text : List Char) : List Char := text.flatMap (escapeChar place)

/-- A text is escaped one character after another. -/
theorem escape_cons (place : Place) (c : Char) (text : List Char) :
    escape place (c :: text) = escapeChar place c ++ escape place text := List.flatMap_cons

/-- Escaping goes through concatenation. -/
theorem escape_append (place : Place) (a b : List Char) :
    escape place (a ++ b) = escape place a ++ escape place b := List.flatMap_append

end TreeQuery.Markup
