/-!
# Blank characters

A character is blank when it has the `White_Space` property of the character database. Selector
text and function parameters are trimmed of blanks at both ends. The narrower class of ASCII
blanks, which separates class tokens and compounds, is `TreeQuery.Text.isAsciiBlank`.
-/

namespace TreeQuery.Text

/-- The code points with the `White_Space` property, in ascending order. -/
def blanks : List Char :=
  ['\x09', '\x0a', '\x0b', '\x0c', '\x0d', ' ', '\x85', '\u00a0', '\u1680',
   '\u2000', '\u2001', '\u2002', '\u2003', '\u2004', '\u2005', '\u2006', '\u2007', '\u2008',
   '\u2009', '\u200a', '\u2028', '\u2029', '\u202f', '\u205f', '\u3000']

/-- Whether a character has the `White_Space` property. -/
def isBlank (c : Char) : Bool := blanks.contains c

/-- A text without its leading and trailing blanks. -/
def trimChars (text : List Char) : List Char :=
  ((text.dropWhile isBlank).reverse.dropWhile isBlank).reverse

/-- A string without its leading and trailing blanks. -/
def trim (text : String) : String := .ofList (trimChars text.toList)

end TreeQuery.Text
