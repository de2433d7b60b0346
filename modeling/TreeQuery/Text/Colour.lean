/-!
# Coloured text

Text between the escape sequence that sets a foreground colour and the one that resets it.
-/

namespace TreeQuery.Text

/-- The colours in use. -/
inductive Colour where
  | red
  | green
  | yellow

/-- The escape sequence that sets a colour. -/
def Colour.code : Colour → String
  | .red => "\x1b[31m"
  | .green => "\x1b[32m"
  | .yellow => "\x1b[33m"

/-- A text in a colour. -/
def coloured (colour : Colour) (text : String) : String := colour.code ++ text ++ "\x1b[39m"

end TreeQuery.Text
