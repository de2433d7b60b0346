import TreeQuery.Text.Unprintable

/-!
# Quoted text

A text in double quotes, in which the quote, the backslash and the usual control characters are
written with a backslash, and every other unprintable character by its code point in braces.
-/

namespace TreeQuery.Text

/-- The hexadecimal digits of a code point, in lower case and without leading zeros. -/
def codePoint (c : Char) : List Char := Nat.toDigits 16 c.toNat

/-- What stands for a character inside quotes. -/
def quotedChar (c : Char) : List Char :=
  match c with
  | '\x00' => ['\\', '0']
  | '\t' => ['\\', 't']
  | '\n' => ['\\', 'n']
  | '\r' => ['\\', 'r']
  | '"' => ['\\', '"']
  | '\\' => ['\\', '\\']
  | c =>
    if ' ' ≤ c ∧ c ≤ '~' then [c]
    else if isUnprintable c then ['\\', 'u', '\x7b'] ++ codePoint c ++ ['\x7d']
    else [c]

/-- A text in double quotes. -/
def quoted (text : String) : String := .ofList ('"' :: text.toList.flatMap quotedChar ++ ['"'])

end TreeQuery.Text
