import TreeQuery.Json.Numeral

/-!
# The tokens of a JSON text

A JSON text is cut into punctuation, words, strings and numerals, with blanks between them. A string
holds no raw control character, and its escapes come in a fixed set; characters outside the basic
plane are escaped as a pair of surrogates, and a surrogate without its partner is refused. A numeral
out of range is refused as well.

Main statements: `length_readString` and `length_readNumeral` say that reading uses up some of the
text, so that a text is a finite run of tokens.
-/

namespace TreeQuery.Json

/-- One token of a JSON text. -/
inductive Token where
  | openArray
  | closeArray
  | openObject
  | closeObject
  | comma
  | colon
  | null
  | bool (value : Bool)
  | numeral (numeral : Numeral)
  | string (text : String)

namespace Token

/-- The blanks of JSON: space, tab, line feed and carriage return. -/
def isBlank (c : Char) : Bool := c == ' ' || c == '\t' || c == '\n' || c == '\r'

/-- The value of a hexadecimal digit in either case. -/
def hexValue? (c : Char) : Option Nat :=
  if c.isDigit then some (c.toNat - '0'.toNat)
  else if 'a' ≤ c ∧ c ≤ 'f' then some (c.toNat - 'a'.toNat + 10)
  else if 'A' ≤ c ∧ c ≤ 'F' then some (c.toNat - 'A'.toNat + 10)
  else none

/-- The code unit of four hexadecimal digits, and what is left behind them. -/
def readUnit (text : List Char) : Option (Nat × List Char) :=
  match text with
  | a :: b :: c :: d :: rest => do
    let a ← hexValue? a
    let b ← hexValue? b
    let c ← hexValue? c
    let d ← hexValue? d
    some (((a * 16 + b) * 16 + c) * 16 + d, rest)
  | _ => none

/-- The second half of a pair of surrogates, as the character of the pair, and what is left. -/
def readLowSurrogate (high : Nat) (text : List Char) : Option (Char × List Char) :=
  match text with
  | '\\' :: 'u' :: rest => do
    let (low, rest) ← readUnit rest
    if 0xdc00 ≤ low ∧ low < 0xe000 then
      some (.ofNat (0x10000 + (high - 0xd800) * 0x400 + (low - 0xdc00)), rest)
    else none
  | _ => none

/-- The character that an escape stands for, read behind its backslash, and what is left. -/
def readEscape (text : List Char) : Option (Char × List Char) :=
  match text with
  | '"' :: rest => some ('"', rest)
  | '\\' :: rest => some ('\\', rest)
  | '/' :: rest => some ('/', rest)
  | 'b' :: rest => some ('\x08', rest)
  | 'f' :: rest => some ('\x0c', rest)
  | 'n' :: rest => some ('\n', rest)
  | 'r' :: rest => some ('\r', rest)
  | 't' :: rest => some ('\t', rest)
  | 'u' :: rest => do
    let (unit, rest) ← readUnit rest
    if 0xd800 ≤ unit ∧ unit < 0xdc00 then readLowSurrogate unit rest
    else if 0xdc00 ≤ unit ∧ unit < 0xe000 then none
    else some (.ofNat unit, rest)
  | _ => none

/-- A code unit takes four characters. -/
theorem length_readUnit {text rest : List Char} {unit : Nat}
    (h : readUnit text = some (unit, rest)) : rest.length < text.length := by
  unfold readUnit at h
  split at h
  next a b c d tail =>
    simp only [Option.bind_eq_bind, Option.bind_eq_some_iff, Option.some.injEq, Prod.mk.injEq] at h
    obtain ⟨_, _, _, _, _, _, _, _, _, rfl⟩ := h
    simp only [List.length_cons]
    omega
  next => simp at h

/-- An escape takes at least one character. -/
theorem length_readEscape {text rest : List Char} {c : Char}
    (h : readEscape text = some (c, rest)) : rest.length < text.length := by
  unfold readEscape at h
  split at h
  case h_9 tail =>
    simp only [Option.bind_eq_bind, Option.bind_eq_some_iff, Prod.exists] at h
    obtain ⟨unit, left, hunit, h⟩ := h
    have hleft := length_readUnit hunit
    split at h
    · unfold readLowSurrogate at h
      split at h
      next behind =>
        simp only [Option.bind_eq_bind, Option.bind_eq_some_iff, Prod.exists] at h
        obtain ⟨low, last, hlow, h⟩ := h
        have hlast := length_readUnit hlow
        split at h
        · simp only [Option.some.injEq, Prod.mk.injEq] at h
          obtain ⟨_, rfl⟩ := h
          simp only [List.length_cons] at hleft ⊢
          omega
        · simp at h
      next => simp at h
    · split at h
      · simp at h
      · simp only [Option.some.injEq, Prod.mk.injEq] at h
        obtain ⟨_, rfl⟩ := h
        simp only [List.length_cons]
        omega
  all_goals simp_all

/-- The characters of a string up to its closing quote, and what is left behind it. -/
def readString (text : List Char) : Option (List Char × List Char) :=
  match text with
  | [] => none
  | c :: rest =>
    if c = '"' then some ([], rest)
    else if c = '\\' then
      match _h : readEscape rest with
      | none => none
      | some (escaped, rest) => (readString rest).map fun (others, left) => (escaped :: others, left)
    else if c < ' ' then none
    else (readString rest).map fun (others, left) => (c :: others, left)
termination_by text.length
decreasing_by
  · have := length_readEscape _h
    simp only [List.length_cons]
    omega
  · simp

/-- A string takes at least its closing quote. -/
theorem length_readString {text chars left : List Char}
    (h : readString text = some (chars, left)) : left.length < text.length := by
  fun_induction readString text generalizing chars with
  | case1 => simp at h
  | case2 rest =>
    simp only [Option.some.injEq, Prod.mk.injEq] at h
    obtain ⟨_, rfl⟩ := h
    simp
  | case3 => simp at h
  | case4 rest escaped left' hescape hquote ih =>
    obtain ⟨⟨others, last⟩, hrest, heq⟩ := Option.map_eq_some_iff.mp h
    simp only [Prod.mk.injEq] at heq
    obtain ⟨_, rfl⟩ := heq
    have := ih hrest
    have := length_readEscape hescape
    simp only [List.length_cons]
    omega
  | case5 => simp at h
  | case6 c rest hquote hslash hcontrol ih =>
    obtain ⟨⟨others, last⟩, hrest, heq⟩ := Option.map_eq_some_iff.mp h
    simp only [Prod.mk.injEq] at heq
    obtain ⟨_, rfl⟩ := heq
    have := ih hrest
    simp only [List.length_cons]
    omega

/-- A numeral in range, and what is left behind it. -/
def readNumeral (text : List Char) : Option (Numeral × List Char) :=
  (Numeral.read text).filter fun found => found.1.inRange

/-- A numeral takes at least one digit. -/
theorem length_readNumeral {text left : List Char} {numeral : Numeral}
    (h : readNumeral text = some (numeral, left)) : left.length < text.length :=
  Numeral.length_read (Option.filter_eq_some_iff.mp h).1

/-- The token that a text begins with, and what is left behind it. -/
def read (text : List Char) : Option (Token × List Char) :=
  match text with
  | '[' :: rest => some (.openArray, rest)
  | ']' :: rest => some (.closeArray, rest)
  | '\x7b' :: rest => some (.openObject, rest)
  | '\x7d' :: rest => some (.closeObject, rest)
  | ',' :: rest => some (.comma, rest)
  | ':' :: rest => some (.colon, rest)
  | 'n' :: 'u' :: 'l' :: 'l' :: rest => some (.null, rest)
  | 't' :: 'r' :: 'u' :: 'e' :: rest => some (.bool true, rest)
  | 'f' :: 'a' :: 'l' :: 's' :: 'e' :: rest => some (.bool false, rest)
  | '"' :: rest => (readString rest).map fun (chars, left) => (.string (.ofList chars), left)
  | _ => (readNumeral text).map fun (number, left) => (.numeral number, left)

/-- A token takes at least one character. -/
theorem length_read {text left : List Char} {token : Token}
    (h : read text = some (token, left)) : left.length < text.length := by
  unfold read at h
  split at h
  case h_10 rest =>
    obtain ⟨⟨chars, last⟩, hstring, heq⟩ := Option.map_eq_some_iff.mp h
    simp only [Prod.mk.injEq] at heq
    obtain ⟨_, rfl⟩ := heq
    have := length_readString hstring
    simp only [List.length_cons]
    omega
  case h_11 =>
    obtain ⟨⟨number, last⟩, hnumeral, heq⟩ := Option.map_eq_some_iff.mp h
    simp only [Prod.mk.injEq] at heq
    obtain ⟨_, rfl⟩ := heq
    exact length_readNumeral hnumeral
  all_goals
    simp only [Option.some.injEq, Prod.mk.injEq] at h
    obtain ⟨_, rfl⟩ := h
    simp only [List.length_cons]
    omega

/-- All tokens of a text, if it consists of tokens and blanks. -/
def readAll (text : List Char) : Option (List Token) :=
  match text with
  | [] => some []
  | c :: rest =>
    if isBlank c then readAll rest
    else
      match _h : read (c :: rest) with
      | none => none
      | some (token, left) => (readAll left).map (token :: ·)
termination_by text.length
decreasing_by
  · simp
  · exact length_read _h

end Token

end TreeQuery.Json
