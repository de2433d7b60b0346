/-!
# Numerals

The numbers of a JSON text, kept as they are written. Only two things are asked of a numeral: which
natural number below `2 ^ 64` it writes, if it has no sign, fraction or exponent, and whether its
value is within the range of double-precision floating point. A value is in range if it does not
round to infinity, and the rounding is done in two steps, of the significand and of the power of ten,
to 53 binary digits each.
-/

namespace TreeQuery.Json

/-- A numeral as it is written. -/
structure Numeral where
  negative : Bool
  /-- The digits before the point. -/
  whole : List Char
  /-- The digits behind the point, empty if there is no point. -/
  fraction : List Char
  /-- The power of ten behind the digits, if one is written. -/
  exponent : Option Int

namespace Numeral

/-- The value of a decimal digit. -/
def digitValue (c : Char) : Nat := c.toNat - '0'.toNat

/-- The value of a run of decimal digits. -/
def digitsValue (digits : List Char) : Nat :=
  digits.foldl (fun value c => 10 * value + digitValue c) 0

/-- The digits behind a point, if there is one, and what is left behind them. A point needs a digit
behind it. -/
def readFraction (text : List Char) : Option (List Char × List Char) :=
  match text with
  | '.' :: rest =>
    let digits := rest.takeWhile Char.isDigit
    if digits.isEmpty then none else some (digits, rest.dropWhile Char.isDigit)
  | _ => some ([], text)

/-- The digits of an exponent behind its sign, and what is left behind them. There has to be a digit. -/
def readExponentDigits (negative : Bool) (text : List Char) : Option (Option Int × List Char) :=
  let digits := text.takeWhile Char.isDigit
  let value : Int := digitsValue digits
  if digits.isEmpty then none
  else some (some (if negative then -value else value), text.dropWhile Char.isDigit)

/-- The exponent, if there is one, and what is left behind it. -/
def readExponent (text : List Char) : Option (Option Int × List Char) :=
  match text with
  | e :: rest =>
    if e = 'e' ∨ e = 'E' then
      match rest with
      | '-' :: rest => readExponentDigits true rest
      | '+' :: rest => readExponentDigits false rest
      | _ => readExponentDigits false rest
    else some (none, text)
  | [] => some (none, [])

/-- The numeral that begins behind its sign, and what is left behind it. The digits before the point
do not begin with a zero, unless the zero is all of them. -/
def readUnsigned (negative : Bool) (text : List Char) : Option (Numeral × List Char) :=
  let whole := text.takeWhile Char.isDigit
  if whole.isEmpty ∨ (whole.head? = some '0' ∧ whole ≠ ['0']) then none
  else do
    let (fraction, text) ← readFraction (text.dropWhile Char.isDigit)
    let (exponent, text) ← readExponent text
    some (⟨negative, whole, fraction, exponent⟩, text)

/-- The numeral that a text begins with, and what is left behind it. -/
def read (text : List Char) : Option (Numeral × List Char) :=
  match text with
  | '-' :: rest => readUnsigned true rest
  | _ => readUnsigned false text

/-- Reading a fraction never makes a text longer. -/
theorem length_readFraction {text digits left : List Char}
    (h : readFraction text = some (digits, left)) : left.length ≤ text.length := by
  unfold readFraction at h
  split at h
  next rest =>
    dsimp only at h
    split at h
    · simp at h
    · simp only [Option.some.injEq, Prod.mk.injEq] at h
      obtain ⟨_, rfl⟩ := h
      have := (List.dropWhile_sublist (l := rest) Char.isDigit).length_le
      simp only [List.length_cons]
      omega
  next => simp_all

/-- Reading the digits of an exponent never makes a text longer. -/
theorem length_readExponentDigits {negative : Bool} {text left : List Char} {exponent : Option Int}
    (h : readExponentDigits negative text = some (exponent, left)) : left.length ≤ text.length := by
  unfold readExponentDigits at h
  dsimp only at h
  split at h
  · simp at h
  · simp only [Option.some.injEq, Prod.mk.injEq] at h
    obtain ⟨_, rfl⟩ := h
    exact (List.dropWhile_sublist _).length_le

/-- Reading an exponent never makes a text longer. -/
theorem length_readExponent {text left : List Char} {exponent : Option Int}
    (h : readExponent text = some (exponent, left)) : left.length ≤ text.length := by
  unfold readExponent at h
  split at h
  next e rest =>
    split at h
    · split at h <;>
      · have := length_readExponentDigits h
        simp only [List.length_cons] at this ⊢
        omega
    · simp_all
  next => simp_all

/-- A numeral takes at least one digit behind its sign. -/
theorem length_readUnsigned {negative : Bool} {text left : List Char} {numeral : Numeral}
    (h : readUnsigned negative text = some (numeral, left)) : left.length < text.length := by
  unfold readUnsigned at h
  dsimp only at h
  split at h
  · simp at h
  next hwhole =>
    simp only [Option.bind_eq_bind, Option.bind_eq_some_iff, Prod.exists, Option.some.injEq,
      Prod.mk.injEq] at h
    obtain ⟨fraction, behindFraction, hfraction, exponent, behind, hexponent, _, rfl⟩ := h
    have hfractionLength := length_readFraction hfraction
    have hexponentLength := length_readExponent hexponent
    have hsplit := congrArg List.length
      (List.takeWhile_append_dropWhile (p := Char.isDigit) (l := text))
    have hdigit : 0 < (text.takeWhile Char.isDigit).length := by
      refine List.length_pos_iff.mpr fun hempty => hwhole (Or.inl ?_)
      simp [hempty]
    rw [List.length_append] at hsplit
    omega

/-- A numeral takes at least one digit. -/
theorem length_read {text left : List Char} {numeral : Numeral}
    (h : read text = some (numeral, left)) : left.length < text.length := by
  unfold read at h
  split at h
  · have := length_readUnsigned h
    simp only [List.length_cons]
    omega
  · exact length_readUnsigned h

/-- The natural number below `2 ^ 64` that a numeral writes. -/
def word? (numeral : Numeral) : Option Nat :=
  let value := digitsValue numeral.whole
  if numeral.negative ∨ numeral.fraction ≠ [] ∨ numeral.exponent ≠ none ∨ UInt64.size ≤ value then none
  else some value

/-- Add digits to a significand for as long as it stays below `2 ^ 64`; also the digits that are left
over. -/
def gather (significand : Nat) : List Char → Nat × List Char
  | [] => (significand, [])
  | c :: rest =>
    let longer := 10 * significand + digitValue c
    if longer < UInt64.size then gather longer rest else (significand, c :: rest)

/-- The value of a numeral without its sign: a significand below `2 ^ 64` and the power of ten behind
it. Digits before the point that the significand has no room for raise the power, those behind the
point are dropped. -/
def scaled (numeral : Numeral) : Nat × Int :=
  let (significand, dropped) := gather 0 numeral.whole
  let (significand, unused) := gather significand numeral.fraction
  let raised : Int := dropped.length
  let lowered : Int := numeral.fraction.length - unused.length
  (significand, raised - lowered + numeral.exponent.getD 0)

/-- A natural number rounded to 53 binary digits; a tie goes to the even neighbour. -/
def rounded (n : Nat) : Nat :=
  let unit := 1 <<< (n.log2 - 52)
  let quotient := n / unit
  let rest := n % unit
  if 2 * rest < unit ∨ (2 * rest = unit ∧ quotient % 2 = 0) then quotient * unit
  else (quotient + 1) * unit

/-- Whether the value of a numeral is within the range of double-precision floating point. -/
def inRange (numeral : Numeral) : Bool :=
  let (significand, exponent) := numeral.scaled
  significand == 0 || exponent < 0 ||
    (exponent ≤ 308 && rounded (rounded significand * rounded (Nat.pow 10 exponent.toNat)) < 1 <<< 1024)

end Numeral

end TreeQuery.Json
