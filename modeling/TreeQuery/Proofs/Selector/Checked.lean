import TreeQuery.Proofs.Selector.Bytes
import TreeQuery.Selector.Compile

/-!
# Compiling byte by byte

Selector text is read here as bytes, with an index into them that goes up one byte at a time. Nothing is
taken for granted: an index that goes up is checked against the end of the text, a subtraction against zero,
a piece that is cut out of the text and the position of a fault against the boundaries of characters, and a
loop against the number of bytes that are left. What fails a check crashes, and a crash is no outcome.

A component is compiled as soon as it is read, before anything behind it is looked at.
-/

namespace TreeQuery

/-- Why a compilation would break off. -/
inductive Crash where
  /-- The index goes up past the end of the text. -/
  | overrun
  /-- Something is subtracted from zero. -/
  | underflow
  /-- A piece of the text would begin or end inside of a character, or end before it begins. -/
  | brokenPiece
  /-- A position would lie inside of a character, or past the end of the text. -/
  | brokenPosition
  /-- A loop goes round more often than there are bytes for. -/
  | endless
  deriving DecidableEq

/-- A compilation that may crash. It logs calls, the latest first, and keeps the log when it fails. -/
abbrev Checked := ExceptT Selector.Error (StateT (List Call) (Except Crash))

namespace Checked

variable {α σ : Type}

/-- Break off. -/
def crash (reason : Crash) : Checked α := fun _ => .error reason

/-- Add a call to the log. -/
def log (call : Call) : Checked Unit := modify (call :: ·)

/-- The outcome of a compilation and the calls it made, in order, if it does not crash. -/
def outcome (compilation : Checked α) : Except Crash (Except Selector.Error α × List Call) :=
  (compilation.run []).map fun (result, calls) => (result, calls.reverse)

/-- Take one from a number. -/
def decrement : Nat → Checked Nat
  | 0 => crash .underflow
  | number + 1 => pure number

/-- Go round until there is a value, so many times at most. -/
def loop (round : σ → Checked (σ ⊕ α)) : Nat → σ → Checked α
  | 0, _ => crash .endless
  | rounds + 1, state => do
    match ← round state with
    | .inl state => loop round rounds state
    | .inr value => pure value

/-- Follow a recipe, where `compile` compiles the texts that it asks for. -/
def follow (compile : String → Checked Selector) : Recipe → Checked Predicate
  | .done predicate => pure predicate
  | .fail error => throw error
  | .compile text next => do
    let result ← ExceptT.lift (compile text).run
    follow compile (next result)

section

-- the text that is read
variable (source : List Char)

/-- The byte at an index, if the text goes that far. -/
def peek (index : Nat) : Option UInt8 := (Text.bytes source)[index]?

/-- The number of times that a loop may go round from an index on, the last time at the end of the text. -/
def roundsFrom (index : Nat) : Nat := Text.byteLength source - index + 1

/-- The index behind one more byte. -/
def advance (index : Nat) : Checked Nat :=
  if index < Text.byteLength source then pure (index + 1) else crash .overrun

/-- The piece of the text between two indices. -/
def slice (start stop : Nat) : Checked (List Char) :=
  match (Text.cut? stop source).bind fun (front, _) => Text.cut? start front with
  | some (_, piece) => pure piece
  | none => crash .brokenPiece

/-- Fail for a fault at a position. -/
def raise (fault : Fault) (position : Nat) : Checked α :=
  if (Text.cut? position source).isSome then throw (.invalid fault position) else crash .brokenPosition

/-- Whether a character is next, and the index behind it. -/
def eat (mark : Char) (index : Nat) : Checked (Bool × Nat) :=
  if peek source index = some mark.toUInt8 then do
    let index ← advance source index
    pure (true, index)
  else pure (false, index)

/-- Look at the next byte, and go on behind it if it is of a class. -/
def eatOne (p : Char → Bool) (index : Nat) : Checked (Nat ⊕ Nat) :=
  if (peek source index).any (Text.isByteOf p) then do
    let index ← advance source index
    pure (.inl index)
  else pure (.inr index)

/-- The index behind a run of bytes of one class. -/
def eatWhile (p : Char → Bool) (index : Nat) : Checked Nat :=
  loop (eatOne source p) (roundsFrom source index) index

/-- Whether blanks are next, and the index behind them. -/
def eatBlanks (index : Nat) : Checked (Bool × Nat) := do
  let stop ← eatWhile source Text.isAsciiBlank index
  pure (decide (index < stop), stop)

/-- The identifier that is next, which may be empty, and the index behind it. -/
def eatIdentifier (index : Nat) : Checked (List Char × Nat) := do
  let stop ← eatWhile source Text.isIdentifierChar index
  let name ← slice source index stop
  pure (name, stop)

/-- The identifier that has to be next behind a mark, and the index behind it. -/
def expectIdentifier (mark : Char) (index : Nat) : Checked (List Char × Nat) := do
  let (name, index) ← eatIdentifier source index
  if name.isEmpty then raise source (.missingIdentifier mark) index else pure (name, index)

/-- Look at the next byte inside of parentheses, so many of which are open. -/
def eatInside (start : Nat) (state : Nat × Nat) : Checked (Nat × Nat ⊕ List Char × Nat) :=
  match state with
  | (index, opened) =>
    match peek source index with
    | none => raise source .unbalancedParentheses (start - 1)
    | some b => do
      let index ← advance source index
      if b = '('.toUInt8 then
        if Component.maxNesting < opened + 1 then do
          let position ← decrement index
          raise source .nestedTooDeeply position
        else pure (.inl (index, opened + 1))
      else if b = ')'.toUInt8 then do
        let opened ← decrement opened
        if opened = 0 then do
          let stop ← decrement index
          let raw ← slice source start stop
          pure (.inr (raw, index))
        else pure (.inl (index, opened))
      else pure (.inl (index, opened))

/-- The text up to the parenthesis that closes the one in front, and the index behind it. -/
def eatParenthesized (start : Nat) : Checked (List Char × Nat) :=
  loop (eatInside source start) (roundsFrom source start) (start, 1)

/-- The parameter of a function, where a blank one counts as none, and the index behind it. -/
def eatParameter (index : Nat) : Checked (Option String × Nat) := do
  let (isOpen, index) ← eat source '(' index
  if isOpen then do
    let (raw, index) ← eatParenthesized source index
    pure (if (Text.trimChars raw).isEmpty then none else some (.ofList raw), index)
  else pure (none, index)

/-- The tag of a compound, which `*` or nothing may stand for, and the index behind it. -/
def eatTag (index : Nat) : Checked (Option Predicate × Nat) := do
  let (star, index) ← eat source '*' index
  if star then pure (none, index)
  else do
    let (name, index) ← eatIdentifier source index
    pure (if name.isEmpty then none else some (.chain none (.ofTag (.ofList name))), index)

/-- The index behind the end of a compound, which is the end of the text, blanks, or in front of a `>`. -/
def eatEnd (index : Nat) : Checked Nat :=
  if Text.byteLength source ≤ index then pure index
  else do
    let (blank, index) ← eatBlanks source index
    if blank then pure index
    else if peek source index = some '>'.toUInt8 then pure index
    else raise source .unexpectedCharacter index

section

variable (functions : Functions) (compile : String → Checked Selector)

/-- Call the function whose name is next, behind an earlier predicate. -/
def eatCall (earlier : Option Predicate) (index : Nat) : Checked (Predicate × Nat) := do
  let (name, index) ← expectIdentifier source ':' index
  match functions.resolve (.ofList name) with
  | .error error => throw error
  | .ok (origin, factory) => do
    let (parameter, index) ← eatParameter source index
    log ⟨origin, .ofList name, parameter, earlier⟩
    let predicate ← follow compile (factory (.ofList name) parameter earlier)
    pure (predicate, index)

/-- The component that is next, behind an earlier predicate, or the end of the compound. -/
def eatComponent (state : Option Predicate × Nat) :
    Checked (Option Predicate × Nat ⊕ Option Predicate × Nat) :=
  match state with
  | (earlier, index) => do
    let (found, index) ← eat source '#' index
    if found then do
      let (value, index) ← expectIdentifier source '#' index
      pure (.inl (some (.chain earlier (.id (.ofList value))), index))
    else do
      let (found, index) ← eat source '.' index
      if found then do
        let (name, index) ← expectIdentifier source '.' index
        pure (.inl (some (.chain earlier (.hasClass (.ofList name))), index))
      else do
        let (found, index) ← eat source ':' index
        if found then do
          let (predicate, index) ← eatCall source functions compile earlier index
          pure (.inl (some predicate, index))
        else do
          let index ← eatEnd source index
          pure (.inr (earlier, index))

/-- The components up to the end of a compound behind its child mark, and the index behind it. -/
def eatBody (index : Nat) : Checked (Option Predicate × Nat) := do
  let state ← eatTag source index
  loop (eatComponent source functions compile) (roundsFrom source state.2) state

/-- The part of the compound that is next, and the index behind it. -/
def eatCompound (index : Nat) : Checked (Part × Nat) := do
  let (child, index) ← eat source '>' index
  let (_, index) ← if child then eatBlanks source index else pure (false, index)
  let (predicate, index) ← eatBody source functions compile index
  pure (⟨if child then some 1 else none, predicate.getD .always⟩, index)

/-- The compound that is next, behind the parts of the earlier ones, or the end of the text. -/
def eatNext (state : List Part × Nat) : Checked (List Part × Nat ⊕ List Part) :=
  match state with
  | (parts, index) =>
    if Text.byteLength source ≤ index then pure (.inr parts)
    else do
      let (part, index) ← eatCompound source functions compile index
      pure (.inl (parts ++ [part], index))

/-- Compile the text from an index on. -/
def compileCursor (index : Nat) : Checked Selector := do
  let (head, index) ← eatCompound source functions compile index
  let rest ← loop (eatNext source functions compile) (roundsFrom source index) ([], index)
  pure ⟨head, rest⟩

end

end

/-- Whether a text is one non-empty identifier. -/
def isIdentifier (text : List Char) : Bool :=
  !text.isEmpty && (Text.bytes text).all (Text.isByteOf Text.isIdentifierChar)

section

variable (functions : Functions) (compile : String → Checked Selector)

/-- What a text compiles to that is a mark and an identifier. -/
def shorthand? (text : List Char) : Option (Checked Selector) :=
  match Text.cut? 1 text with
  | none => none
  | some (_, rest) =>
    if isIdentifier rest then
      match (Text.bytes text).head? with
      | none => none
      | some mark =>
        if mark = '#'.toUInt8 then some (pure (.simple (.chain none (.id (.ofList rest)))))
        else if mark = '.'.toUInt8 then some (pure (.simple (.chain none (.hasClass (.ofList rest)))))
        else if mark = ':'.toUInt8 then
          some (match functions.resolve (.ofList rest) with
            | .error error => throw error
            | .ok (origin, factory) => do
              log ⟨origin, .ofList rest, none, none⟩
              let predicate ← follow compile (factory (.ofList rest) none none)
              pure (.simple predicate))
        else none
    else none

/-- Compile a text. One identifier by itself, or behind a mark, is recognised at a glance. -/
def compileText (text : String) : Checked Selector :=
  let trimmed := Text.trimChars text.toList
  if trimmed.isEmpty then throw (.invalid .empty 0)
  else if isIdentifier trimmed then pure (.simple (.chain none (.ofTag (.ofList trimmed))))
  else
    match shorthand? functions compile trimmed with
    | some compiled => compiled
    | none => compileCursor trimmed functions compile 0

end

/-- Compile a text, where factories may call for compilation down to the given number of levels. -/
def compileWithin (functions : Functions) : Nat → String → Checked Selector
  | 0, _ => throw .endlessNesting
  | levels + 1, text => compileText functions (compileWithin functions levels) text

end Checked

end TreeQuery
