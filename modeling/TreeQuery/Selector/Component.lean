import TreeQuery.Selector.Error
import TreeQuery.Text.Blank

/-!
# Reading the components of selector text

A compound lists components: a tag, `#id`, `.class`, `:function` and `:function(parameter)`. It ends
at the end of the text, behind a run of ASCII blanks, or before a `>`.

Reading never fails. What cannot be read becomes a component of its own, which carries the fault,
and reading stops there; so the components before a fault are still there to be compiled first.

Main statements: `balanced_eq` says which text a pair of parentheses holds, `length_readAll_lt` that
reading components uses up some of a text that does not begin the next compound.
-/

namespace TreeQuery

/-- What is left of a text, and the bytes before it. -/
structure Remaining where
  position : Nat
  text : List Char

namespace Remaining

/-- Leave a run of characters of one class behind. -/
def skip (input : Remaining) (p : Char → Bool) : Remaining :=
  ⟨input.position + Text.byteLength (input.text.takeWhile p), input.text.dropWhile p⟩

/-- Read no further. -/
def stop (input : Remaining) : Remaining := ⟨input.position, []⟩

/-- Leaving characters behind never makes a text longer. -/
theorem length_skip (input : Remaining) (p : Char → Bool) :
    (input.skip p).text.length ≤ input.text.length :=
  (List.dropWhile_sublist p).length_le

end Remaining

/-- One component of a compound, as it is written. -/
inductive Component where
  | tag (name : String)
  | id (value : String)
  | hasClass (name : String)
  /-- A function, and the text between its parentheses if they hold any. The parentheses may have a
  fault, which counts only when the function is known. -/
  | call (name : String) (parameter : Except (Fault × Nat) (Option String))
  /-- Something that cannot be read, for a fault at a position. -/
  | unreadable (fault : Fault) (position : Nat)

namespace Component

/-- The number of parentheses that may be open at once. -/
def maxNesting : Nat := 32

/-- The text up to the parenthesis that closes the last of `opened` open ones, and what is left
behind it. The outermost of them opened at `start`. -/
def balanced (start : Nat) : (opened : Nat) → (position : Nat) → List Char →
    Except (Fault × Nat) (List Char × Remaining)
  | _, _, [] => .error (.unbalancedParentheses, start)
  | opened, position, c :: rest =>
    if c = '(' then
      if opened < maxNesting then
        (balanced start (opened + 1) (position + 1) rest).map fun (raw, left) => (c :: raw, left)
      else .error (.nestedTooDeeply, position)
    else if c = ')' then
      if opened ≤ 1 then .ok ([], ⟨position + 1, rest⟩)
      else (balanced start (opened - 1) (position + 1) rest).map fun (raw, left) => (c :: raw, left)
    else
      (balanced start opened (position + c.utf8Size) rest).map fun (raw, left) => (c :: raw, left)

/-- The parameter is followed by its closing parenthesis, and then by what is left. -/
theorem balanced_eq {start opened position : Nat} {text raw : List Char} {left : Remaining}
    (h : balanced start opened position text = .ok (raw, left)) : text = raw ++ ')' :: left.text := by
  induction text generalizing opened position raw left with
  | nil => simp [balanced] at h
  | cons c rest ih =>
    have step : ∀ {opened position : Nat},
        (balanced start opened position rest).map (fun (raw, left) => (c :: raw, left)) =
          .ok (raw, left) → c :: rest = raw ++ ')' :: left.text := by
      intro opened position h
      cases hrest : balanced start opened position rest with
      | error fault => simp [hrest, Except.map] at h
      | ok found =>
        obtain ⟨inner, after⟩ := found
        simp only [hrest, Except.map, Except.ok.injEq, Prod.mk.injEq] at h
        obtain ⟨rfl, rfl⟩ := h
        simpa using ih hrest
    unfold balanced at h
    split at h
    · split at h
      · exact step h
      · simp at h
    · split at h
      · split at h
        · simp only [Except.ok.injEq, Prod.mk.injEq] at h
          obtain ⟨rfl, rfl⟩ := h
          simp_all
        · exact step h
      · exact step h

/-- The parameter of a function, and what is left behind it. A blank parameter counts as none, and
behind a fault nothing is read. -/
def readParameter (input : Remaining) :
    Except (Fault × Nat) (Option String) × Remaining :=
  match input.text with
  | '(' :: rest =>
    match balanced input.position 1 (input.position + 1) rest with
    | .ok (raw, left) => (.ok (if raw.all Text.isBlank then none else some (.ofList raw)), left)
    | .error fault => (.error fault, input.stop)
  | _ => (.ok none, input)

/-- The component that `make` builds from the identifier behind a mark. -/
def readNamed (mark : Char) (input : Remaining)
    (make : String → Remaining → Component × Remaining) : Component × Remaining :=
  let name := input.text.takeWhile Text.isIdentifierChar
  if name.isEmpty then (.unreadable (.missingIdentifier mark) input.position, input.stop)
  else make (.ofList name) (input.skip Text.isIdentifierChar)

/-- The component that begins with the mark at a position, and what is left behind it. -/
def read (position : Nat) (mark : Char) (rest : List Char) : Component × Remaining :=
  let input : Remaining := ⟨position + mark.utf8Size, rest⟩
  match mark with
  | '#' => readNamed mark input fun name left => (.id name, left)
  | '.' => readNamed mark input fun name left => (.hasClass name, left)
  | ':' => readNamed mark input fun name left =>
    let (parameter, left) := readParameter left
    (.call name parameter, left)
  | _ => (.unreadable .unexpectedCharacter position, input.stop)

/-- Reading a parameter never makes a text longer. -/
theorem length_readParameter (input : Remaining) :
    (readParameter input).2.text.length ≤ input.text.length := by
  unfold readParameter
  split
  next rest heq =>
    split
    next raw left hbalanced =>
      have := congrArg List.length (balanced_eq hbalanced)
      rw [heq]
      simp at this ⊢
      omega
    next => simp [Remaining.stop]
  next => exact Nat.le_refl _

/-- Reading the identifier behind a mark never makes a text longer, if `make` does not. -/
theorem length_readNamed {mark : Char} {input : Remaining}
    {make : String → Remaining → Component × Remaining}
    (h : ∀ name left, (make name left).2.text.length ≤ left.text.length) :
    (readNamed mark input make).2.text.length ≤ input.text.length := by
  unfold readNamed
  dsimp only
  split
  · simp [Remaining.stop]
  · exact Nat.le_trans (h _ _) (input.length_skip _)

/-- Reading a component uses up its mark at least. -/
theorem length_read (position : Nat) (mark : Char) (rest : List Char) :
    (read position mark rest).2.text.length ≤ rest.length := by
  unfold read
  dsimp only
  split
  · exact length_readNamed fun _ _ => Nat.le_refl _
  · exact length_readNamed fun _ _ => Nat.le_refl _
  · exact length_readNamed fun _ left => length_readParameter left
  · simp [Remaining.stop]

/-- The components up to the end of a compound, and what is left behind it. -/
def readAll (input : Remaining) : List Component × Remaining :=
  match _h : input.text with
  | [] => ([], input)
  | mark :: rest =>
    if mark = '>' then ([], input)
    else if Text.isAsciiBlank mark then ([], input.skip Text.isAsciiBlank)
    else
      let found := read input.position mark rest
      let (others, left) := readAll found.2
      (found.1 :: others, left)
termination_by input.text.length
decreasing_by
  rw [_h]
  exact Nat.lt_succ_of_le (length_read _ _ _)

/-- Reading components never makes a text longer. -/
theorem length_readAll (input : Remaining) :
    (readAll input).2.text.length ≤ input.text.length := by
  fun_induction readAll input with
  | case1 => exact Nat.le_refl _
  | case2 => exact Nat.le_refl _
  | case3 input mark rest h => exact input.length_skip _
  | case4 input mark rest h hmark hblank found others left heq ih =>
    have := length_read input.position mark rest
    rw [heq] at ih
    rw [h]
    exact Nat.le_trans ih (Nat.le_trans this (Nat.le_succ _))

/-- Reading components uses up some of a text that does not begin the next compound. -/
theorem length_readAll_lt {input : Remaining} {mark : Char} {rest : List Char}
    (htext : input.text = mark :: rest) (hmark : mark ≠ '>') :
    (readAll input).2.text.length < input.text.length := by
  fun_induction readAll input with
  | case1 input h => simp [h] at htext
  | case2 input rest h => simp_all
  | case3 input mark' rest' h hne hblank =>
    have := (List.dropWhile_sublist (l := rest') Text.isAsciiBlank).length_le
    simp only [Remaining.skip, h, List.dropWhile_cons, hblank, if_true, List.length_cons]
    omega
  | case4 input mark' rest' h hne hblank found others left heq ih =>
    have hall := length_readAll found.2
    have hread := length_read input.position mark' rest'
    rw [heq] at hall
    rw [h]
    exact Nat.lt_succ_of_le (Nat.le_trans hall hread)

end Component

end TreeQuery
