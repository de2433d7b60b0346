import Mathlib.Data.List.Infix
import TreeQuery.Markup.Escape

/-!
# Escaped texts are read back

Whoever reads an escaped text replaces the entities in it, from left to right, by the characters they stand
for. That this gives the text again is a matter of where an entity can begin. An ampersand of the text itself
is escaped like any other character with an entity, and behind its ampersand an entity is made of characters
that have none, so each ampersand that a reader meets begins an entity that escaping has put there. What
looked like an entity before, or like a part of one, does so no longer. As no entity begins another one, the
reader replaces the very entity that was put there, goes on right behind it, and never gets out of step, not
even if the place is unknown and the entities of the other place are replaced too.

Main statement: escaping is undone by replacing the entities, so it takes nothing away; of the characters with
an entity it leaves only ampersands, which all begin one, and it goes through concatenation.
-/

namespace TreeQuery.Markup

/-- A name that stands for a character. -/
structure Entity where
  name : String
  char : Char
  deriving DecidableEq

/-- An entity as it is written, with its name between an ampersand and a semicolon. -/
def Entity.text (entity : Entity) : List Char := '&' :: (entity.name.toList ++ [';'])

/-- An entity takes up at least one character. -/
theorem Entity.length_text_pos (entity : Entity) : 0 < entity.text.length := Nat.succ_pos _

/-- The entities that are written at a place. -/
def entities : Place → List Entity
  | .attribute => [⟨"amp", '&'⟩, ⟨"nbsp", '\u00a0'⟩, ⟨"quot", '"'⟩]
  | .text => [⟨"amp", '&'⟩, ⟨"nbsp", '\u00a0'⟩, ⟨"lt", '<'⟩, ⟨"gt", '>'⟩]

/-- Replace the known entities in a text, from left to right, by the characters they stand for. A character
that begins none of them is left as it is. -/
def unescape (known : List Entity) : List Char → List Char
  | [] => []
  | c :: rest =>
    match known.find? fun entity => entity.text.isPrefixOf (c :: rest) with
    | some entity => entity.char :: unescape known ((c :: rest).drop entity.text.length)
    | none => c :: unescape known rest
termination_by text => text.length
decreasing_by
  · rw [List.length_drop]
    exact Nat.sub_lt (Nat.succ_pos _) entity.length_text_pos
  · exact Nat.lt_succ_self _

/-- None of the known entities begins another one. -/
def Unambiguous (known : List Entity) : Prop :=
  ∀ entity ∈ known, ∀ other ∈ known, other.text <+: entity.text → other = entity

instance (known : List Entity) : Decidable (Unambiguous known) :=
  inferInstanceAs (Decidable (∀ entity ∈ known, ∀ other ∈ known, other.text <+: entity.text → other = entity))

section

variable {place : Place} {known : List Entity} {entity : Entity} {c : Char} {text : List Char}

/-- No entity of a place begins another one. -/
theorem unambiguous_entities (place : Place) : Unambiguous (entities place) := by
  cases place <;> decide

/-- The ampersand has an entity at every place. -/
theorem exists_entity_ampersand (place : Place) : ∃ entity ∈ entities place, entity.char = '&' := by
  cases place <;> decide

/-- The entity of a character is written for it. -/
theorem escapeChar_char (h : entity ∈ entities place) : escapeChar place entity.char = entity.text := by
  have hall : ∀ entity ∈ entities place, escapeChar place entity.char = entity.text := by
    cases place <;> decide
  exact hall entity h

/-- A character without an entity stands for itself. -/
theorem escapeChar_eq_self (h : ∀ entity ∈ entities place, entity.char ≠ c) : escapeChar place c = [c] := by
  have hnone : entity? place c = none := by
    cases place <;> unfold entity? <;> split <;> simp_all [entities]
  rw [escapeChar, hnone]

/-- What is written for a character is its entity, or the character itself where it has none. -/
theorem escapeChar_cases (place : Place) (c : Char) :
    (∃ entity ∈ entities place, entity.char = c ∧ escapeChar place c = entity.text) ∨
      (∀ entity ∈ entities place, entity.char ≠ c) ∧ escapeChar place c = [c] := by
  by_cases h : ∃ entity ∈ entities place, entity.char = c
  · obtain ⟨entity, hentity, rfl⟩ := h
    exact Or.inl ⟨entity, hentity, rfl, escapeChar_char hentity⟩
  · have hnone : ∀ entity ∈ entities place, entity.char ≠ c := fun entity hentity heq =>
      h ⟨entity, hentity, heq⟩
    exact Or.inr ⟨hnone, escapeChar_eq_self hnone⟩

/-- The name of an entity is made of letters. -/
theorem isAlpha_of_mem_name (hentity : entity ∈ entities place) (hc : c ∈ entity.name.toList) :
    c.isAlpha = true := by
  have hall : ∀ entity ∈ entities place, entity.name.toList.all Char.isAlpha = true := by
    cases place <;> decide
  exact List.all_eq_true.mp (hall entity hentity) c hc

/-- Neither letters nor the semicolon have an entity. -/
theorem not_isAlpha_char (hentity : entity ∈ entities place) :
    entity.char.isAlpha = false ∧ entity.char ≠ ';' := by
  have hall : ∀ entity ∈ entities place, entity.char.isAlpha = false ∧ entity.char ≠ ';' := by
    cases place <;> decide
  exact hall entity hentity

/-- Behind its ampersand an entity is made of characters that have none. -/
theorem char_ne_of_mem_name (hentity : entity ∈ entities place) (hc : c ∈ entity.name.toList ++ [';']) :
    ∀ other ∈ entities place, other.char ≠ c := by
  rintro other hother rfl
  obtain ⟨hletter, hsemicolon⟩ := not_isAlpha_char hother
  rcases List.mem_append.mp hc with hname | hend
  · exact Bool.false_ne_true (hletter.symm.trans (isAlpha_of_mem_name hentity hname))
  · exact hsemicolon (List.mem_singleton.mp hend)

/-- In a text that begins with a known entity that entity is found. -/
theorem find?_text (hknown : Unambiguous known) (hentity : entity ∈ known) (rest : List Char) :
    (known.find? fun other => other.text.isPrefixOf (entity.text ++ rest)) = some entity := by
  have hbegins : entity.text <+: entity.text ++ rest := List.prefix_append _ _
  have hsome : (known.find? fun other => other.text.isPrefixOf (entity.text ++ rest)).isSome = true :=
    List.find?_isSome.mpr ⟨entity, hentity, List.isPrefixOf_iff_prefix.mpr hbegins⟩
  obtain ⟨other, hother⟩ := Option.isSome_iff_exists.mp hsome
  have hmem : other ∈ known := List.mem_of_find?_eq_some hother
  have hmatch := List.find?_some hother
  have hprefix : other.text <+: entity.text ++ rest := List.isPrefixOf_iff_prefix.mp hmatch
  -- of two entities that begin the same text one begins the other
  have hsame : other = entity := by
    rcases List.prefix_or_prefix_of_prefix hprefix hbegins with h | h
    · exact hknown entity hentity other hmem h
    · exact (hknown other hmem entity hentity h).symm
  rw [hother, hsame]

/-- A known entity is replaced, and the reader goes on behind it. -/
theorem unescape_entity (hknown : Unambiguous known) (hentity : entity ∈ known) (rest : List Char) :
    unescape known (entity.text ++ rest) = entity.char :: unescape known rest := by
  have hstep : unescape known (entity.text ++ rest) =
      entity.char :: unescape known ((entity.text ++ rest).drop entity.text.length) := by
    have hfind := find?_text hknown hentity rest
    rw [Entity.text, List.cons_append] at hfind ⊢
    rw [unescape, hfind]
    rfl
  rw [hstep, List.drop_left]

/-- What is no ampersand is left as it is. -/
theorem unescape_cons (hc : c ≠ '&') (rest : List Char) :
    unescape known (c :: rest) = c :: unescape known rest := by
  have hfind : (known.find? fun entity => entity.text.isPrefixOf (c :: rest)) = none := by
    refine List.find?_eq_none.mpr fun entity _ hbegins => ?_
    exact hc (List.cons_prefix_cons.mp (List.isPrefixOf_iff_prefix.mp hbegins)).1.symm
  rw [unescape, hfind]

/-- A reader who knows the entities of the place undoes escaping. -/
theorem unescape_escape (hknown : Unambiguous known) (hplace : entities place ⊆ known) (text : List Char) :
    unescape known (escape place text) = text := by
  induction text with
  | nil => rw [escape, List.flatMap_nil, unescape]
  | cons c rest ih =>
    rw [escape_cons]
    -- either way the reader gets to the end of what is written for the first character
    rcases escapeChar_cases place c with ⟨entity, hentity, rfl, hwritten⟩ | ⟨hnone, hwritten⟩
    · rw [hwritten, unescape_entity hknown (hplace hentity), ih]
    · obtain ⟨ampersand, hampersand, hchar⟩ := exists_entity_ampersand place
      have hc : c ≠ '&' := fun heq => hnone ampersand hampersand (hchar.trans heq.symm)
      rw [hwritten, List.singleton_append, unescape_cons hc, ih]

/-- Escaping takes nothing away. -/
theorem escape_injective (place : Place) : Function.Injective (escape place) :=
  Function.LeftInverse.injective (unescape_escape (unambiguous_entities place) fun _ => id)

/-- Other than the ampersand no character with an entity is left in an escaped text. -/
theorem not_mem_escape (h : ∃ entity ∈ entities place, entity.char = c) (hc : c ≠ '&') (text : List Char) :
    c ∉ escape place text := by
  intro hmem
  obtain ⟨entity, hentity, rfl⟩ := h
  obtain ⟨original, -, hwritten⟩ := List.mem_flatMap.mp hmem
  rcases escapeChar_cases place original with ⟨other, hother, -, htext⟩ | ⟨hnone, htext⟩
  · rw [htext] at hwritten
    rcases List.mem_cons.mp hwritten with heq | hname
    · exact hc heq
    · exact char_ne_of_mem_name hother hname entity hentity rfl
  · rw [htext, List.mem_singleton] at hwritten
    exact hnone entity hentity hwritten

/-- A rest that begins with a character lies behind whatever does not hold the character. -/
theorem suffix_of_not_mem {front rest behind : List Char} (hfront : c ∉ front)
    (h : c :: behind <:+ front ++ rest) : c :: behind <:+ rest := by
  induction front with
  | nil => exact h
  | cons d front ih =>
    obtain ⟨hne, hfront⟩ := List.ne_and_not_mem_of_not_mem_cons hfront
    rcases List.suffix_cons_iff.mp h with heq | h
    · exact absurd (List.cons.inj heq).1 hne
    · exact ih hfront h

/-- Every ampersand in an escaped text begins an entity of the place. -/
theorem exists_entity_of_suffix {behind : List Char} (h : '&' :: behind <:+ escape place text) :
    ∃ entity ∈ entities place, entity.text <+: '&' :: behind := by
  obtain ⟨ampersand, hampersand, hchar⟩ := exists_entity_ampersand place
  induction text with
  | nil => exact absurd (List.suffix_nil.mp h) (List.cons_ne_nil _ _)
  | cons c rest ih =>
    rw [escape_cons] at h
    rcases escapeChar_cases place c with ⟨entity, hentity, -, htext⟩ | ⟨hnone, htext⟩
    · rw [htext, Entity.text, List.cons_append] at h
      -- the ampersand is that of the entity, or it stands behind the whole entity
      rcases List.suffix_cons_iff.mp h with heq | h
      · refine ⟨entity, hentity, ?_⟩
        rw [heq, ← List.cons_append]
        exact List.prefix_append _ _
      · have hname : '&' ∉ entity.name.toList ++ [';'] := fun hmem =>
          char_ne_of_mem_name hentity hmem ampersand hampersand hchar
        exact ih (suffix_of_not_mem hname h)
    · have hfront : '&' ∉ [c] := fun hmem =>
        hnone ampersand hampersand (hchar.trans (List.mem_singleton.mp hmem))
      rw [htext] at h
      exact ih (suffix_of_not_mem hfront h)

end

/-- Escaping is undone by replacing the entities of the place, or those of both places, from left to right, so
no two texts are escaped to the same one. What is escaped has no angle bracket in a text, no quote in an
attribute and no no-break space at all, each ampersand in it begins an entity of the place, and texts can be
escaped part by part. -/
theorem escaping_undone (place : Place) :
    (∀ text, unescape (entities place) (escape place text) = text) ∧
    (∀ text, unescape (entities .attribute ++ entities .text) (escape place text) = text) ∧
    Function.Injective (escape place) ∧
    (∀ text, '<' ∉ escape .text text ∧ '>' ∉ escape .text text ∧ '"' ∉ escape .attribute text ∧
      '\u00a0' ∉ escape place text) ∧
    (∀ text behind, '&' :: behind <:+ escape place text →
      ∃ entity ∈ entities place, entity.text <+: '&' :: behind) ∧
    ∀ front back, escape place (front ++ back) = escape place front ++ escape place back := by
  have hboth : entities place ⊆ entities .attribute ++ entities .text := by cases place <;> simp
  have hspace : ∃ entity ∈ entities place, entity.char = '\u00a0' := by cases place <;> decide
  refine ⟨unescape_escape (unambiguous_entities place) fun _ => id, unescape_escape (by decide) hboth,
    escape_injective place, fun text => ⟨?_, ?_, ?_, ?_⟩, fun _ _ => exists_entity_of_suffix, escape_append place⟩
  · exact not_mem_escape (by decide) (by decide) text
  · exact not_mem_escape (by decide) (by decide) text
  · exact not_mem_escape (by decide) (by decide) text
  · exact not_mem_escape hspace (by decide) text

-- what looks like an entity is none behind an ampersand that was escaped
example : escape .text "a&lt;b".toList = "a&amp;lt;b".toList := by decide

end TreeQuery.Markup
