import Mathlib.Data.List.Infix
import TreeQuery.Warnings

/-!
# When a warning is new

A warning is remembered by its text, and in that text the component ends where a bracket and a space
come first. A component that contains them itself ends too early there, so that two pairs of a component
and a message can have one text. The memory holds the texts of the warnings since it was last cleared,
by induction over the steps, and a warning is new when none of them is its own.

Main statement: a warning is new exactly when no recent one has the same text, which is to say the same
component and message where the components do not contain the end of a component.
-/

namespace TreeQuery.Warnings

/-- A warning was made, and the memory has not been cleared since. -/
def Recent (earlier : List Step) (component message : String) : Prop :=
  ∃ before between, earlier = before ++ .warn component message :: between ∧ .clear ∉ between

/-- A component that does not contain what stands behind it in the text of a warning. -/
def Distinct (component : String) : Prop := ¬ [']', ' '] <:+: component.toList

instance (component : String) : Decidable (Distinct component) :=
  inferInstanceAs (Decidable (¬ [']', ' '] <:+: component.toList))

/-- The text of a warning, character by character. -/
theorem toList_key (component message : String) :
    (key component message).toList = '[' :: (component.toList ++ ']' :: ' ' :: message.toList) := by
  simp only [key, ToString.toString, String.toList_append]
  simp

/-- Two warnings have one text when they are the same behind the bracket that opens it. -/
theorem key_eq_key_iff {component message component' message' : String} :
    key component message = key component' message' ↔
      component ++ "] " ++ message = component' ++ "] " ++ message' := by
  rw [← String.toList_inj, ← String.toList_inj, toList_key, toList_key]
  simp

/-- A text ends at the first end of a component in it. -/
theorem append_inj_of_distinct {component message component' message' : String}
    (h : Distinct component) (h' : Distinct component')
    (heq : component.toList ++ ']' :: ' ' :: message.toList =
      component'.toList ++ ']' :: ' ' :: message'.toList) :
    component = component' ∧ message = message' := by
  -- the longer component goes on with what ends the shorter one, or with a part of it
  have hpart : ∀ {front back middle back' : List Char},
      ']' :: ' ' :: back = middle ++ ']' :: ' ' :: back' → ¬ [']', ' '] <:+: front ++ middle →
        middle = [] := by
    intro front back middle back' hback hfront
    rcases middle with _ | ⟨c, _ | ⟨d, middle⟩⟩
    · rfl
    · simp at hback
    · obtain ⟨rfl, rfl, -⟩ : ']' = c ∧ ' ' = d ∧ back = middle ++ ']' :: ' ' :: back' := by
        simpa using hback
      exact absurd ⟨front, middle, by simp⟩ hfront
  rcases List.append_eq_append_iff.mp heq with ⟨middle, hcomponent, hback⟩ | ⟨middle, hcomponent, hback⟩
  · rw [Distinct, hcomponent] at h'
    obtain rfl := hpart hback h'
    rw [List.append_nil] at hcomponent
    have hmessage := (List.cons.inj (List.cons.inj hback).2).2
    exact ⟨(String.toList_inj.mp hcomponent).symm, String.toList_inj.mp hmessage⟩
  · rw [Distinct, hcomponent] at h
    obtain rfl := hpart hback h
    rw [List.append_nil] at hcomponent
    have hmessage := (List.cons.inj (List.cons.inj hback).2).2
    exact ⟨String.toList_inj.mp hcomponent, (String.toList_inj.mp hmessage).symm⟩

/-- Where neither component contains the end of one, only the same pair has the same text. -/
theorem key_inj_of_distinct {component message component' message' : String}
    (h : Distinct component) (h' : Distinct component')
    (heq : key component message = key component' message') :
    component = component' ∧ message = message' := by
  have hlist := congrArg String.toList heq
  rw [toList_key, toList_key] at hlist
  exact append_inj_of_distinct h h' (List.cons.inj hlist).2

section

variable {earlier : List Step} {component message component' message' : String}

/-- The last of some steps is a warning that is looked for, or that warning stands before it. -/
theorem concat_eq_append_cons {before between : List Step} {last step : Step}
    (h : earlier ++ [last] = before ++ step :: between) :
    between = [] ∧ last = step ∨
      ∃ between', between = between' ++ [last] ∧ earlier = before ++ step :: between' := by
  rcases List.eq_nil_or_concat between with rfl | ⟨between', other, rfl⟩
  · obtain ⟨-, hstep⟩ := List.append_inj' h rfl
    exact Or.inl ⟨rfl, (List.cons.inj hstep).1⟩
  · rw [List.concat_eq_append, ← List.cons_append, ← List.append_assoc] at h
    obtain ⟨hearlier, hlast⟩ := List.append_inj' h rfl
    obtain rfl := (List.cons.inj hlast).1
    exact Or.inr ⟨between', List.concat_eq_append, hearlier⟩

/-- A further warning is recent, and so are those before it. -/
theorem recent_concat_warn :
    Recent (earlier ++ [.warn component' message']) component message ↔
      Recent earlier component message ∨ component' = component ∧ message' = message := by
  constructor
  · intro hrecent
    obtain ⟨before, between, heq, hclear⟩ := hrecent
    rcases concat_eq_append_cons heq with ⟨rfl, hlast⟩ | ⟨between', rfl, rfl⟩
    · exact Or.inr (Step.warn.inj hlast)
    · exact Or.inl ⟨before, between', rfl, fun hmem => hclear (List.mem_append_left _ hmem)⟩
  · intro hrecent
    rcases hrecent with ⟨before, between, rfl, hclear⟩ | ⟨rfl, rfl⟩
    · exact ⟨before, between ++ [.warn component' message'], by simp, by simp [hclear]⟩
    · exact ⟨earlier, [], rfl, List.not_mem_nil⟩

/-- Right after the memory was cleared no warning is recent. -/
theorem not_recent_concat_clear : ¬ Recent (earlier ++ [.clear]) component message := by
  intro hrecent
  obtain ⟨before, between, heq, hclear⟩ := hrecent
  rcases concat_eq_append_cons heq with ⟨rfl, hlast⟩ | ⟨between', rfl, -⟩
  · cases hlast
  · exact hclear (List.mem_append_right _ (List.mem_singleton_self _))

end

/-- Steps behind others start from the memory that those leave. -/
theorem steps_append (warnings : Warnings) (first second : List Step) :
    warnings.steps (first ++ second) =
      ((warnings.steps first).1 ++ ((warnings.steps first).2.steps second).1,
        ((warnings.steps first).2.steps second).2) := by
  induction first generalizing warnings with
  | nil => rfl
  | cons step rest ih => simp [steps, ih]

/-- Every step has an answer. -/
theorem length_steps (warnings : Warnings) (steps : List Step) :
    (warnings.steps steps).1.length = steps.length := by
  induction steps generalizing warnings with
  | nil => rfl
  | cons step rest ih => simp [Warnings.steps, ih]

/-- A warning adds its text to the memory. -/
theorem mem_given_warn {warnings : Warnings} {component message text : String} :
    text ∈ (warnings.warn component message).2.given ↔
      text ∈ warnings.given ∨ key component message = text := by
  unfold warn
  split
  next h =>
    rw [List.contains_iff_mem] at h
    exact ⟨Or.inl, fun hmem => hmem.elim id fun heq => heq ▸ h⟩
  next => rw [List.mem_cons, or_comm, eq_comm]

/-- A warning is new when the memory does not hold its text. -/
theorem warn_fst_iff {warnings : Warnings} {component message : String} :
    (warnings.warn component message).1 = true ↔ key component message ∉ warnings.given := by
  unfold warn
  split <;> simp_all

/-- What is remembered are the texts of the recent warnings. -/
theorem mem_given_steps {earlier : List Step} {text : String} :
    text ∈ (empty.steps earlier).2.given ↔
      ∃ component message, Recent earlier component message ∧ key component message = text := by
  induction earlier using List.reverseRecOn with
  | nil => simp [steps, empty, Recent]
  | append_singleton earlier step ih =>
    rw [steps_append]
    cases step with
    | warn component message =>
      have hlast : ((empty.steps earlier).2.steps [.warn component message]).2 =
          ((empty.steps earlier).2.warn component message).2 := rfl
      simp only [hlast, mem_given_warn, ih, recent_concat_warn]
      constructor
      · rintro (⟨component', message', hrecent, htext⟩ | htext)
        · exact ⟨component', message', Or.inl hrecent, htext⟩
        · exact ⟨component, message, Or.inr ⟨rfl, rfl⟩, htext⟩
      · rintro ⟨component', message', hrecent | ⟨rfl, rfl⟩, htext⟩
        · exact Or.inl ⟨component', message', hrecent, htext⟩
        · exact Or.inr htext
    | clear =>
      have hlast : ((empty.steps earlier).2.steps [.clear]).2 = empty := rfl
      rw [hlast]
      simp [empty, not_recent_concat_clear]

/-- Among others a warning is answered as it is after the steps before it. -/
theorem getElem?_steps_warn (earlier later : List Step) (component message : String) :
    (empty.steps (earlier ++ .warn component message :: later)).1[earlier.length]? =
      some (some ((empty.steps earlier).2.warn component message).1) := by
  rw [steps_append, List.getElem?_append_right (Nat.le_of_eq (length_steps empty earlier)), length_steps,
    Nat.sub_self]
  rfl

/-- A warning is answered, and it is new exactly when no recent warning has the same text. Where neither
its component nor those of the recent warnings contain the end of one, it is new exactly when it is not
recent itself. -/
theorem new_iff_no_recent_text (earlier later : List Step) (component message : String) :
    ∃ new, (empty.steps (earlier ++ .warn component message :: later)).1[earlier.length]? =
        some (some new) ∧
      (new = true ↔ ∀ component' message', Recent earlier component' message' →
        component' ++ "] " ++ message' ≠ component ++ "] " ++ message) ∧
      (Distinct component → (∀ component' message', Recent earlier component' message' →
        Distinct component') → (new = true ↔ ¬ Recent earlier component message)) := by
  refine ⟨_, getElem?_steps_warn earlier later component message, ?_, fun hdistinct hall => ?_⟩
  · rw [warn_fst_iff, mem_given_steps]
    simp only [key_eq_key_iff, not_exists, not_and, ne_eq]
  · rw [warn_fst_iff, mem_given_steps]
    refine not_congr ⟨?_, fun hrecent => ⟨component, message, hrecent, rfl⟩⟩
    rintro ⟨component', message', hrecent, heq⟩
    obtain ⟨rfl, rfl⟩ := key_inj_of_distinct (hall _ _ hrecent) hdistinct heq
    exact hrecent

/-- A warning can be taken for one of another component that was made before it. -/
theorem exists_new_not_answered : ¬ ∀ earlier later component message, ∃ new,
    (empty.steps (earlier ++ .warn component message :: later)).1[earlier.length]? = some (some new) ∧
      (new = true ↔ ¬ Recent earlier component message) := by
  intro hall
  obtain ⟨new, hanswer, hiff⟩ := hall [.warn "a] b" "c"] [] "a" "b] c"
  -- both texts are `[a] b] c`, so the second warning is not new
  have hold : (empty.steps [.warn "a] b" "c", .warn "a" "b] c"]).1 = [some true, some false] := by decide
  obtain rfl : false = new := by simpa [hold] using hanswer
  refine Bool.false_ne_true (hiff.mpr fun hrecent => ?_)
  obtain ⟨before, between, heq, -⟩ := hrecent
  cases before <;> simp at heq

end TreeQuery.Warnings
