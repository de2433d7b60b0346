import TreeQuery.Proofs.Selector.Derivation

/-!
# Texts of one component

A text that is one identifier, or a mark and one identifier, is recognised at a glance. The reader of
compounds makes the same of it, so the glance changes nothing.

Main statement: the compounds of any text are those that the reader finds in it.
-/

namespace TreeQuery.Compound

open Grammar

/-- An identifier that is a whole text is maximal. -/
theorem name_of_isIdentifier {name : List Char} (h : Text.isIdentifier name = true) : Name name [] := by
  simp only [Text.isIdentifier, Bool.and_eq_true, Bool.not_eq_true', List.isEmpty_eq_false_iff,
    List.all_eq_true] at h
  exact ⟨h.1, h.2, by simp⟩

/-- At the end of a text no component is read, and nothing is left. -/
theorem components_nil (position : Nat) : Component.readAll ⟨position, []⟩ = ([], ⟨position, []⟩) := by
  rw [Component.readAll]

/-- A text whose one compound leaves nothing behind it. -/
theorem readAll_of_read {input : Remaining} {compound : Compound} {after : Nat}
    (hne : input.text ≠ []) (hread : read input = (compound, ⟨after, []⟩)) : readAll input = [compound] := by
  rw [compounds_readAll input hne, hread, compounds_readAll_nil]

/-- An identifier is read as a tag. -/
theorem readAll_identifier {name : List Char} (h : Text.isIdentifier name = true) :
    readAll ⟨0, name⟩ = [⟨false, [.tag (.ofList name)]⟩] := by
  have hname := name_of_isIdentifier h
  obtain ⟨c, tail, rfl, hc⟩ := hname.head
  have htag := hname.readTag 0
  rw [List.append_nil] at htag
  have hread : read ⟨0, c :: tail⟩ =
      (⟨false, [.tag (.ofList (c :: tail))]⟩, ⟨0 + Text.byteLength (c :: tail), []⟩) := by
    rw [read_eq, readChild_none (ne_of_class hc (by decide))]
    simp only [readBody, htag, components_nil]
    rfl
  exact readAll_of_read (List.cons_ne_nil c tail) hread

/-- A mark and what stands behind it are read as one component, if they leave nothing behind. -/
theorem readAll_mark {mark : Char} {tail : List Char} {component : Component} {after : Nat}
    (hmark : mark ∈ marks) (h : Component.read 0 mark tail = (component, ⟨after, []⟩)) :
    readAll ⟨0, mark :: tail⟩ = [⟨false, [component]⟩] := by
  obtain ⟨hchild, hstar, hspace, hname⟩ := of_mem_marks hmark
  have htag : readTag ⟨0, mark :: tail⟩ = ([], ⟨0, mark :: tail⟩) := by
    refine readTag_none (fun c hc => ?_) 0
    cases hc
    exact ⟨hstar, hname⟩
  have hread : read ⟨0, mark :: tail⟩ = (⟨false, [component]⟩, ⟨after, []⟩) := by
    rw [read_eq, readChild_none hchild]
    simp only [readBody, htag, readAll_cons 0 tail hchild hspace, h, components_nil]
    rfl
  exact readAll_of_read (List.cons_ne_nil mark tail) hread

/-- What a text writes by itself is what the reader finds. -/
theorem readAll_of_alone {text : List Char} {component : Component} (h : alone? text = some component) :
    readAll ⟨0, text⟩ = [⟨false, [component]⟩] := by
  unfold alone? at h
  split at h
  next hname =>
    cases h
    exact readAll_identifier hname
  next =>
    cases text with
    | nil => simp at h
    | cons mark name =>
      simp only at h
      split at h
      next hidentifier =>
        have hname := name_of_isIdentifier hidentifier
        have hread := fun make => hname.readNamed mark (0 + mark.utf8Size) make
        simp only [List.append_nil] at hread
        split at h
        next =>
          cases h
          exact readAll_mark (by decide) (hread fun name left => (.id name, left))
        next =>
          cases h
          exact readAll_mark (by decide) (hread fun name left => (.hasClass name, left))
        next =>
          cases h
          exact readAll_mark (by decide) (hread fun name left =>
            (.call name (Component.readParameter left).1, (Component.readParameter left).2))
        next => simp at h
      next => simp at h

/-- The compounds of a text are those that the reader finds in it. -/
theorem ofText_eq_readAll (text : List Char) : ofText text = readAll ⟨0, text⟩ := by
  unfold ofText
  split
  next component h => exact (readAll_of_alone h).symm
  next => rfl

end TreeQuery.Compound
