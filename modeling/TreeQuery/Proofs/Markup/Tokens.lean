import TreeQuery.Markup
import TreeQuery.Proofs.Markup.Entities

/-!
# The pieces of markup can be told apart

Each piece of markup ends where something stands that it cannot hold: a name before a character that no
identifier has, the value of an attribute before a quote, a text before an angle bracket, and a comment
before the first arrow behind it. So where two texts are the same and begin with pieces of the same sort,
the pieces are the same, and so is what stands behind them.

Main statements: what escaped texts, comments and start tags are written for can be read off any text that
begins with them.
-/

namespace TreeQuery.Markup

/-- Runs of characters that end where they cannot go on are the same at the beginning of the same text. -/
theorem append_inj_of_maximal {p : Char → Bool} {first second rest rest' : List Char}
    (hfirst : ∀ c ∈ first, p c = true) (hsecond : ∀ c ∈ second, p c = true)
    (hrest : ∀ c ∈ rest.head?, p c = false) (hrest' : ∀ c ∈ rest'.head?, p c = false)
    (h : first ++ rest = second ++ rest') : first = second ∧ rest = rest' := by
  have hrun : ∀ {run behind : List Char}, (∀ c ∈ run, p c = true) → (∀ c ∈ behind.head?, p c = false) →
      (run ++ behind).takeWhile p = run := by
    intro run behind hall hend
    rw [List.takeWhile_append_of_pos hall]
    cases behind with
    | nil => simp
    | cons c behind => simp [hend c rfl]
  have hsame : first = second := by rw [← hrun hfirst hrest, h, hrun hsecond hrest']
  subst hsame
  exact ⟨rfl, List.append_cancel_left h⟩

/-- Escaped texts that end before a character they cannot hold, or with the whole, can be told. -/
theorem escape_append_inj {place : Place} (stop : Char)
    (hstop : ∃ entity ∈ entities place, entity.char = stop) (hne : stop ≠ '&')
    {first second : String} {rest rest' : List Char} (hrest : ∀ c ∈ rest.head?, c = stop)
    (hrest' : ∀ c ∈ rest'.head?, c = stop)
    (h : escape place first.toList ++ rest = escape place second.toList ++ rest') :
    first = second ∧ rest = rest' := by
  have hinside : ∀ text c, c ∈ escape place text → (c != stop) = true := fun text c hc =>
    bne_iff_ne.mpr (ne_of_mem_of_not_mem hc (not_mem_escape hstop hne text))
  obtain ⟨hsame, hbehind⟩ := append_inj_of_maximal (p := fun c => c != stop) (hinside first.toList)
    (hinside second.toList) (fun c hc => by simp [hrest c hc]) (fun c hc => by simp [hrest' c hc]) h
  exact ⟨String.toList_inj.mp (escape_injective place hsame), hbehind⟩

/-- Texts that end before an angle bracket or with the whole can be told. -/
theorem text_append_inj {first second : String} {rest rest' : List Char}
    (hrest : ∀ c ∈ rest.head?, c = '<') (hrest' : ∀ c ∈ rest'.head?, c = '<')
    (h : escape .text first.toList ++ rest = escape .text second.toList ++ rest') :
    first = second ∧ rest = rest' := escape_append_inj '<' (by decide) (by decide) hrest hrest' h

/-- Behind a text without an arrow the first arrow is the one that ends it. -/
theorem eq_nil_of_arrow {text behind rest rest' : List Char} (hnone : ¬ ['-', '-', '>'] <:+: text ++ behind)
    (h : ['-', '-', '>'] ++ rest = behind ++ (['-', '-', '>'] ++ rest')) : behind = [] := by
  match behind with
  | [] => rfl
  | [c] => simp at h
  | [c, c'] => simp at h
  | c :: c' :: c'' :: behind =>
    simp only [List.cons_append, List.nil_append, List.cons.injEq] at h
    obtain ⟨rfl, rfl, rfl, -⟩ := h
    exact absurd ⟨text, behind, by simp⟩ hnone

/-- Comments without an arrow can be told. -/
theorem comment_append_inj {first second : String} {rest rest' : List Char}
    (hfirst : ¬ ['-', '-', '>'] <:+: first.toList) (hsecond : ¬ ['-', '-', '>'] <:+: second.toList)
    (h : commentMarkup first ++ rest = commentMarkup second ++ rest') : first = second ∧ rest = rest' := by
  have harrow : "-->".toList = ['-', '-', '>'] := rfl
  simp only [commentMarkup, List.append_assoc, harrow] at h
  have hcontents := List.append_cancel_left h
  have hsame : first.toList = second.toList := by
    rcases List.append_eq_append_iff.mp hcontents with ⟨more, hmore, hrest⟩ | ⟨more, hmore, hrest⟩
    · rw [hmore] at hsecond
      rw [hmore, eq_nil_of_arrow hsecond hrest, List.append_nil]
    · rw [hmore] at hfirst
      rw [hmore, eq_nil_of_arrow hfirst hrest, List.append_nil]
  rw [hsame] at hcontents
  exact ⟨String.toList_inj.mp hsame, List.append_cancel_left (List.append_cancel_left hcontents)⟩

/-- Names that end before something that is no part of a name can be told. -/
theorem name_append_inj {first second : String} {rest rest' : List Char}
    (hfirst : Text.isIdentifier first.toList = true) (hsecond : Text.isIdentifier second.toList = true)
    (hrest : ∀ c ∈ rest.head?, Text.isIdentifierChar c = false)
    (hrest' : ∀ c ∈ rest'.head?, Text.isIdentifierChar c = false)
    (h : first.toList ++ rest = second.toList ++ rest') : first = second ∧ rest = rest' := by
  have hall : ∀ {name : String}, Text.isIdentifier name.toList = true →
      ∀ c ∈ name.toList, Text.isIdentifierChar c = true := fun hname =>
    List.all_eq_true.mp (Bool.and_eq_true_iff.mp hname).2
  obtain ⟨hsame, hbehind⟩ := append_inj_of_maximal (hall hfirst) (hall hsecond) hrest hrest' h
  exact ⟨String.toList_inj.mp hsame, hbehind⟩

/-- Attributes up to the end of a start tag can be told. -/
theorem attributes_append_inj {first second : List (String × String)} {rest rest' : List Char}
    (hfirst : ∀ entry ∈ first, Text.isIdentifier entry.1.toList = true)
    (hsecond : ∀ entry ∈ second, Text.isIdentifier entry.1.toList = true)
    (h : first.flatMap attributeMarkup ++ '>' :: rest = second.flatMap attributeMarkup ++ '>' :: rest') :
    first = second ∧ rest = rest' := by
  induction first generalizing second with
  | nil =>
    cases second with
    | nil => exact ⟨rfl, (List.cons.inj h).2⟩
    | cons entry others => simp [attributeMarkup] at h
  | cons entry others ih =>
    cases second with
    | nil => simp [attributeMarkup] at h
    | cons entry' others' =>
      obtain ⟨hname, hnames⟩ := List.forall_mem_cons.mp hfirst
      obtain ⟨hname', hnames'⟩ := List.forall_mem_cons.mp hsecond
      simp only [List.flatMap_cons, attributeMarkup, List.cons_append, List.append_assoc, List.nil_append,
        List.cons.injEq, true_and] at h
      obtain ⟨hsame, hvalues⟩ := name_append_inj hname hname' (by simp; decide) (by simp; decide) h
      simp only [List.cons.injEq, true_and] at hvalues
      obtain ⟨hvalue, hbehind⟩ := escape_append_inj '"' (by decide) (by decide) (by simp) (by simp) hvalues
      obtain ⟨hothers, hrest⟩ := ih hnames hnames' (List.cons.inj hbehind).2
      rw [Prod.ext hsame hvalue, hothers]
      exact ⟨rfl, hrest⟩

/-- Behind the name of a start tag stands a blank or the end of the tag. -/
theorem head_attributes (entries : List (String × String)) (rest : List Char) :
    ∀ c ∈ (entries.flatMap attributeMarkup ++ '>' :: rest).head?, Text.isIdentifierChar c = false := by
  cases entries <;> simp [attributeMarkup] <;> decide

/-- Start tags can be told. -/
theorem startTag_append_inj {tag tag' : String} {attributes attributes' : Attributes}
    {rest rest' : List Char} (htag : Text.isIdentifier tag.toList = true)
    (htag' : Text.isIdentifier tag'.toList = true)
    (hnames : ∀ entry ∈ attributes.entries, Text.isIdentifier entry.1.toList = true)
    (hnames' : ∀ entry ∈ attributes'.entries, Text.isIdentifier entry.1.toList = true)
    (h : startTag tag attributes ++ rest = startTag tag' attributes' ++ rest') :
    tag = tag' ∧ attributes = attributes' ∧ rest = rest' := by
  simp only [startTag, List.cons_append, List.append_assoc, List.nil_append, List.cons.injEq, true_and] at h
  obtain ⟨hsame, hbehind⟩ := name_append_inj htag htag' (head_attributes _ _) (head_attributes _ _) h
  obtain ⟨hentries, hrest⟩ := attributes_append_inj hnames hnames' hbehind
  refine ⟨hsame, ?_, hrest⟩
  cases attributes
  cases attributes'
  congr 1

end TreeQuery.Markup
