import Mathlib.Data.List.Chain
import TreeQuery.Proofs.Markup.Tokens
import TreeQuery.Proofs.Outline.Markup

/-!
# Outlines can be read back

What the markup of outlines begins with says of which kind the first of them is, or that none is left and
the end tag around them follows. Its piece of markup can be told from there, and so can its children, which
end with its end tag, and the outlines behind it. For this the outlines have to be legible: their names are
identifiers, no void element has children, texts are not empty and do not follow one another, comments hold
no arrow, and there is no document among them.

Main statement: legible outlines with the same markup are the same.
-/

namespace TreeQuery

open Markup

/-- What a kind has to be like for its markup to say what it is. -/
def NodeKind.Plain : NodeKind → Prop
  | .document => False
  | .element tag attributes => Text.isIdentifier tag.toList = true ∧
      ∀ entry ∈ attributes.entries, Text.isIdentifier entry.1.toList = true
  | .text content => content ≠ ""
  | .comment content => ¬ ['-', '-', '>'] <:+: content.toList

instance : DecidablePred NodeKind.Plain
  | .document => inferInstanceAs (Decidable False)
  | .element tag attributes => inferInstanceAs (Decidable (Text.isIdentifier tag.toList = true ∧
      ∀ entry ∈ attributes.entries, Text.isIdentifier entry.1.toList = true))
  | .text content => inferInstanceAs (Decidable (content ≠ ""))
  | .comment content => inferInstanceAs (Decidable (¬ ['-', '-', '>'] <:+: content.toList))

/-- Whether a kind is that of a void element. -/
def NodeKind.isVoid : NodeKind → Bool
  | .element tag _ => Markup.isVoid tag
  | _ => false

namespace Outline

/-- The content of an outline that is a text. -/
def text? : Outline → Option String
  | .text content => some content
  | _ => none

/-- No two texts follow one another. -/
def Apart (outlines : List Outline) : Prop :=
  outlines.IsChain fun left right => left.text? = none ∨ right.text? = none

/-- What an outline has to be like for its markup to say what stands at its top. -/
structure Plain (outline : Outline) : Prop where
  kind : outline.kind.Plain
  void : outline.kind.isVoid = true → outline.children = []
  apart : Apart outline.children

/-- What outlines have to be like for their markup to say what they are. -/
structure Legible (outlines : List Outline) : Prop where
  apart : Apart outlines
  plain : ∀ outline ∈ preorderOf outlines, outline.Plain

/-- Plain outlines with legible children are legible where no two texts follow one another. -/
theorem legible_of_forall {outlines : List Outline} (hapart : Apart outlines)
    (h : ∀ outline ∈ outlines, outline.Plain ∧ Legible outline.children) : Legible outlines where
  apart := hapart
  plain := by
    clear hapart
    induction outlines with
    | nil => exact fun other hother => absurd hother List.not_mem_nil
    | cons outline outlines ih =>
      obtain ⟨⟨hplain, hchildren⟩, hrest⟩ := List.forall_mem_cons.mp h
      intro other hother
      rw [preorderOf, outline.preorder_eq] at hother
      rcases List.mem_append.mp hother with hother | hother
      · rcases List.mem_cons.mp hother with rfl | hother
        · exact hplain
        · exact hchildren.plain other hother
      · exact ih hrest other hother

namespace Legible

variable {outline : Outline} {rest : List Outline}

/-- The first of legible outlines is plain. -/
theorem head (h : Legible (outline :: rest)) : outline.Plain :=
  h.plain outline (by rw [preorderOf, outline.preorder_eq]; exact List.mem_cons_self)

/-- The outlines behind the first are legible. -/
theorem tail (h : Legible (outline :: rest)) : Legible rest where
  apart := (List.isChain_cons.mp h.apart).2
  plain other hother := h.plain other (List.mem_append_right _ hother)

/-- The children of the first outline are legible. -/
theorem children (h : Legible (outline :: rest)) : Legible outline.children where
  apart := h.head.apart
  plain other hother := h.plain other (List.mem_append_left _ (by
    rw [outline.preorder_eq]
    exact List.mem_cons_of_mem _ hother))

/-- Behind a text stands no text. -/
theorem text?_eq_none {content : String} {next : Outline} (h : Legible (.text content :: next :: rest)) :
    next.text? = none :=
  ((List.isChain_cons.mp h.apart).1 next rfl).resolve_left (Option.some_ne_none content)

end Legible

end Outline

/-- What the beginning of a text is taken for. -/
inductive Piece where
  /-- The end of the text, or an end tag. -/
  | closing
  | element
  | text
  | comment
  deriving DecidableEq

/-- What the beginning of a text is taken for: behind an angle bracket the next character decides. -/
def Piece.of : List Char → Piece
  | [] => .closing
  | '<' :: '/' :: _ => .closing
  | '<' :: '!' :: _ => .comment
  | '<' :: _ => .element
  | _ => .text

/-- What the markup of an outline is taken for. -/
def Outline.piece : Outline → Piece
  | .document _ => .closing
  | .element _ _ _ => .element
  | .text _ => .text
  | .comment _ => .comment

/-- What does not begin with an angle bracket is taken for a text. -/
theorem Piece.of_text {c : Char} (hc : c ≠ '<') (rest : List Char) : Piece.of (c :: rest) = .text := by
  unfold Piece.of
  split <;> simp_all

/-- An angle bracket and a name are taken for an element. -/
theorem Piece.of_element {c : Char} (hc : Text.isIdentifierChar c = true) (rest : List Char) :
    Piece.of ('<' :: c :: rest) = .element := by
  have hslash : c ≠ '/' := by
    rintro rfl
    exact absurd hc (by decide)
  have hmark : c ≠ '!' := by
    rintro rfl
    exact absurd hc (by decide)
  unfold Piece.of
  split <;> simp_all

/-- What is not taken for a text ends a text. -/
theorem Piece.head_eq_of_ne_text {text : List Char} (h : Piece.of text ≠ .text) :
    ∀ c ∈ text.head?, c = '<' := by
  intro c hc
  by_contra hne
  obtain ⟨rest, rfl⟩ := List.head?_eq_some_iff.mp hc
  exact h (of_text hne rest)

/-- The markup of a plain outline is taken for what it is. -/
theorem Outline.Plain.piece_eq {outline : Outline} (h : outline.Plain) (rest : List Char) :
    Piece.of (outline.markup ++ rest) = outline.piece := by
  cases outline with
  | document children => exact h.kind.elim
  | element tag attributes children =>
    obtain ⟨hne, hall⟩ := Bool.and_eq_true_iff.mp h.kind.1
    obtain ⟨c, name, htag⟩ := List.exists_cons_of_ne_nil (show tag.toList ≠ [] by simpa using hne)
    have hc : Text.isIdentifierChar c = true := List.all_eq_true.mp hall c (by simp [htag])
    simp only [markup, startTag, htag, List.cons_append]
    exact Piece.of_element hc _
  | text content =>
    have hne : escape .text content.toList ≠ [] := fun hnil =>
      h.kind (String.toList_inj.mp (escape_injective .text hnil))
    obtain ⟨c, text, htext⟩ := List.exists_cons_of_ne_nil hne
    have hmem : c ∈ escape .text content.toList := htext ▸ List.mem_cons_self
    have hc : c ≠ '<' := ne_of_mem_of_not_mem hmem (not_mem_escape (by decide) (by decide) _)
    simp only [markup, htext, List.cons_append]
    exact Piece.of_text hc _
  | comment content => rfl

/-- The markup of a plain outline is not taken for the end. -/
theorem Outline.Plain.piece_ne_closing {outline : Outline} (h : outline.Plain) (rest : List Char) :
    Piece.of (outline.markup ++ rest) ≠ .closing := by
  rw [h.piece_eq]
  cases outline with
  | document children => exact h.kind.elim
  | element tag attributes children => exact Piece.noConfusion
  | text content => exact Piece.noConfusion
  | comment content => exact Piece.noConfusion

namespace Outline

/-- Behind a legible text its markup ends: no text follows, and what closes the outlines is none. -/
theorem Legible.head_behind_text {content : String} {rest : List Outline}
    (h : Legible (.text content :: rest)) {behind : List Char} (hbehind : Piece.of behind = .closing) :
    ∀ c ∈ (markupOf rest ++ behind).head?, c = '<' := by
  apply Piece.head_eq_of_ne_text
  cases rest with
  | nil =>
    simp only [markupOf, List.nil_append, hbehind]
    decide
  | cons next others =>
    rw [markupOf, List.append_assoc, h.tail.head.piece_eq]
    have hnone := h.text?_eq_none
    cases next <;> simp [text?, piece] at hnone ⊢

/-- Legible outlines can be read off a text that begins with their markup and goes on with what closes
them. -/
def Readable (outlines : List Outline) : Prop :=
  Legible outlines → ∀ {others rest rest'}, Legible others → Piece.of rest = .closing →
    Piece.of rest' = .closing → markupOf outlines ++ rest = markupOf others ++ rest' →
    outlines = others ∧ rest = rest'

/-- Behind a start tag the children can be told, if they can be read: those of a void element are none, and
those of another one stand before its end tag. -/
theorem Readable.inside {tag : String} {children children' : List Outline} {behind behind' : List Char}
    (hchildren : Readable children) (h : Legible children) (h' : Legible children')
    (hvoid : isVoid tag = true → children = []) (hvoid' : isVoid tag = true → children' = [])
    (heq : (if isVoid tag then [] else markupOf children ++ endTag tag) ++ behind =
      (if isVoid tag then [] else markupOf children' ++ endTag tag) ++ behind') :
    children = children' ∧ behind = behind' := by
  cases hsort : isVoid tag with
  | true =>
    rw [hsort, if_pos rfl, if_pos rfl] at heq
    exact ⟨(hvoid hsort).trans (hvoid' hsort).symm, heq⟩
  | false =>
    have hend : ∀ tail, Piece.of (endTag tag ++ tail) = .closing := by simp [endTag, hsort, Piece.of]
    rw [hsort, if_neg Bool.false_ne_true, if_neg Bool.false_ne_true, List.append_assoc,
      List.append_assoc] at heq
    obtain ⟨hsame, hrest⟩ := hchildren h h' (hend _) (hend _) heq
    exact ⟨hsame, List.append_cancel_left hrest⟩

/-- The first outline of a text can be told, if the children of the outline can be read. -/
theorem Readable.head {outline other : Outline} {rest others : List Outline} {behind behind' : List Char}
    (hchildren : Readable outline.children) (h : Legible (outline :: rest)) (h' : Legible (other :: others))
    (hbehind : Piece.of behind = .closing) (hbehind' : Piece.of behind' = .closing)
    (heq : outline.markup ++ (markupOf rest ++ behind) = other.markup ++ (markupOf others ++ behind')) :
    outline = other ∧ markupOf rest ++ behind = markupOf others ++ behind' := by
  have hpiece : outline.piece = other.piece := by rw [← h.head.piece_eq, heq, h'.head.piece_eq]
  cases outline with
  | document children => exact h.head.kind.elim
  | element tag attributes children =>
    cases other with
    | element tag' attributes' children' =>
      obtain ⟨⟨htag, hnames⟩, hvoid, -⟩ := h.head
      obtain ⟨⟨htag', hnames'⟩, hvoid', -⟩ := h'.head
      simp only [markup, List.append_assoc] at heq
      obtain ⟨rfl, rfl, hbehindTag⟩ := startTag_append_inj htag htag' hnames hnames' heq
      obtain ⟨hsame, hrest⟩ := hchildren.inside h.children h'.children hvoid hvoid' hbehindTag
      exact ⟨congrArg (element tag attributes) hsame, hrest⟩
    | document children' => exact h'.head.kind.elim
    | text content => cases hpiece
    | comment content => cases hpiece
  | text content =>
    cases other with
    | text content' =>
      obtain ⟨rfl, hrest⟩ := text_append_inj (h.head_behind_text hbehind) (h'.head_behind_text hbehind') heq
      exact ⟨rfl, hrest⟩
    | document children' => exact h'.head.kind.elim
    | element tag' attributes' children' => cases hpiece
    | comment content' => cases hpiece
  | comment content =>
    cases other with
    | comment content' =>
      obtain ⟨rfl, hrest⟩ := comment_append_inj h.head.kind h'.head.kind heq
      exact ⟨rfl, hrest⟩
    | document children' => exact h'.head.kind.elim
    | element tag' attributes' children' => cases hpiece
    | text content' => cases hpiece

/-- Outlines can be read, if the children of each of them can be. -/
theorem readable_of_children {outlines : List Outline} (hchildren : ∀ outline ∈ outlines, Readable outline.children) :
    Readable outlines := by
  induction outlines with
  | nil =>
    intro _ others rest rest' h' hrest hrest' heq
    cases others with
    | nil => exact ⟨rfl, heq⟩
    | cons other others =>
      rw [markupOf, markupOf, List.nil_append, List.append_assoc] at heq
      rw [heq] at hrest
      exact absurd hrest (h'.head.piece_ne_closing _)
  | cons outline outlines ih =>
    intro h others rest rest' h' hrest hrest' heq
    obtain ⟨hfirst, hothers⟩ := List.forall_mem_cons.mp hchildren
    cases others with
    | nil =>
      rw [markupOf, markupOf, List.nil_append, List.append_assoc] at heq
      rw [← heq] at hrest'
      exact absurd hrest' (h.head.piece_ne_closing _)
    | cons other others =>
      rw [markupOf, markupOf, List.append_assoc, List.append_assoc] at heq
      obtain ⟨rfl, hbehind⟩ := hfirst.head h h' hrest hrest' heq
      obtain ⟨rfl, hend⟩ := ih hothers h.tail h'.tail hrest hrest' hbehind
      exact ⟨rfl, hend⟩

/-- The children of every outline can be read. -/
theorem readable_children (outline : Outline) : Readable outline.children := by
  induction outline using Outline.induction with
  | step outline ih => exact readable_of_children ih

/-- Legible outlines with the same markup are the same. -/
theorem eq_of_markupOf_eq {outlines others : List Outline} (h : Legible outlines) (h' : Legible others)
    (heq : markupOf outlines = markupOf others) : outlines = others := by
  have hclosing : Piece.of [] = .closing := rfl
  have hread : Readable outlines := readable_of_children fun outline _ => outline.readable_children
  exact (hread h h' hclosing hclosing (by rw [heq])).1

end Outline

end TreeQuery
