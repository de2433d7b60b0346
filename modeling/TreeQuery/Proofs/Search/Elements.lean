import Mathlib
import TreeQuery.Proofs.Search.Lookup

/-!
# Which nodes lookups return

A lookup takes any string, not only an identifier. By class and by `id` it asks for attributes, which only
elements have, so it returns elements whatever the string. By tag it asks for the name of a node, and the
nodes of the other kinds have names too: a lookup for one of these names returns the nodes of that kind.
Every other string, and so every identifier, leads to elements alone.

Main statement: the nodes that a lookup returns, at every level and for every string, each of them once
and in document order.
-/

namespace TreeQuery

namespace Text

-- the library's lemmas on the case of single characters come with the whole of Mathlib only

/-- Only `#` has the lower case `#`. -/
theorem eq_of_toLower_eq {c : Char} (h : c.toLower = '#') : c = '#' := by
  by_cases hupper : c.isUpper = true
  · have hletter : c.toLower.isLower = true := by simp [Char.isAlpha, hupper]
    rw [h] at hletter
    contradiction
  · rwa [Char.toLower_eq_of_not_isUpper hupper] at h

/-- Lower case makes no difference to a comparison up to case. -/
theorem sameIgnoringCase_lower (text name : String) :
    sameIgnoringCase text (lower name) = sameIgnoringCase text name := by
  simp [sameIgnoringCase, lower, Function.comp_def]

end Text

namespace Tree

/-- The names of the nodes that are no elements. -/
def bareNames : List String := ["#text", "#comment", "#document"]

section

variable (tree : Tree)

/-- All children have a place in the arena. -/
def Inside : Prop := ∀ child parent, tree.IsChild child parent → child < tree.size

/-- A node is an element with a tag, up to the case of ASCII letters. -/
def HasTag (node : NodeId) (name : String) : Prop :=
  ∃ tag, tree.tag? node = some tag ∧ Text.sameIgnoringCase tag name = true

/-- A node is no element and its kind has this name, up to the case of ASCII letters. -/
def HasBareName (node : NodeId) (name : String) : Prop :=
  tree.isElement node = false ∧ ∃ bare ∈ bareNames, tree.nodeName node = bare ∧
    Text.sameIgnoringCase bare name = true

/-- Finds that are the wanted nodes within a level below a start, each of them once and in document order. -/
structure Exactly (start : NodeId) (level : Option Nat) (wanted : NodeId → Prop) (finds : List NodeId) :
    Prop where
  mem : ∀ node, node ∈ finds ↔ tree.Within level start node ∧ wanted node
  nodup : finds.Nodup
  ordered : finds.Pairwise tree.Before

end

variable {tree : Tree}

/-- A node has the name of an element with this tag or of another kind of nodes. -/
theorem sameIgnoringCase_nodeName_iff {node : NodeId} (hnode : node < tree.size) (name : String) :
    Text.sameIgnoringCase (tree.nodeName node) name = true ↔
      tree.HasTag node name ∨ tree.HasBareName node name := by
  obtain ⟨kind, hkind⟩ : ∃ kind, tree.kind? node = some kind :=
    ⟨_, by rw [kind?, get?, Array.getElem?_eq_getElem hnode]; rfl⟩
  cases kind <;> simp [HasTag, HasBareName, isElement, attributes?, tag?, nodeName, bareNames, hkind]

/-- An element with a tag is an element. -/
theorem HasTag.isElement {node : NodeId} {name : String} (h : tree.HasTag node name) :
    tree.isElement node = true := by
  obtain ⟨tag, htag, -⟩ := h
  unfold tag? at htag
  unfold Tree.isElement attributes?
  split at htag <;> simp_all

/-- What has an attribute is an element. -/
theorem isElement_of_attribute? {node : NodeId} {name value : String}
    (h : tree.attribute? node name = some value) : tree.isElement node = true := by
  obtain ⟨attributes, hattributes, -⟩ := Option.bind_eq_some_iff.mp h
  rw [isElement, hattributes]
  rfl

/-- What has a class token is an element. -/
theorem isElement_of_hasClass {node : NodeId} {name : String} (h : tree.hasClass node name = true) :
    tree.isElement node = true := by
  cases hvalue : tree.attribute? node "class" with
  | none => simp [hasClass, classes, attributeValue, hvalue, Text.words, Text.wordsFrom] at h
  | some value => exact isElement_of_attribute? hvalue

/-- What lies below something in an arena with all children has a place in it. -/
theorem Within.lt_size (hinside : tree.Inside) {level : Option Nat} {start node : NodeId}
    (h : tree.Within level start node) : node < tree.size := by
  obtain ⟨count, hpos, -, path⟩ := h
  obtain ⟨count, rfl⟩ := Nat.exists_eq_add_of_le' hpos
  obtain ⟨parent, -, hchild⟩ := path.last
  exact hinside node parent hchild

/-- Finds are the same for two ways to say which nodes are wanted. -/
theorem Exactly.congr {start : NodeId} {level : Option Nat} {wanted wanted' : NodeId → Prop}
    {finds : List NodeId} (h : tree.Exactly start level wanted finds)
    (hiff : ∀ node, tree.Within level start node → (wanted node ↔ wanted' node)) :
    tree.Exactly start level wanted' finds where
  mem node := (h.mem node).trans (and_congr_right (hiff node))
  nodup := h.nodup
  ordered := h.ordered

/-- Without `first` a lookup finds the nodes of which its predicate holds. -/
theorem WellFormed.exactly_nodesBy (h : tree.WellFormed) {predicate : Predicate}
    (hflags : predicate.flags = []) (start : NodeId) (level : Option Nat) (run : Run) :
    tree.Exactly start level (predicate.Holds tree) (tree.nodesBy start predicate level run).1 := by
  rw [nodesBy_eq_filter h.acyclic hflags]
  refine ⟨fun node => ?mem, ?nodup, ?ordered⟩
  case mem => rw [List.mem_filter, h.acyclic.mem_descendants, Predicate.passes_iff]
  case nodup =>
    exact ((h.nodup_descendants start).sublist (h.acyclic.descendants_sublist level start)).filter _
  case ordered => exact (h.acyclic.pairwise_before level start).sublist List.filter_sublist

/-- An identifier is no name of nodes that are no elements. -/
theorem sameIgnoringCase_bare {name : String} (h : Text.isIdentifier name.toList = true) :
    ∀ bare ∈ bareNames, Text.sameIgnoringCase bare name = false := by
  intro bare hbare
  by_contra hsame
  rw [Bool.not_eq_false, Text.sameIgnoringCase, beq_iff_eq, Text.lower, Text.lower,
    String.ofList_inj] at hsame
  -- all of these names have a `#`, which would have to be the lower case of an identifier's character
  have hhash : '#' ∈ bare.toList.map Char.toLower := by
    have hall : ∀ bare ∈ bareNames, '#' ∈ bare.toList.map Char.toLower := by decide
    exact hall bare hbare
  rw [hsame] at hhash
  obtain ⟨c, hc, hlower⟩ := List.mem_map.mp hhash
  rw [Text.eq_of_toLower_eq hlower] at hc
  simp only [Text.isIdentifier, Bool.and_eq_true, List.all_eq_true] at h
  exact absurd (h.2 _ hc) (by decide)

/-- In a well-formed tree whose children are all in its arena a lookup for any string, at every level,
returns each node once and in document order: by class the elements with the class token, by tag the
elements with the tag and the nodes of any other kind whose name this is, and by `id` the first of the
elements with the `id`. The first node is the head of all. So by tag, too, only elements are returned for a
string that is no name of another kind of nodes, as no identifier is. -/
theorem lookups_exact (h : tree.WellFormed) (hinside : tree.Inside) (start : NodeId) (level : Option Nat)
    (name : String) :
    (tree.Exactly start level (fun node => tree.isElement node = true ∧ name ∈ tree.classes node)
        (tree.elementsByClass start name level) ∧
      tree.firstElementByClass start name level = (tree.elementsByClass start name level).head?) ∧
    (tree.Exactly start level (fun node => tree.HasTag node name ∨ tree.HasBareName node name)
        (tree.elementsByTag start name level) ∧
      tree.firstElementByTag start name level = (tree.elementsByTag start name level).head?) ∧
    (∃ finds, tree.Exactly start level (fun node => tree.isElement node = true ∧ tree.id? node = some name)
        finds ∧ tree.elementById start name level = finds.head?) ∧
    ((∀ bare ∈ bareNames, Text.sameIgnoringCase bare name = false) →
      tree.Exactly start level (fun node => tree.isElement node = true ∧ tree.HasTag node name)
        (tree.elementsByTag start name level)) ∧
    (Text.isIdentifier name.toList = true → ∀ bare ∈ bareNames, Text.sameIgnoringCase bare name = false) := by
  have htag : tree.Exactly start level (fun node => tree.HasTag node name ∨ tree.HasBareName node name)
      (tree.elementsByTag start name level) := by
    have hflags : (Predicate.ofTag name).flags = [] := rfl
    refine (h.exactly_nodesBy hflags start level _).congr fun node hnode => ?_
    rw [Predicate.ofTag, Predicate.Holds, Text.sameIgnoringCase_lower]
    exact sameIgnoringCase_nodeName_iff (hnode.lt_size hinside) name
  refine ⟨⟨?hclass, tree.firstNodeBy_eq_head? ..⟩, ⟨htag, tree.firstNodeBy_eq_head? ..⟩,
    ⟨_, ?hid, tree.firstNodeBy_eq_head? ..⟩, fun hbare => ?helement, sameIgnoringCase_bare⟩
  case hclass =>
    refine (h.exactly_nodesBy rfl start level _).congr fun node _ => ?_
    rw [Predicate.Holds, hasClass, List.contains_iff_mem]
    exact ⟨fun hmem => ⟨isElement_of_hasClass (List.contains_iff_mem.mpr hmem), hmem⟩, And.right⟩
  case hid =>
    refine (h.exactly_nodesBy rfl start level _).congr fun node _ => ?_
    rw [Predicate.Holds]
    exact ⟨fun hid => ⟨isElement_of_attribute? hid, hid⟩, And.right⟩
  case helement =>
    refine htag.congr fun node _ => ?_
    constructor
    · rintro (hnode | ⟨-, bare, hmem, -, hsame⟩)
      · exact ⟨hnode.isElement, hnode⟩
      · rw [hbare bare hmem] at hsame
        contradiction
    · exact fun hnode => Or.inl hnode.2

/-- A paragraph with a text and a comment in it. -/
def annotated : Tree :=
  ⟨#[⟨.document, none, [1], none, none⟩,
    ⟨.element "P" (.ofList [("class", "note"), ("id", "n")]), some 0, [2, 3], none, none⟩,
    ⟨.text "x", some 1, [], some 3, none⟩, ⟨.comment "y", some 1, [], none, some 2⟩]⟩

theorem wellFormed_annotated : annotated.WellFormed :=
  wellFormed_of_ascending (by decide) (by decide) (by decide)

theorem inside_annotated : annotated.Inside := by
  have hall : ∀ parent < annotated.size, ∀ child ∈ annotated.children parent, child < annotated.size := by
    decide
  exact fun child parent hchild => hall parent (lt_size_of_isChild hchild) child hchild

theorem below_annotated : annotated.Within none 0 2 ∧ annotated.Within (some 1) 0 1 := by
  have hparagraph : 1 ∈ annotated.children 0 := by decide
  have htext : 2 ∈ annotated.children 1 := by decide
  exact ⟨⟨2, by decide, by simp, .step hparagraph (.step htext (.here 2))⟩,
    ⟨1, by decide, by simp, .step hparagraph (.here 1)⟩⟩

/-- The paragraph is found by its tag among the children, and by the name of its kind the text is. -/
theorem lookups_exact_annotated :
    annotated.WellFormed ∧ annotated.Inside ∧ 1 ∈ annotated.elementsByTag 0 "p" (some 1) ∧
      (∀ node ∈ annotated.elementsByTag 0 "p" none, annotated.isElement node = true) ∧
      2 ∈ annotated.elementsByTag 0 "#Text" none := by
  have hexact := lookups_exact wellFormed_annotated inside_annotated 0
  obtain ⟨-, ⟨hchildren, -⟩, -⟩ := hexact (some 1) "p"
  obtain ⟨-, -, -, helements, hidentifier⟩ := hexact none "p"
  obtain ⟨-, ⟨htexts, -⟩, -⟩ := hexact none "#Text"
  refine ⟨wellFormed_annotated, inside_annotated, ?paragraph, fun node hnode => ?element, ?text⟩
  case paragraph => exact (hchildren.mem 1).mpr ⟨below_annotated.2, Or.inl ⟨"P", rfl, by decide⟩⟩
  case element => exact (((helements (hidentifier (by decide))).mem node).mp hnode).2.1
  case text =>
    exact (htexts.mem 2).mpr ⟨below_annotated.1, Or.inr ⟨rfl, "#text", by decide, rfl, by decide⟩⟩

/-- A lookup by tag returns a node that is no element when it is given the name of its kind. -/
theorem exists_elementsByTag_not_isElement :
    ∃ (tree : Tree) (start node : NodeId) (name : String), tree.WellFormed ∧ tree.Inside ∧
      start < tree.size ∧ node ∈ tree.elementsByTag start name none ∧ tree.isElement node = false := by
  have hflags : (Predicate.ofTag "#text").flags = [] := rfl
  have hfinds := wellFormed_annotated.exactly_nodesBy hflags 0 none (freshRun (.ofTag "#text"))
  have hname : Predicate.Holds annotated (.ofTag "#text") 2 := by
    rw [Predicate.ofTag, Predicate.Holds]
    decide
  exact ⟨annotated, 0, 2, "#text", wellFormed_annotated, inside_annotated, by decide,
    (hfinds.mem 2).mpr ⟨below_annotated.1, hname⟩, rfl⟩

end Tree

end TreeQuery
