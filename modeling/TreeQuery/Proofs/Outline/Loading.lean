import TreeQuery.Proofs.Outline.Markup
import TreeQuery.Proofs.Search.Lookup

/-!
# Loading outlines

Loading appends the nodes of an outline one after another, each below the place that its parent has got.
The places go by preorder: what is appended for an outline is a stretch of new places, the node itself at
the first of them and its children at the beginnings of their own stretches. No appending changes what was
there before, apart from the one list of children that grows.

Main statement: an outline is loaded unless it has a document below its top, and the tree that it is
loaded as holds its nodes in preorder, with links that agree and the markup of the outline.
-/

namespace TreeQuery

namespace Tree

variable {tree after : Tree}

/-- Outlines in preorder stand at the places from a start on, each with its children behind it. -/
def Lays (tree : Tree) (start : NodeId) (nodes : List Outline) : Prop :=
  ∀ (i : Nat) outline, nodes[i]? = some outline → tree.kind? (start + i) = some outline.kind ∧
    tree.children (start + i) = places (start + i + 1) outline.children

/-- Nodes one behind the other stand at places one behind the other. -/
theorem lays_append {start : NodeId} {first second : List Outline} :
    tree.Lays start (first ++ second) ↔ tree.Lays start first ∧ tree.Lays (start + first.length) second := by
  constructor
  · intro h
    refine ⟨fun i outline hi => h i outline ?_, fun i outline hi => ?_⟩
    · rw [List.getElem?_append_left (List.getElem?_eq_some_iff.mp hi).1, hi]
    · have hsecond := h (first.length + i) outline (by rw [List.getElem?_append_right (Nat.le_add_right _ _),
        Nat.add_sub_cancel_left, hi])
      rwa [← Nat.add_assoc] at hsecond
  · intro h i outline hi
    obtain ⟨hfirst, hsecond⟩ := h
    rcases Nat.lt_or_ge i first.length with hlt | hge
    · rw [List.getElem?_append_left hlt] at hi
      exact hfirst i outline hi
    · rw [List.getElem?_append_right hge] at hi
      have hlast := hsecond (i - first.length) outline hi
      rwa [Nat.add_assoc, Nat.add_sub_cancel' hge] at hlast

/-- The first node stands at the start, and the others behind it. -/
theorem lays_cons {start : NodeId} {outline : Outline} {rest : List Outline} :
    tree.Lays start (outline :: rest) ↔
      (tree.kind? start = some outline.kind ∧ tree.children start = places (start + 1) outline.children) ∧
        tree.Lays (start + 1) rest := by
  rw [← List.singleton_append, lays_append]
  refine and_congr_left' ⟨fun h => h 0 outline rfl, fun h i other hi => ?_⟩
  cases i with
  | zero => cases hi; exact h
  | succ i => cases hi

/-- Nodes that are left as they are stand where they did. -/
theorem Lays.frame {start : NodeId} {nodes : List Outline} (h : tree.Lays start nodes)
    (hkind : ∀ node, start ≤ node → node < start + nodes.length → after.kind? node = tree.kind? node)
    (hchildren : ∀ node, start ≤ node → node < start + nodes.length →
      after.children node = tree.children node) : after.Lays start nodes := by
  intro i outline hi
  have hlt := (List.getElem?_eq_some_iff.mp hi).1
  rw [hkind _ (Nat.le_add_right _ _) (Nat.add_lt_add_left hlt _),
    hchildren _ (Nat.le_add_right _ _) (Nat.add_lt_add_left hlt _)]
  exact h i outline hi

/-- What appending outlines to a parent makes of a tree. -/
structure Appended (tree : Tree) (parent : NodeId) (outlines : List Outline) (after : Tree) : Prop where
  linked : Linked after
  size : after.size = tree.size + (preorderOf outlines).length
  kind : ∀ node < tree.size, after.kind? node = tree.kind? node
  children : ∀ node < tree.size, after.children node =
    tree.children node ++ if node = parent then places tree.size outlines else []
  lays : after.Lays tree.size (preorderOf outlines)

/-- Growing adds one node to the arena. -/
theorem size_grow (parent : NodeId) (kind : NodeKind) : (tree.grow parent kind).1.size = tree.size + 1 := by
  rw [← tree.size_alloc kind]
  exact size_attach _ parent tree.size

/-- A place in the arena is a place in it after growing. -/
theorem lt_size_grow {node : NodeId} (h : node < tree.size) (parent : NodeId) (kind : NodeKind) :
    node < (tree.grow parent kind).1.size := by
  rw [size_grow]
  exact Nat.lt_succ_of_lt h

/-- The new node has a place in the arena. -/
theorem size_lt_size_grow (parent : NodeId) (kind : NodeKind) : tree.size < (tree.grow parent kind).1.size := by
  rw [size_grow]
  exact Nat.lt_succ_self tree.size

/-- Growing makes a node of its kind and leaves the kinds of the others. -/
theorem kind?_grow (parent : NodeId) (kind : NodeKind) (node : NodeId) :
    (tree.grow parent kind).1.kind? node = if node = tree.size then some kind else tree.kind? node := by
  rw [grow, kind?_attach, kind?_alloc]

/-- Growing puts the new node behind the children of its parent. -/
theorem children_grow {parent : NodeId} (hparent : parent < tree.size) (kind : NodeKind) (node : NodeId) :
    (tree.grow parent kind).1.children node =
      tree.children node ++ if node = parent then [tree.size] else [] := by
  rw [← tree.children_alloc kind node]
  exact children_attach (lt_size_alloc hparent kind) node

/-- A place that is not filled has no children. -/
theorem children_eq_nil_of_le {node : NodeId} (h : tree.size ≤ node) : tree.children node = [] :=
  List.eq_nil_iff_forall_not_mem.mpr fun _ hchild => Nat.not_lt.mpr h (lt_size_of_isChild hchild)

namespace Appended

/-- No outlines leave the tree as it is. -/
theorem nil (h : Linked tree) (parent : NodeId) : Appended tree parent [] tree where
  linked := h
  size := rfl
  kind _ _ := rfl
  children node _ := by simp [places]
  lays := by simp [Lays, preorderOf]

/-- The node of an outline is appended, and then its children below that node. -/
theorem grow {parent : NodeId} (hparent : parent < tree.size) {outline : Outline}
    (h : Appended (tree.grow parent outline.kind).1 tree.size outline.children after) :
    Appended tree parent [outline] after where
  linked := h.linked
  size := by
    rw [h.size, size_grow]
    simp only [preorderOf, outline.preorder_eq, List.append_nil, List.length_cons]
    omega
  kind node hlt := by
    rw [h.kind node (lt_size_grow hlt _ _), kind?_grow, if_neg (Nat.ne_of_lt hlt)]
  children node hlt := by
    rw [h.children node (lt_size_grow hlt _ _), if_neg (Nat.ne_of_lt hlt), List.append_nil,
      children_grow hparent]
    rfl
  lays := by
    have hnew : tree.size < (tree.grow parent outline.kind).1.size := size_lt_size_grow _ _
    have hlays := h.lays
    rw [size_grow] at hlays
    simp only [preorderOf, outline.preorder_eq, List.append_nil]
    refine lays_cons.mpr ⟨⟨?_, ?_⟩, hlays⟩
    · rw [h.kind _ hnew, kind?_grow, if_pos rfl]
    · rw [h.children _ hnew, if_pos rfl, children_grow hparent, if_neg (Nat.ne_of_gt hparent),
        children_eq_nil_of_le (Nat.le_refl _), size_grow]
      rfl

/-- Outlines are appended one behind the other. -/
theorem cons {middle : Tree} {parent : NodeId} (hparent : parent < tree.size) {outline : Outline}
    {rest : List Outline} (hfirst : Appended tree parent [outline] middle)
    (hrest : Appended middle parent rest after) : Appended tree parent (outline :: rest) after := by
  have hsize : middle.size = tree.size + outline.preorder.length := by
    simpa [preorderOf] using hfirst.size
  have hlt : ∀ node < tree.size, node < middle.size := fun node hnode =>
    Nat.lt_of_lt_of_le hnode (hsize ▸ Nat.le_add_right _ _)
  constructor
  · exact hrest.linked
  · rw [hrest.size, hsize, preorderOf, List.length_append, Nat.add_assoc]
  · intro node hnode
    rw [hrest.kind node (hlt node hnode), hfirst.kind node hnode]
  · intro node hnode
    rw [hrest.children node (hlt node hnode), hfirst.children node hnode, hsize]
    by_cases heq : node = parent <;> simp [heq, places]
  · rw [preorderOf, lays_append, ← hsize]
    refine ⟨?_, hrest.lays⟩
    have hlays : middle.Lays tree.size outline.preorder := by simpa [preorderOf] using hfirst.lays
    refine hlays.frame (fun node _ hnode => hrest.kind node (hsize ▸ hnode)) fun node hge hnode => ?_
    have hne : node ≠ parent := Nat.ne_of_gt (Nat.lt_of_lt_of_le hparent hge)
    rw [hrest.children node (hsize ▸ hnode), if_neg hne, List.append_nil]

end Appended

/-- How appending outlines to a parent comes out: it fails when a document is among them, and the tree is
as it should be otherwise. -/
inductive Appending (tree : Tree) (parent : NodeId) (outlines : List Outline) :
    Except LoadError Tree → Prop
  | failed (hnested : ∃ outline ∈ preorderOf outlines, outline.isDocument = true) :
      Appending tree parent outlines (.error .nestedDocument)
  | done {after : Tree} (hnone : ∀ outline ∈ preorderOf outlines, outline.isDocument = false)
      (happended : Appended tree parent outlines after) : Appending tree parent outlines (.ok after)

/-- The node of an outline is appended, and then its children below that node. -/
theorem Appending.grow {parent : NodeId} (hparent : parent < tree.size) {outline : Outline}
    (hdocument : outline.isDocument = false) {result : Except LoadError Tree}
    (h : Appending (tree.grow parent outline.kind).1 tree.size outline.children result) :
    Appending tree parent [outline] result := by
  have hpreorder : preorderOf [outline] = outline :: preorderOf outline.children := by
    rw [preorderOf, preorderOf, List.append_nil, outline.preorder_eq]
  cases h with
  | failed hnested =>
    obtain ⟨other, hother, hnested⟩ := hnested
    exact .failed ⟨other, by rw [hpreorder]; exact List.mem_cons_of_mem _ hother, hnested⟩
  | done hnone happended =>
    refine .done ?_ (.grow hparent happended)
    rw [hpreorder]
    exact List.forall_mem_cons.mpr ⟨hdocument, hnone⟩

/-- Behind an outline that is appended the others are appended to what it makes of the tree. -/
theorem Appending.cons {middle : Tree} {parent : NodeId} (hparent : parent < tree.size) {outline : Outline}
    {rest : List Outline} (hnone : ∀ other ∈ preorderOf [outline], other.isDocument = false)
    (hfirst : Appended tree parent [outline] middle) {result : Except LoadError Tree}
    (h : Appending middle parent rest result) : Appending tree parent (outline :: rest) result := by
  simp only [preorderOf, List.append_nil] at hnone
  cases h with
  | failed hnested =>
    obtain ⟨other, hother, hnested⟩ := hnested
    exact .failed ⟨other, List.mem_append_right _ hother, hnested⟩
  | done hothers happended =>
    exact .done (List.forall_mem_append.mpr ⟨hnone, hothers⟩) (hfirst.cons hparent happended)

/-- Growing keeps the links in agreement. -/
theorem Linked.grow (h : Linked tree) {parent : NodeId} (hparent : parent < tree.size) (kind : NodeKind) :
    Linked (tree.grow parent kind).1 := h.append hparent kind

end Tree

open TreeQuery.Tree

mutual

/-- How appending one outline comes out. -/
theorem Outline.appending : ∀ (outline : Outline) {tree : Tree} {parent : NodeId}, Linked tree →
    parent < tree.size → Appending tree parent [outline] (outline.appendTo tree parent)
  | .document children, _, _, _, _ => .failed ⟨.document children, List.mem_cons_self, rfl⟩
  | .element tag attributes children, tree, parent, h, hparent =>
    .grow hparent rfl (appending_outlines children (h.grow hparent _) (size_lt_size_grow _ _))
  | .text content, tree, parent, h, hparent =>
    .grow hparent rfl (.done (by simp [Outline.children, preorderOf]) (.nil (h.grow hparent _) _))
  | .comment content, tree, parent, h, hparent =>
    .grow hparent rfl (.done (by simp [Outline.children, preorderOf]) (.nil (h.grow hparent _) _))
termination_by structural outline => outline

/-- How appending outlines one behind the other comes out. -/
theorem appending_outlines : ∀ (outlines : List Outline) {tree : Tree} {parent : NodeId}, Linked tree →
    parent < tree.size → Appending tree parent outlines (appendOutlines tree parent outlines)
  | [], _, parent, h, _ => .done (by simp [preorderOf]) (.nil h parent)
  | outline :: rest, tree, parent, h, hparent => by
    have hfirst := outline.appending h hparent
    rw [appendOutlines]
    cases hresult : outline.appendTo tree parent with
    | error error =>
      rw [hresult] at hfirst
      cases hfirst with
      | failed hnested =>
        obtain ⟨other, hother, hnested⟩ := hnested
        rw [preorderOf, preorderOf, List.append_nil] at hother
        exact .failed ⟨other, List.mem_append_left _ hother, hnested⟩
    | ok middle =>
      rw [hresult] at hfirst
      cases hfirst with
      | done hnone happended =>
        have hmiddle : parent < middle.size :=
          Nat.lt_of_lt_of_le hparent (happended.size ▸ Nat.le_add_right _ _)
        exact .cons hparent hnone happended (appending_outlines rest happended.linked hmiddle)
termination_by structural outlines => outlines

end

/-- An outline with a document at its top: the outline itself if it has one there, and otherwise a fresh
document around it. -/
def Outline.asDocument : Outline → Outline
  | .document children => .document children
  | outline => .document [outline]

/-- Loading an outline appends what is below the document to a fresh one. -/
theorem Outline.appending_load (outline : Outline) :
    Appending .empty root outline.asDocument.children outline.load := by
  have hroot : root < Tree.empty.size := Nat.one_pos
  cases outline with
  | document children => exact appending_outlines children linked_empty hroot
  | element tag attributes children => exact appending _ linked_empty hroot
  | text content => exact appending _ linked_empty hroot
  | comment content => exact appending _ linked_empty hroot

/-- A document stands below the document that an outline is loaded as when it stands below the top of the
outline. -/
theorem Outline.nested_iff (outline : Outline) :
    (∃ other ∈ preorderOf outline.asDocument.children, other.isDocument = true) ↔
      ∃ other ∈ outline.preorder.tail, other.isDocument = true := by
  cases outline <;> simp [asDocument, children, preorderOf, preorder, isDocument]

namespace Tree

variable {tree : Tree} {start : NodeId}

/-- What holds of every outline at the place where it is laid out holds at the places of a list of them. -/
theorem Lays.forall₂ {motive : Outline → NodeId → Prop} {outlines : List Outline}
    (h : tree.Lays start (preorderOf outlines))
    (hall : ∀ outline ∈ outlines, ∀ place, tree.Lays place outline.preorder → motive outline place) :
    List.Forall₂ motive outlines (places start outlines) := by
  induction outlines generalizing start with
  | nil => exact .nil
  | cons outline rest ih =>
    obtain ⟨hfirst, hrest⟩ := lays_append.mp h
    obtain ⟨hhead, htail⟩ := List.forall_mem_cons.mp hall
    exact .cons (hhead start hfirst) (ih hrest htail)

/-- An outline that is laid out from a place on stands there. -/
theorem Lays.stands {outline : Outline} (h : tree.Lays start outline.preorder) : outline.Stands tree start := by
  induction outline using Outline.induction generalizing start with
  | step outline ih =>
    rw [outline.preorder_eq] at h
    obtain ⟨⟨hkind, hchildren⟩, hbelow⟩ := lays_cons.mp h
    refine .intro hkind ?_
    rw [hchildren]
    exact hbelow.forall₂ fun child hchild place => ih child hchild

/-- Stretches of places one behind the other are one stretch. -/
theorem flatMap_places {outlines : List Outline} {list : NodeId → List NodeId}
    (h : List.Forall₂ (fun outline place => list place = List.range' place outline.preorder.length) outlines
      (places start outlines)) :
    (places start outlines).flatMap list = List.range' start (preorderOf outlines).length := by
  induction outlines generalizing start with
  | nil => rfl
  | cons outline rest ih =>
    obtain ⟨hfirst, hrest⟩ := List.forall₂_cons.mp h
    rw [places, List.flatMap_cons, hfirst, ih hrest, preorderOf, List.length_append, List.range'_append_1]

/-- An outline that is laid out from a place on fills the places from there on in preorder. -/
theorem Lays.descendants_eq (hacyclic : tree.Acyclic) {outline : Outline}
    (h : tree.Lays start outline.preorder) :
    start :: hacyclic.descendants none start = List.range' start outline.preorder.length := by
  induction outline using Outline.induction generalizing start with
  | step outline ih =>
    rw [outline.preorder_eq] at h
    obtain ⟨⟨-, hchildren⟩, hbelow⟩ := lays_cons.mp h
    have hplaces : (places (start + 1) outline.children).flatMap
        (fun child => child :: hacyclic.descendants none child) = _ :=
      flatMap_places (hbelow.forall₂ fun child hchild place => ih child hchild)
    rw [hacyclic.descendants_eq, if_neg (by simp), Option.map_none, hchildren, hplaces, outline.preorder_eq,
      List.length_cons, List.range'_succ]

/-- Where the places of a node and the nodes below it go by preorder, document order is the order of the
places. -/
theorem WellFormed.before_iff_lt (h : tree.WellFormed) {count : Nat}
    (hplaces : start :: h.acyclic.descendants none start = List.range' 0 count) {left right : NodeId}
    (hleft : left < count) (hright : right < count) : tree.Before left right ↔ left < right := by
  have hpairwise := h.acyclic.pairwise_before_cons none start
  rw [hplaces, List.pairwise_iff_getElem] at hpairwise
  have hbefore : ∀ {first second}, first < second → second < count → tree.Before first second := by
    intro first second hlt hsecond
    have hsecond' : second < (List.range' 0 count).length := by rwa [List.length_range']
    have hpair := hpairwise first second (hlt.trans hsecond') hsecond' hlt
    rwa [List.getElem_range', List.getElem_range', Nat.zero_add, Nat.one_mul, Nat.zero_add, Nat.one_mul] at hpair
  refine ⟨fun hlr => ?_, fun hlt => hbefore hlt hright⟩
  rcases Nat.lt_trichotomy left right with hlt | rfl | hgt
  · exact hlt
  · exact absurd hlr (h.before_irrefl left)
  · exact absurd hlr (h.before_asymm (hbefore hgt hleft))

end Tree

/-- What a tree is that an outline is loaded as. -/
structure Outline.Loaded (outline : Outline) (tree : Tree) : Prop where
  linked : Linked tree
  reachable : ∀ node < tree.size, tree.Reaches root node
  size : tree.size = outline.asDocument.preorder.length
  /-- The nodes have their places in preorder. -/
  nodes : ∀ (node : NodeId) other, outline.asDocument.preorder[node]? = some other →
    tree.kind? node = some other.kind ∧ tree.children node = places (node + 1) other.children
  listing : ∀ run, (tree.nodesBy root .always none run).1 = List.range' 1 (tree.size - 1)
  order : ∀ left < tree.size, ∀ right < tree.size, (tree.Before left right ↔ left < right)
  stands : outline.asDocument.Stands tree root
  markup : tree.outerMarkup root = .ofList outline.markup

/-- The markup of the document that an outline is loaded as is that of the outline. -/
theorem Outline.markup_asDocument (outline : Outline) : outline.asDocument.markup = outline.markup := by
  cases outline <;> simp [asDocument, markup, markupOf]

/-- What is appended to a fresh document is laid out behind it. -/
theorem Outline.lays_of_appended {outline : Outline} {tree : Tree}
    (h : Appended .empty root outline.asDocument.children tree) :
    tree.Lays root outline.asDocument.preorder := by
  have hroot : root < Tree.empty.size := Nat.one_pos
  have hkind : outline.asDocument.kind = .document := by cases outline <;> rfl
  rw [outline.asDocument.preorder_eq]
  refine lays_cons.mpr ⟨⟨?_, ?_⟩, h.lays⟩
  · rw [h.kind root hroot, hkind]
    rfl
  · rw [h.children root hroot, if_pos rfl]
    rfl

/-- The arena is filled by what is appended to the fresh document and the document itself. -/
theorem Outline.size_of_appended {outline : Outline} {tree : Tree}
    (h : Appended .empty root outline.asDocument.children tree) :
    tree.size = outline.asDocument.preorder.length := by
  rw [h.size, outline.asDocument.preorder_eq, List.length_cons]
  exact Nat.add_comm _ _

/-- What is appended to a fresh document is what the outline is loaded as. -/
theorem Outline.loaded_of_appended {outline : Outline} {tree : Tree}
    (h : Appended .empty root outline.asDocument.children tree) : outline.Loaded tree := by
  have hlays := lays_of_appended h
  have hsize := size_of_appended h
  have hacyclic := h.linked.acyclic
  have hdescendants : root :: hacyclic.descendants none root = List.range' 0 tree.size := by
    rw [hsize]
    exact hlays.descendants_eq hacyclic
  constructor
  · exact h.linked
  · intro node hnode
    have hmem : node ∈ root :: hacyclic.descendants none root := by
      rw [hdescendants]
      simpa using hnode
    obtain ⟨count, path⟩ := hacyclic.exists_below_of_mem hmem
    exact path.reflTransGen
  · exact hsize
  · intro node other hnode
    simpa [root] using hlays node other hnode
  · intro run
    have hpos : tree.size = tree.size - 1 + 1 := (Nat.sub_add_cancel h.linked.root_lt).symm
    have hsplit : List.range' 0 tree.size = 0 :: List.range' 1 (tree.size - 1) :=
      (congrArg (List.range' 0) hpos).trans List.range'_succ
    rw [hsplit] at hdescendants
    rw [nodesBy_always hacyclic]
    exact (List.cons.inj hdescendants).2
  · exact fun left hleft right hright => h.linked.wellFormed.before_iff_lt hdescendants hleft hright
  · exact hlays.stands
  · rw [outerMarkup, hlays.stands.outerWithin_eq hacyclic, outline.markup_asDocument]

/-- Loading an outline fails exactly when a document stands below its top, and with these words. Otherwise
the outline is loaded as a tree of its nodes. -/
theorem Outline.load_outcome (outline : Outline) :
    ((∃ error, outline.load = .error error ∧
        error.message = "a document node can only appear at the top level") ↔
      ∃ other ∈ outline.preorder.tail, other.isDocument = true) ∧
    ((∀ other ∈ outline.preorder.tail, other.isDocument = false) →
      ∃ tree, outline.load = .ok tree ∧ outline.Loaded tree) := by
  have happending := outline.appending_load
  have hnested := outline.nested_iff
  cases hload : outline.load with
  | error error =>
    rw [hload] at happending
    cases happending with
    | failed hfound =>
      obtain ⟨other, hother, hdocument⟩ := hnested.mp hfound
      refine ⟨⟨fun _ => ⟨other, hother, hdocument⟩, fun _ => ⟨_, rfl, rfl⟩⟩, fun hnone => ?_⟩
      rw [hnone other hother] at hdocument
      contradiction
  | ok tree =>
    rw [hload] at happending
    cases happending with
    | done hnone happended =>
      refine ⟨⟨?_, ?_⟩, fun _ => ⟨tree, rfl, loaded_of_appended happended⟩⟩
      · intro hall
        obtain ⟨error, herror, -⟩ := hall
        cases herror
      · intro hall
        obtain ⟨other, hother, hdocument⟩ := hnested.mpr hall
        rw [hnone other hother] at hdocument
        contradiction

/-- A page of a paragraph with a text and a comment. -/
def page : Outline :=
  .document [.element "p" (.ofList [("class", "a")]) [.text "x<", .comment "y"]]

/-- The page is loaded, and written as it should be; below a paragraph it is not loaded. -/
theorem load_outcome_page : (∃ tree, page.load = .ok tree ∧
    (tree.nodesBy root .always none (.ofFlags [])).1 = [1, 2, 3] ∧
    tree.outerMarkup root = "<p class=\"a\">x&lt;<!--y--></p>") ∧
    ∃ error, (Outline.element "p" .empty [page]).load = .error error ∧
      error.message = "a document node can only appear at the top level" := by
  constructor
  · obtain ⟨tree, hload, hloaded⟩ := page.load_outcome.2 (by
      simp [page, Outline.preorder, preorderOf, Outline.isDocument])
    have hsize : tree.size = 4 := hloaded.size
    refine ⟨tree, hload, ?_, ?_⟩
    · rw [hloaded.listing, hsize]
      rfl
    · rw [hloaded.markup]
      rfl
  · refine (Outline.load_outcome _).1.mpr ⟨page, ?_, rfl⟩
    simp [page, Outline.preorder, preorderOf]

end TreeQuery
