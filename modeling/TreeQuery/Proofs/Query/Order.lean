import TreeQuery.Proofs.Query.Restriction
import TreeQuery.Proofs.Search.Blocks

/-!
# The order of the finds

The blocks that the finds of a selector come in go by document order, each by itself. The whole list does
so exactly if no node of a block has its place before a node of an earlier block. That depends on the tree
where a selector has several parts: the matches of the parts before the last may lie in each other, and
then the block of the upper one may go on behind nodes that the block of the lower one begins with.

Main statement: the finds of a text in blocks, and when they go by document order as a whole. They do for
every tree if all parts but the last lead to children only, and so for a text of a single part.
-/

namespace TreeQuery

variable {tree : Tree}

/-- Nodes whose places below a root never decrease along the list. -/
def Tree.Acyclic.InOrder (h : tree.Acyclic) (root : NodeId) (nodes : List NodeId) : Prop :=
  nodes.Pairwise fun left right => ¬ h.Precedes root right left

/-- Every member of the second of two lists that correspond has a partner in the first. -/
theorem exists_mem_of_forall₂ {α β : Type} {relation : α → β → Prop} {first : List α} {second : List β}
    (h : List.Forall₂ relation first second) {right : β} (hright : right ∈ second) :
    ∃ left ∈ first, relation left right := by
  induction h with
  | nil => cases hright
  | cons hhere _ ih =>
    rcases List.mem_cons.mp hright with rfl | hright
    · exact ⟨_, List.mem_cons_self, hhere⟩
    · obtain ⟨left, hleft, hrelation⟩ := ih hright
      exact ⟨left, List.mem_cons_of_mem _ hleft, hrelation⟩

namespace Recursive.Blocks

variable {h : tree.Acyclic} {depth : Option Nat} {starts finds : List NodeId}

/-- Every find of a block lies below a start, within the depth. -/
theorem exists_within (hblocks : Blocks h depth starts finds) {node : NodeId} (hnode : node ∈ finds) :
    ∃ start ∈ starts, tree.Within depth start node := by
  obtain ⟨blocks, rfl, hall⟩ := hblocks
  obtain ⟨block, hblock, hmem⟩ := List.mem_flatten.mp hnode
  obtain ⟨start, hstart, hsublist⟩ := exists_mem_of_forall₂ hall hblock
  exact ⟨start, hstart, h.mem_descendants.mp (hsublist.subset hmem)⟩

/-- The finds go by document order if their starts do and none of these lies in a later one's way, at or
below an earlier one. -/
theorem pairwise_before (hblocks : Blocks h depth starts finds)
    (hstarts : starts.Pairwise fun left right => tree.Before left right ∧ ¬ tree.Reaches left right) :
    finds.Pairwise tree.Before := by
  obtain ⟨blocks, rfl, hall⟩ := hblocks
  refine List.pairwise_flatten.mpr ⟨fun block hblock => ?_, ?_⟩
  · obtain ⟨start, -, hsublist⟩ := exists_mem_of_forall₂ hall hblock
    exact (h.pairwise_before depth start).sublist hsublist
  · have hreaches : ∀ {start node block}, List.Sublist block (h.descendants depth start) → node ∈ block →
        tree.Reaches start node := by
      intro start node block hsublist hnode
      obtain ⟨count, -, -, path⟩ := h.mem_descendants.mp (hsublist.subset hnode)
      exact path.reflTransGen
    induction hall with
    | nil => exact List.Pairwise.nil
    | cons hhere hrest ih =>
      obtain ⟨hapart, hlater⟩ := List.pairwise_cons.mp hstarts
      refine List.pairwise_cons.mpr ⟨fun block hblock left hleft right hright => ?_, ih hlater⟩
      obtain ⟨start, hstart, hsublist⟩ := exists_mem_of_forall₂ hrest hblock
      -- the starts lie at or below two children of one node, and so does what lies below them
      rcases hapart start hstart with ⟨hway | ⟨parent, one, other, hstands, hone, hother⟩, hnot⟩
      · exact absurd hway.to_reflTransGen hnot
      · exact Or.inr ⟨parent, one, other, hstands, (hreaches hhere hleft).trans hone,
          (hreaches hsublist hright).trans hother⟩

end Recursive.Blocks

namespace Selector

/-- What a selector finds lies below the root. -/
theorem transGen_of_mem_findAll (h : tree.Acyclic) (selector : Selector) {root node : NodeId}
    (hnode : node ∈ (selector.findAll tree root).1) : Relation.TransGen tree.IsChild node root := by
  obtain ⟨head, rest⟩ := selector
  -- by the number of parts, from the last one on: it finds below what the parts before it find
  induction rest using List.reverseRecOn generalizing node with
  | nil =>
    obtain ⟨start, hstart, count, hpos, -, path⟩ := (blocks_findAll h _ root).exists_within hnode
    obtain rfl := List.mem_singleton.mp hstart
    exact Tree.transGen_iff_below.mpr ⟨count, hpos, path⟩
  | append_singleton rest part ih =>
    obtain ⟨start, hstart, count, hpos, -, path⟩ := (blocks_findAll h _ root).exists_within hnode
    rw [starts_concat] at hstart
    exact (Tree.transGen_iff_below.mpr ⟨count, hpos, path⟩).trans (ih hstart)

end Selector

namespace Tree.WellFormed

/-- Nodes in document order that lie equally deep below a root do not lie in each other. -/
theorem pairwise_not_reaches (h : tree.WellFormed) {count : Nat} {root : NodeId} {nodes : List NodeId}
    (hnodes : ∀ node ∈ nodes, tree.Below count root node) (hbefore : nodes.Pairwise tree.Before) :
    nodes.Pairwise fun left right => tree.Before left right ∧ ¬ tree.Reaches left right := by
  refine hbefore.imp_of_mem fun hleft hright hlr => ⟨hlr, fun hreaches => ?_⟩
  rcases Relation.reflTransGen_iff_eq_or_transGen.mp hreaches with rfl | hway
  · exact h.before_irrefl _ hlr
  · -- both lie equally deep, so the way between them has no step
    obtain ⟨more, hpos, path⟩ := transGen_iff_below.mp hway
    have hcycle := h.below_of_below (hnodes _ hright) ((hnodes _ hleft).trans path)
    exact Nat.ne_of_gt hpos (h.acyclic.eq_zero_of_below hcycle)

end Tree.WellFormed

namespace Selector

/-- A selector that leads to children only finds nodes that lie as deep as it has parts, in document
order. -/
theorem findAll_children (h : tree.WellFormed) (root : NodeId) (head : Part) (rest : List Part)
    (hdepth : ∀ part ∈ head :: rest, part.depth = some 1) :
    (∀ node ∈ (Selector.findAll ⟨head, rest⟩ tree root).1, tree.Below (rest.length + 1) root node) ∧
      (Selector.findAll ⟨head, rest⟩ tree root).1.Pairwise tree.Before := by
  have hone : ∀ {start node}, tree.Within (some 1) start node → tree.Below 1 start node := by
    rintro start node ⟨count, hpos, hbound, path⟩
    obtain rfl : count = 1 := Nat.le_antisymm (hbound 1 rfl) hpos
    exact path
  induction rest using List.reverseRecOn with
  | nil =>
    have hblocks := blocks_findAll h.acyclic ⟨head, []⟩ root
    rw [last_single, starts_single, hdepth head List.mem_cons_self] at hblocks
    refine ⟨fun node hnode => ?_, hblocks.pairwise_before (List.pairwise_singleton _ _)⟩
    obtain ⟨start, hstart, hwithin⟩ := hblocks.exists_within hnode
    obtain rfl := List.mem_singleton.mp hstart
    exact hone hwithin
  | append_singleton rest part ih =>
    obtain ⟨hlevel, hbefore⟩ := ih fun other hother => hdepth other (List.mem_append_left [part] hother)
    have hblocks := blocks_findAll h.acyclic ⟨head, rest ++ [part]⟩ root
    rw [last_concat, starts_concat, hdepth part (by simp)] at hblocks
    refine ⟨fun node hnode => ?_, hblocks.pairwise_before (h.pairwise_not_reaches hlevel hbefore)⟩
    obtain ⟨start, hstart, hwithin⟩ := hblocks.exists_within hnode
    rw [List.length_append, List.length_singleton]
    exact (hlevel start hstart).trans (hone hwithin)

/-- Where all parts but the last lead to children only, the starts go by document order, and none of
them lies at or below an earlier one. -/
theorem pairwise_starts (h : tree.WellFormed) (root : NodeId) (selector : Selector)
    (hdepth : ∀ part ∈ selector.parts.dropLast, part.depth = some 1) :
    (selector.starts tree root).Pairwise fun left right =>
      tree.Before left right ∧ ¬ tree.Reaches left right := by
  obtain ⟨head, rest⟩ := selector
  rcases rest.eq_nil_or_concat with rfl | ⟨rest, part, rfl⟩
  · exact List.pairwise_singleton _ _
  · rw [List.concat_eq_append] at hdepth ⊢
    have hparts : Selector.parts ⟨head, rest ++ [part]⟩ = (head :: rest) ++ [part] := rfl
    rw [hparts, List.dropLast_concat] at hdepth
    obtain ⟨hlevel, hbefore⟩ := findAll_children h root head rest hdepth
    rw [starts_concat]
    exact h.pairwise_not_reaches hlevel hbefore

end Selector

section

variable {text : String} {selector : Selector}

/-- The finds of a text come in blocks, one below every start: the finds of all parts but the last, or the
root where there is but one part. Every block goes by document order, without a repetition. The whole list
does, with repetitions, exactly if no node of a block has its place before a node of an earlier block. It
does without repetitions if the starts do and none lies below an earlier one, and so in every tree if all
parts but the last lead to children only. -/
theorem found_blocks (h : tree.WellFormed) (hcompiled : compiled text = .ok selector) (root : NodeId) :
    ∃ (found : List NodeId) (blocks : List (List NodeId)), tree.found root text = .ok found ∧
      found = blocks.flatten ∧
      List.Forall₂ (fun start block => block.Sublist (h.acyclic.descendants selector.last.depth start))
        (selector.starts tree root) blocks ∧
      (∀ block ∈ blocks, block.Pairwise (h.acyclic.Precedes root)) ∧
      (h.acyclic.InOrder root found ↔ blocks.Pairwise fun earlier later =>
        ∀ left ∈ earlier, ∀ right ∈ later, ¬ h.acyclic.Precedes root right left) ∧
      (((selector.starts tree root).Pairwise fun left right =>
          tree.Before left right ∧ ¬ tree.Reaches left right) →
        found.Pairwise (h.acyclic.Precedes root)) ∧
      ((∀ part ∈ selector.parts.dropLast, part.depth = some 1) →
        found.Pairwise (h.acyclic.Precedes root)) := by
  have hall := selector.blocks_findAll h.acyclic root
  have hplaces : ∀ {nodes : List NodeId}, nodes ⊆ (selector.findAll tree root).1 →
      nodes.Pairwise tree.Before → nodes.Pairwise (h.acyclic.Precedes root) := by
    intro nodes hfinds hbefore
    have hbelow : ∀ {node}, node ∈ nodes → node ∈ h.acyclic.descendants none root := fun hnode =>
      h.acyclic.mem_descendants_none.mpr (selector.transGen_of_mem_findAll h.acyclic (hfinds hnode))
    exact hbefore.imp_of_mem fun hleft hright =>
      (h.precedes_iff_before (hbelow hleft) (hbelow hright)).mpr
  have hstrict : ((selector.starts tree root).Pairwise fun left right =>
      tree.Before left right ∧ ¬ tree.Reaches left right) →
      (selector.findAll tree root).1.Pairwise (h.acyclic.Precedes root) :=
    fun hstarts => hplaces (List.Subset.refl _) (hall.pairwise_before hstarts)
  obtain ⟨blocks, hfound, hstarts⟩ := hall
  have hblocks : ∀ block ∈ blocks, block.Pairwise (h.acyclic.Precedes root) := by
    intro block hblock
    obtain ⟨start, -, hsublist⟩ := exists_mem_of_forall₂ hstarts hblock
    have hpart : block ⊆ (selector.findAll tree root).1 := fun node hnode =>
      hfound ▸ List.mem_flatten_of_mem hblock hnode
    exact hplaces hpart ((h.acyclic.pairwise_before _ start).sublist hsublist)
  refine ⟨_, blocks, Tree.found_eq hcompiled tree root, hfound, hstarts, hblocks, ?_, hstrict,
    fun hdepth => hstrict (selector.pairwise_starts h root hdepth)⟩
  rw [hfound, Tree.Acyclic.InOrder, List.pairwise_flatten]
  exact and_iff_right fun block hblock => (hblocks block hblock).imp Nat.lt_asymm

/-- A document whose first child has two children, the first of which has one itself. -/
def forked : Tree :=
  ⟨#[⟨.document, none, [1], none, none⟩, ⟨.element "a" .empty, some 0, [2, 4], none, none⟩,
    ⟨.element "b" .empty, some 1, [3], some 4, none⟩, ⟨.element "c" .empty, some 2, [], none, none⟩,
    ⟨.element "d" .empty, some 1, [], none, some 2⟩]⟩

theorem wellFormed_forked : forked.WellFormed :=
  Tree.wellFormed_of_ascending (by decide) (by decide) (by decide)

/-- The nodes below the children of others. -/
def grandchildren : Selector := ⟨⟨some 1, .always⟩, [⟨none, .always⟩]⟩

/-- A star among the children and a star below compile to that. -/
theorem compiled_grandchildren : compiled "> * *" = .ok grandchildren := by
  have htrimmed : Text.Trimmed "> * *".toList := ⟨by simp; decide, by simp; decide⟩
  have hspace : ∀ c ∈ [' '], Text.isAsciiBlank c = true := by simp; decide
  have hstar : ∀ c ∈ ['*', ' ', '*'].head?, Text.isAsciiBlank c = false := by simp; decide
  have hfirst : Grammar.Compound Grammar.Denotes "> * *".toList ⟨some 1, .always⟩ ([' '] ++ ['*']) :=
    .child hspace hstar (.any (.done [' ', '*'])) (by simp)
  have hsecond : Grammar.Compound Grammar.Denotes ['*'] ⟨none, .always⟩ [] :=
    .plain (.any (.done [])) (List.cons_ne_nil _ _)
  exact compiled_eq_ok_iff.mpr ((Grammar.denotes_iff_of_trimmed htrimmed).mpr
    (.blanks hfirst (List.cons_ne_nil _ _) hspace (.last hsecond)))

/-- Below its first child the fork is found once, in document order. Below all nodes the first branch of
the fork is searched again behind its second branch. -/
theorem findAll_forked (h : forked.Acyclic) :
    (grandchildren.findAll forked 0).1 = [2, 3, 4] ∧ (lower.findAll forked 0).1 = [2, 3, 4, 3] := by
  have hroot : forked.children 0 = [1] := rfl
  have hfirst : forked.children 1 = [2, 4] := rfl
  have hsecond : forked.children 2 = [3] := rfl
  have hthird : forked.children 3 = [] := rfl
  have hleaf : forked.children 4 = [] := rfl
  rw [Recursive.findAll_eq h, Recursive.findAll_eq h]
  constructor <;>
    simp [Recursive.select, Recursive.stages, Recursive.stagesOf, Recursive.stage, Recursive.search,
      Recursive.descend_eq, Recursive.visit, Recursive.test, grandchildren, lower, hroot, hfirst, hsecond,
      hthird, hleaf, Trace.each, Trace.andThen, Trace.done, Trace.find, Trace.nodes]

/-- Below the children of a node the finds go by document order. -/
theorem found_blocks_grandchildren :
    compiled "> * *" = .ok grandchildren ∧ forked.found 0 "> * *" = .ok [2, 3, 4] ∧
      [2, 3, 4].Pairwise (wellFormed_forked.acyclic.Precedes 0) := by
  obtain ⟨found, blocks, hfound, -, -, -, -, -, hstrict⟩ :=
    found_blocks wellFormed_forked compiled_grandchildren 0
  have hfinds : forked.found 0 "> * *" = .ok [2, 3, 4] := by
    rw [Tree.found_eq compiled_grandchildren, (findAll_forked wellFormed_forked.acyclic).1]
  obtain rfl := Except.ok.inj (hfound.symm.trans hfinds)
  exact ⟨compiled_grandchildren, hfinds, hstrict (by decide)⟩

/-- Not every text finds nodes in document order. -/
theorem exists_not_inOrder : ¬ ∀ (tree : Tree) (h : tree.WellFormed) (root : NodeId) (text : String)
    (found : List NodeId), tree.found root text = .ok found → h.acyclic.InOrder root found := by
  intro hall
  have h := wellFormed_forked
  have hfound : forked.found 0 "* *" = .ok [2, 3, 4, 3] := by
    rw [Tree.found_eq compiled_lower, (findAll_forked h.acyclic).2]
  -- the last find lies below a branch that stands before the find in front of it
  have hlast : ¬ h.acyclic.Precedes 0 3 4 :=
    List.pairwise_iff_getElem.mp (hall forked h 0 "* *" _ hfound) 2 3 (by decide) (by decide) (by decide)
  have hroot : forked.IsChild 1 0 := List.mem_singleton_self 1
  have hfirst : forked.IsChild 2 1 := List.mem_cons_self
  have hsecond : forked.IsChild 4 1 := List.mem_cons_of_mem 2 (List.mem_singleton_self 4)
  have hlower : forked.IsChild 3 2 := List.mem_singleton_self 3
  have hbefore : forked.Before 3 4 := Or.inr ⟨1, 2, 4, ⟨0, 1, Nat.one_pos, rfl, rfl⟩, .single hlower, .refl 4⟩
  refine hlast ((h.precedes_iff_before ?_ ?_).mpr hbefore)
  · exact h.acyclic.mem_descendants_none.mpr (.head hlower (.head hfirst (.single hroot)))
  · exact h.acyclic.mem_descendants_none.mpr (.head hsecond (.single hroot))

end

end TreeQuery
