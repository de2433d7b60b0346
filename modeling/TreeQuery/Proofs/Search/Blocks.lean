import TreeQuery.Proofs.Search.Sieve
import TreeQuery.Proofs.Tree.DocumentOrder

/-!
# Finds in blocks

The last part of a selector is searched for below every find of the parts before it, one after another.
So the finds of the selector come in blocks, one for each of these finds, or one below the root where
there is but one part. Inside a block the finds go by document order. Two blocks may lie in each other
where their starts do, and then nothing is said of the order of the two.

Main statement: the finds of a selector are its blocks, one behind the other, each a part of the nodes
below its start in preorder.
-/

namespace TreeQuery

variable {tree : Tree}

namespace Recursive

variable {own theirs : Nat → Prop}

/-- A search finds a part of a list, in its order, and leaves these flags as they were. -/
def FindsOf (own : Nat → Prop) (list : List NodeId) (act : Run → Trace) : Prop :=
  ∀ run, (act run).nodes.Sublist list ∧ Run.Alike own run (act run).last

/-- Searches one after another find parts of lists one behind the other. -/
theorem FindsOf.andThen {list list' : List NodeId} {act act' : Run → Trace} (h : FindsOf own list act)
    (h' : FindsOf own list' act') : FindsOf own (list ++ list') fun run => (act run).andThen act' := by
  intro run
  obtain ⟨hnodes, hlast⟩ := h run
  obtain ⟨hnodes', hlast'⟩ := h' (act run).last
  rw [Trace.nodes_andThen]
  exact ⟨hnodes.append hnodes', hlast.trans hlast'⟩

/-- Searches at one place after another find parts of the lists of the places. -/
theorem FindsOf.each {α : Type} {lists : α → List NodeId} {visit : α → Run → Trace} {places : List α}
    (h : ∀ place ∈ places, FindsOf own (lists place) (visit place)) :
    FindsOf own (places.flatMap lists) (Trace.each visit places) := by
  induction places with
  | nil => exact fun run => ⟨List.nil_sublist [], .refl own run⟩
  | cons place rest ih =>
    rw [List.flatMap_cons]
    have hrest := ih fun other hother => h other (List.mem_cons_of_mem place hother)
    exact (h place List.mem_cons_self).andThen hrest

/-- A walk finds some of the nodes below its start, down to its depth, in preorder. -/
theorem findsOf_descend (h : tree.Acyclic) {test : Test} (htest : test.Confined theirs)
    (hdisjoint : ∀ flag, theirs flag → ¬ own flag) (depth : Option Nat) (node : NodeId) :
    FindsOf own (h.descendants depth node) (descend h test .find depth node) := by
  induction node using h.wellFounded.induction generalizing depth with
  | h node ih =>
    rw [descend_eq, h.descendants_eq]
    split
    · exact fun run => ⟨List.nil_sublist [], .refl own run⟩
    · refine .each fun child hchild => ?_
      -- a child is found at most once, before anything below it
      have hhere : FindsOf own [child] fun run =>
          if (test child run).1 then .find child (test child run).2 else .done (test child run).2 := by
        intro run
        have hframe := (htest child).alike_of_disjoint hdisjoint run
        beta_reduce
        cases (test child run).1 with
        | false => exact ⟨List.nil_sublist [child], hframe⟩
        | true => exact ⟨List.Sublist.refl _, hframe⟩
      exact hhere.andThen (ih child hchild _)

/-- Finds that are blocks one behind the other, one for each start: some of the nodes below the start,
down to a depth, in preorder. -/
def Blocks (h : tree.Acyclic) (depth : Option Nat) (starts finds : List NodeId) : Prop :=
  ∃ blocks : List (List NodeId), finds = blocks.flatten ∧
    List.Forall₂ (fun start block => block.Sublist (h.descendants depth start)) starts blocks

/-- Blocks go on from one search to the next. -/
theorem joins_blocks (h : tree.Acyclic) (depth : Option Nat) :
    Joins theirs fun starts _ finds _ => Blocks h depth starts finds where
  done := fun _ => ⟨[], rfl, .nil⟩
  append := by
    intro starts _ finds _ more finds' _ hblocks hblocks'
    obtain ⟨blocks, rfl, hstarts⟩ := hblocks
    obtain ⟨blocks', rfl, hstarts'⟩ := hblocks'
    exact ⟨blocks ++ blocks', List.flatten_append.symm, List.rel_append hstarts hstarts'⟩
  before := fun _ hblocks => hblocks

/-- A search with one stage more finds a block for every find of the search without it. -/
theorem coupled_blocks (h : tree.Acyclic) (hdisjoint : ∀ flag, own flag → ¬ theirs flag)
    {stages : List Stage} (hstages : ∀ stage ∈ stages, stage.test.Confined own) (last : Stage)
    (hlast : last.test.Confined theirs) (node : NodeId) :
    Coupled own (fun starts _ finds _ => Blocks h last.depth starts finds) (search h stages node)
      (search h (stages ++ [last]) node) := by
  have hlead := search_append h stages []
  rw [List.append_nil] at hlead
  have hjoins : Joins theirs fun starts _ finds _ => Blocks h last.depth starts finds :=
    joins_blocks h last.depth
  rw [search_append, hlead]
  refine .searchThen h hjoins hdisjoint hstages (fun start => ?_) node
  intro left right halike
  have hback : ∀ flag, theirs flag → ¬ own flag := fun flag htheirs hown => hdisjoint flag hown htheirs
  obtain ⟨hnodes, hframe⟩ := findsOf_descend h hlast hback last.depth start right
  exact ⟨⟨[_], List.flatten_singleton.symm, .cons hnodes .nil⟩, halike.trans hframe⟩

end Recursive

namespace Selector

/-- The part whose matches are found. -/
def last (selector : Selector) : Part := selector.rest.getLastD selector.head

/-- The nodes below which the last part is searched for: what the parts before it find, or the root
where there is no other. -/
def starts (selector : Selector) (tree : Tree) (root : NodeId) : List NodeId :=
  if selector.rest.isEmpty then [root]
  else (Selector.findAll ⟨selector.head, selector.rest.dropLast⟩ tree root).1

@[simp] theorem last_single (head : Part) : Selector.last ⟨head, []⟩ = head := rfl

@[simp] theorem last_concat (head : Part) (rest : List Part) (part : Part) :
    Selector.last ⟨head, rest ++ [part]⟩ = part := by
  simp [last, List.getLastD_eq_getLast?]

@[simp] theorem starts_single (head : Part) (tree : Tree) (root : NodeId) :
    Selector.starts ⟨head, []⟩ tree root = [root] := rfl

@[simp] theorem starts_concat (head : Part) (rest : List Part) (part : Part) (tree : Tree) (root : NodeId) :
    Selector.starts ⟨head, rest ++ [part]⟩ tree root = (Selector.findAll ⟨head, rest⟩ tree root).1 := by
  simp [starts]

/-- The finds of a selector are blocks, one for each start. -/
theorem blocks_findAll (h : tree.Acyclic) (selector : Selector) (root : NodeId) :
    Recursive.Blocks h selector.last.depth (selector.starts tree root) (selector.findAll tree root).1 := by
  obtain ⟨head, rest⟩ := selector
  rcases rest.eq_nil_or_concat with rfl | ⟨rest, part, rfl⟩
  · obtain ⟨depth, predicate⟩ := head
    have hfinds : Recursive.FindsOf (fun _ => False) _ _ :=
      Recursive.findsOf_descend h (predicate.confined_test tree 0) (fun _ _ => not_false) depth root
    obtain ⟨hnodes, -⟩ := hfinds (Selector.freshRun ⟨⟨depth, predicate⟩, []⟩)
    rw [starts_single, Recursive.findAll_eq h]
    refine ⟨[_], List.flatten_singleton.symm, .cons ?_ .nil⟩
    simpa [Recursive.select, Recursive.stages, Recursive.stagesOf, Recursive.stage, Recursive.test_eq,
      Recursive.search] using hnodes
  · rw [List.concat_eq_append, last_concat, starts_concat]
    obtain ⟨depth, predicate⟩ := part
    have hflags : Selector.flags ⟨head, rest ++ [⟨depth, predicate⟩]⟩ =
        Selector.flags ⟨head, rest⟩ ++ predicate.flags := by
      simp only [Selector.flags, flagsOfParts_append, flagsOfParts, Part.flags, List.append_nil,
        List.append_assoc]
    have hstages := Selector.confined_stages tree 0 ⟨head, rest⟩
    rw [← Recursive.stages_eq h] at hstages
    have hlast := predicate.confined_test tree (Selector.flags ⟨head, rest⟩).length
    -- the last part adds flags behind those of the parts before it, which stay where they are
    have halike : Run.Alike (Stretch 0 (Selector.flags ⟨head, rest⟩).length)
        (Selector.freshRun ⟨head, rest⟩) (Selector.freshRun ⟨head, rest ++ [⟨depth, predicate⟩]⟩) := by
      rw [freshRun, freshRun, hflags]
      exact Run.alike_ofFlags_append _ _
    have hcoupled := Recursive.coupled_blocks h (fun _ hown => hown.not_behind _) hstages ⟨depth, _⟩
      hlast root
    have hparts : Selector.parts ⟨head, rest ++ [⟨depth, predicate⟩]⟩ =
        Selector.parts ⟨head, rest⟩ ++ [⟨depth, predicate⟩] := rfl
    rw [Recursive.findAll_eq h, Recursive.findAll_eq h, Recursive.select, Recursive.select,
      Recursive.stages_eq_concat h hparts, ← Recursive.stages_eq_stagesOf, ← Selector.flags_eq]
    exact (hcoupled _ _ halike).1

end Selector

end TreeQuery
