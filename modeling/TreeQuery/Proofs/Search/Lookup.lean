import TreeQuery.Proofs.Search.Chains
import TreeQuery.Proofs.Tree.DocumentOrder
import TreeQuery.Proofs.Tree.Edits
import TreeQuery.Search.Lookup

/-!
# What lookups find

A lookup goes down along the lists of children, and the ancestors of a node go up along the parents. In a
tree that fresh calls have put together both ways tell the same story: a lookup without `first` finds the
nodes of which its predicate holds and whose ancestors lead up to the start within the level, each of
them once and in document order.

Main statement: the finds of a lookup said by the ancestors of nodes, at every level.
-/

namespace TreeQuery

namespace Recursive

variable {tree : Tree}

/-- Collecting what is left of a walk gives the finds of its trace. -/
theorem walk_collect_eq (h : tree.Acyclic) (test : Test) (walk : Walk) (run : Run) :
    (walk.collect tree test run).1 = (ofWalk h test Trace.find walk run).nodes := by
  fun_induction Walk.collect tree test walk run with
  | case1 walk run run' hnext =>
    rw [ofWalk_next, hnext]
    rfl
  | case2 walk run node after run' hnext nodes last hcollect ih =>
    rw [ofWalk_next, hnext]
    rw [hcollect] at ih
    simp only [Trace.find_andThen, Trace.nodes, List.map_cons]
    exact congrArg (node :: ·) ih

/-- A lookup finds what going down with its test finds. -/
theorem nodesBy_eq (h : tree.Acyclic) (start : NodeId) (predicate : Predicate) (depth : Option Nat)
    (run : Run) :
    (tree.nodesBy start predicate depth run).1 =
      (descend h (test h 0 predicate) Trace.find depth start run).nodes := by
  rw [Tree.nodesBy, walk_collect_eq h, ofWalk_start, test_eq h]

end Recursive

/-- A part of a list without repetitions is the filter of the list by what tells its members apart. -/
theorem eq_filter_of_sublist {α : Type} {list part : List α} {p : α → Bool} (hnodup : list.Nodup)
    (hsub : part.Sublist list) (hmem : ∀ a ∈ list, a ∈ part ↔ p a = true) : part = list.filter p := by
  have hpart : part.filter p = part := List.filter_eq_self.mpr fun a ha => (hmem a (hsub.mem ha)).mp ha
  have hperm : part.Perm (list.filter p) := by
    refine (List.perm_ext_iff_of_nodup (hnodup.sublist hsub) (hnodup.filter p)).mpr fun a => ?_
    rw [List.mem_filter]
    exact ⟨fun ha => ⟨hsub.mem ha, (hmem a (hsub.mem ha)).mp ha⟩, fun ha => (hmem a ha.1).mpr ha.2⟩
  have hfilter := hsub.filter p
  rw [hpart] at hfilter
  exact hfilter.eq_of_length hperm.length_eq

namespace Tree

variable {tree : Tree} {predicate : Predicate}

/-- Without `first` a lookup finds the descendants of which its predicate holds. -/
theorem nodesBy_eq_filter (h : tree.Acyclic) (hflags : predicate.flags = []) (start : NodeId)
    (depth : Option Nat) (run : Run) :
    (tree.nodesBy start predicate depth run).1 =
      (h.descendants depth start).filter (predicate.passes tree) := by
  have htest : ∀ node run, (Recursive.test h 0 predicate node run).1 = predicate.passes tree node := by
    intro node run
    rw [Bool.eq_iff_iff, Recursive.test_iff_holds h 0 predicate hflags, Predicate.passes_iff]
  have hfound : ∀ node run, (Trace.find node run).nodes = [node] := fun _ _ => rfl
  rw [Recursive.nodesBy_eq h, Recursive.nodes_descend h htest hfound, List.flatMap_singleton']

/-- Looking for the first find only gives the head of all finds. -/
theorem firstNodeBy_eq_head? (tree : Tree) (start : NodeId) (predicate : Predicate) (depth : Option Nat)
    (run : Run) : (tree.firstNodeBy start predicate depth run).1 =
      (tree.nodesBy start predicate depth run).1.head? := by
  rw [firstNodeBy, nodesBy, Walk.collect_eq]
  rcases (Walk.start tree start depth).next tree (predicate.test tree 0) run with ⟨_ | ⟨node, after⟩, run'⟩ <;>
    rfl

/-- Looking for anything finds the descendants. -/
theorem nodesBy_always (h : tree.Acyclic) (start : NodeId) (depth : Option Nat) (run : Run) :
    (tree.nodesBy start .always depth run).1 = h.descendants depth start := by
  have hflags : Predicate.always.flags = [] := rfl
  rw [nodesBy_eq_filter h hflags, List.filter_eq_self.mpr (by simp [Predicate.Holds])]

namespace Linked

/-- A node lies within a level below another when the other one is among its ancestors, up to the place
that the level allows. -/
theorem within_iff_ancestors (h : Linked tree) {depth : Option Nat} {start node : NodeId} :
    tree.Within depth start node ↔ ∃ position : Nat, (tree.ancestors node)[position]? = some start ∧
      ∀ bound ∈ depth, position + 1 ≤ bound := by
  simp only [h.getElem?_ancestors_iff]
  constructor
  · intro hall
    obtain ⟨count, hpos, hbound, path⟩ := hall
    obtain ⟨position, rfl⟩ := Nat.exists_eq_add_of_le' hpos
    exact ⟨position, path, hbound⟩
  · intro hall
    obtain ⟨position, path, hbound⟩ := hall
    exact ⟨position + 1, Nat.succ_pos position, hbound, path⟩

/-- Of the nodes below a start those within a level are the ones that have it early enough among their
ancestors. -/
theorem descendants_some_eq (h : Linked tree) (bound : Nat) (start : NodeId) :
    h.acyclic.descendants (some bound) start =
      (h.acyclic.descendants none start).filter fun node =>
        (tree.ancestors node).idxOf start + 1 ≤ bound := by
  refine eq_filter_of_sublist (h.wellFormed.nodup_descendants start)
    (h.acyclic.descendants_sublist (some bound) start) fun node hnode => ?_
  rw [h.acyclic.mem_descendants, h.within_iff_ancestors] at hnode
  obtain ⟨position, hposition, -⟩ := hnode
  rw [h.acyclic.mem_descendants, h.within_iff_ancestors, h.idxOf_ancestors hposition, decide_eq_true_eq]
  constructor
  · intro hall
    obtain ⟨other, hother, hbound⟩ := hall
    rw [← h.idxOf_ancestors hposition, h.idxOf_ancestors hother]
    exact hbound bound rfl
  · intro hle
    refine ⟨position, hposition, fun other hother => ?_⟩
    rwa [← Option.mem_some_iff.mp hother]

end Linked

/-- In a tree that fresh calls have put together a lookup without `first` finds each node once, in document
order, and finds those of which its predicate holds and that have the start among their ancestors, at a
place within the level. Looking for anything at any level finds the descendants of the start. A level
keeps, of what is found without one, the nodes whose distance from the start is no more than that, and so
finds a part of what every lower level finds. -/
theorem nodesBy_iff_ancestors (h : ReachedBy Edit.Fresh tree) (hflags : predicate.flags = [])
    (start : NodeId) (run : Run) :
    (∀ depth, (tree.nodesBy start predicate depth run).1.Nodup ∧
      (tree.nodesBy start predicate depth run).1.Pairwise tree.Before ∧
      ∀ node, node ∈ (tree.nodesBy start predicate depth run).1 ↔
        predicate.Holds tree node ∧ ∃ position : Nat, (tree.ancestors node)[position]? = some start ∧
          ∀ bound ∈ depth, position + 1 ≤ bound) ∧
    (∀ node, node ∈ (tree.nodesBy start .always none run).1 ↔ tree.isDescendantOf node start = true) ∧
    (∀ bound, (tree.nodesBy start predicate (some bound) run).1 =
      (tree.nodesBy start predicate none run).1.filter fun node =>
        (tree.ancestors node).idxOf start + 1 ≤ bound) ∧
    ∀ bound more, bound ≤ more → (tree.nodesBy start predicate (some bound) run).1.Sublist
      (tree.nodesBy start predicate (some more) run).1 := by
  have hlinked := h.linked
  have hacyclic := hlinked.acyclic
  have hfilter : ∀ bound, (tree.nodesBy start predicate (some bound) run).1 =
      (tree.nodesBy start predicate none run).1.filter fun node =>
        (tree.ancestors node).idxOf start + 1 ≤ bound := by
    intro bound
    rw [nodesBy_eq_filter hacyclic hflags, nodesBy_eq_filter hacyclic hflags,
      hlinked.descendants_some_eq, List.filter_comm]
  refine ⟨fun depth => ?_, fun node => ?_, hfilter, fun bound more hle => ?_⟩
  · rw [nodesBy_eq_filter hacyclic hflags]
    have hnodup := (hlinked.wellFormed.nodup_descendants start).sublist
      (hacyclic.descendants_sublist depth start)
    refine ⟨hnodup.filter _, (hacyclic.pairwise_before depth start).sublist List.filter_sublist, ?_⟩
    intro node
    rw [List.mem_filter, Predicate.passes_iff, hacyclic.mem_descendants, hlinked.within_iff_ancestors,
      and_comm]
  · rw [nodesBy_always hacyclic, hacyclic.mem_descendants, hlinked.within_iff_ancestors, isDescendantOf,
      List.contains_iff_mem, List.mem_iff_getElem?]
    simp
  · rw [hfilter, hfilter more]
    exact List.monotone_filter_right _ fun node hnode => by
      simp only [decide_eq_true_eq] at hnode ⊢
      omega

/-- An item that is put together before its list is found behind it. Two levels below the document take in
the item but not its text, which has the document for its third ancestor. -/
theorem nodesBy_iff_ancestors_item : ∃ tree, ReachedBy Edit.Fresh tree ∧
    (tree.nodesBy root .always none (.ofFlags [])).1 = [3, 1, 2] ∧
    (tree.nodesBy root .always (some 2) (.ofFlags [])).1 = [3, 1] ∧ tree.ancestors 2 = [1, 3, 0] ∧
    tree.isDescendantOf 2 root = true := by
  have hflags : Predicate.always.flags = [] := rfl
  obtain ⟨tree, h, hchildren, hancestors⟩ : ∃ tree, ReachedBy Edit.Fresh tree ∧
      (tree.children 0 = [3] ∧ tree.children 3 = [1] ∧ tree.children 1 = [2] ∧ tree.children 2 = []) ∧
      tree.ancestors 3 = [0] ∧ tree.ancestors 1 = [3, 0] ∧ tree.ancestors 2 = [1, 3, 0] := by
    have hitem : ReachedBy Edit.Fresh _ := .edit (.alloc (.element "li" (.ofList []))) .empty (by decide) rfl
    have htext : ReachedBy Edit.Fresh _ := .edit (.appendText 1 "one") hitem (by decide) rfl
    have hlist : ReachedBy Edit.Fresh _ := .edit (.appendElement 0 "ul" []) htext (by decide) rfl
    have hwhole : ReachedBy Edit.Fresh _ := .edit (.appendChild 3 1) hlist (by decide) rfl
    exact ⟨_, hwhole, ⟨rfl, rfl, rfl, rfl⟩, rfl, rfl, rfl⟩
  obtain ⟨-, hbelow, hbound, -⟩ := nodesBy_iff_ancestors h hflags root (.ofFlags [])
  have hall : (tree.nodesBy root .always none (.ofFlags [])).1 = [3, 1, 2] := by
    rw [Recursive.nodesBy_eq h.linked.acyclic]
    simp [Recursive.descend_eq, Recursive.visit, Recursive.test, hchildren, root, Trace.each, Trace.andThen,
      Trace.done, Trace.find, Trace.nodes]
  refine ⟨tree, h, hall, ?_, hancestors.2.2, (hbelow 2).mp (by simp [hall])⟩
  rw [hbound, hall]
  simp [hancestors, root]

end Tree

end TreeQuery
