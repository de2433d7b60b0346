import TreeQuery.Markup
import TreeQuery.Proofs.Tree.Isomorphism

/-!
# Markup without a limit

The markup of a node is taken down to a number of levels. Levels that no path in the arena goes beyond
make no difference to each other, and without a cycle there are as many paths as that below every node
when the levels are the size of the arena. So the markup of a node is what its kind writes around the
markup of its children, with no levels in it.

Main statement: markup is carried over by a map that carries what lies below a node over into another
tree.
-/

namespace TreeQuery.Tree

open Markup

variable {tree tree' : Tree}

/-- So many levels take in every path from a node that ends in the arena. -/
def Spans (tree : Tree) (levels : Nat) (node : NodeId) : Prop :=
  ∀ count last, tree.Below count node last → last < tree.size → count < levels

/-- Without a cycle the levels that markup is taken with take in every path. -/
theorem Acyclic.spans_size (h : tree.Acyclic) (node : NodeId) : tree.Spans tree.size node :=
  fun _ _ path hlast => path.lt_size h hlast

/-- Below a child one level less is enough. -/
theorem Spans.child {levels : Nat} {node child : NodeId} (h : tree.Spans (levels + 1) node)
    (hchild : child ∈ tree.children node) : tree.Spans levels child := fun count last path hlast =>
  Nat.lt_of_succ_lt_succ (h (count + 1) last (.step hchild path) hlast)

/-- A node outside the arena is of no kind. -/
theorem kind?_eq_none_iff {node : NodeId} : tree.kind? node = none ↔ tree.size ≤ node := by
  rw [kind?, Option.map_eq_none_iff, get?, Array.getElem?_eq_none_iff, size]

/-- A node of a kind has its place in the arena. -/
theorem lt_size_of_kind? {node : NodeId} {kind : NodeKind} (h : tree.kind? node = some kind) :
    node < tree.size := by
  rw [← Nat.not_le, ← kind?_eq_none_iff, h]
  exact Option.some_ne_none kind

/-- No levels are enough outside the arena alone. -/
theorem Spans.kind?_eq_none {node : NodeId} (h : tree.Spans 0 node) : tree.kind? node = none := by
  rw [kind?_eq_none_iff]
  by_contra hin
  exact Nat.not_lt_zero 0 (h 0 node (.here node) (Nat.lt_of_not_le hin))

/-- A node of no kind has no markup. -/
theorem outerWithin_of_kind?_none (levels : Nat) {node : NodeId} (h : tree.kind? node = none) :
    tree.outerWithin levels node = [] := by
  cases levels with
  | zero => rfl
  | succ levels => rw [outerWithin, Option.map_eq_none_iff.mp h]

/-- One level of markup is what a kind writes around the markup of those children that it shows. -/
theorem outerWithin_succ (levels : Nat) {node : NodeId} {kind : NodeKind} (h : tree.kind? node = some kind) :
    tree.outerWithin (levels + 1) node =
      around kind (if showsChildren kind then (tree.children node).flatMap (tree.outerWithin levels)
        else []) := by
  obtain ⟨n, hn, rfl⟩ := Option.map_eq_some_iff.mp h
  rw [outerWithin, children, hn]
  rfl

/-- Markup that is taken down to enough levels is carried over. -/
theorem Carries.outerWithin_eq {root : NodeId} {f : NodeId → NodeId} (h : Carries tree tree' root f)
    {levels levels' : Nat} {node : NodeId} (hnode : tree.Reaches root node)
    (hspans : tree.Spans levels node) (hspans' : tree'.Spans levels' (f node)) :
    tree'.outerWithin levels' (f node) = tree.outerWithin levels node := by
  induction levels generalizing levels' node with
  | zero =>
    have hnone := hspans.kind?_eq_none
    rw [outerWithin_of_kind?_none _ hnone, outerWithin_of_kind?_none _ ((h.kind_eq hnode).trans hnone)]
  | succ levels ih =>
    cases hkind : tree.kind? node with
    | none =>
      rw [outerWithin_of_kind?_none _ hkind, outerWithin_of_kind?_none _ ((h.kind_eq hnode).trans hkind)]
    | some kind =>
      have hkind' : tree'.kind? (f node) = some kind := (h.kind_eq hnode).trans hkind
      cases levels' with
      | zero => rw [hspans'.kind?_eq_none] at hkind'; contradiction
      | succ levels' =>
        -- one level less is enough for every child, on either side
        have hinside : (tree'.children (f node)).flatMap (tree'.outerWithin levels') =
            (tree.children node).flatMap (tree.outerWithin levels) := by
          rw [h.children hnode, List.flatMap_map]
          refine List.flatMap_congr fun child hchild => ih (hnode.child hchild) (hspans.child hchild) ?_
          apply hspans'.child
          rw [h.children hnode]
          exact List.mem_map_of_mem hchild
        rw [outerWithin_succ _ hkind, outerWithin_succ _ hkind', hinside]

/-- Without a cycle the markup of a node is what its kind writes around the markup of those children that
it shows. -/
theorem Acyclic.outerWithin_eq (h : tree.Acyclic) {node : NodeId} {kind : NodeKind}
    (hkind : tree.kind? node = some kind) :
    tree.outerWithin tree.size node =
      around kind (if showsChildren kind then (tree.children node).flatMap (tree.outerWithin tree.size)
        else []) := by
  have hmore : tree.Spans (tree.size + 1) node := fun count last path hlast =>
    Nat.lt_succ_of_lt (h.spans_size node count last path hlast)
  rw [← outerWithin_succ tree.size hkind]
  exact (Carries.refl tree node).outerWithin_eq (Reaches.refl node) hmore (h.spans_size node)

/-- The outer markup of a root is that of the place that the root is mapped to. -/
theorem Carries.outerMarkup_eq {root : NodeId} {f : NodeId → NodeId} (hcarries : Carries tree tree' root f)
    (h : tree.Acyclic) (h' : tree'.Acyclic) : tree'.outerMarkup (f root) = tree.outerMarkup root := by
  rw [outerMarkup, outerMarkup, hcarries.outerWithin_eq (Reaches.refl root) (h.spans_size root)
    (h'.spans_size (f root))]

/-- The inner markup of a root is that of the place that the root is mapped to. -/
theorem Carries.innerMarkup_eq {root : NodeId} {f : NodeId → NodeId} (hcarries : Carries tree tree' root f)
    (h : tree.Acyclic) (h' : tree'.Acyclic) : tree'.innerMarkup (f root) = tree.innerMarkup root := by
  have hroot : tree.Reaches root root := Reaches.refl root
  rw [innerMarkup, innerMarkup, hcarries.children hroot, List.flatMap_map]
  congr 1
  exact List.flatMap_congr fun child hchild =>
    hcarries.outerWithin_eq (hroot.child hchild) (h.spans_size child) (h'.spans_size (f child))

end TreeQuery.Tree
