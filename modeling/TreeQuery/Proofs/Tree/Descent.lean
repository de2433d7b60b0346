import Mathlib.Data.List.NodupEquivFin
import Mathlib.Data.Fintype.Card
import Mathlib.Logic.Relation
import TreeQuery.Tree.Basic

/-!
# Going down from parents to children

One node lies below another when a path of child steps leads to it. The arena may hold a node in
several lists of children, so there may be many such paths; what is asked of it here is only that no
path leads back to where it began.

Main statements: without a cycle a path has at most as many steps as the arena has nodes, and the
step from a parent to a child is well-founded.
-/

namespace TreeQuery.Tree

variable {tree : Tree}

/-- One node stands in the list of children of another. -/
def IsChild (tree : Tree) (child parent : NodeId) : Prop := child ∈ tree.children parent

/-- No path of child steps leads back to where it began. -/
def Acyclic (tree : Tree) : Prop := ∀ node, ¬ Relation.TransGen tree.IsChild node node

/-- A node lies at or below a root. -/
def Reaches (tree : Tree) (root node : NodeId) : Prop := Relation.ReflTransGen tree.IsChild node root

/-- A path of exactly so many child steps leads from one node to another. -/
inductive Below (tree : Tree) : Nat → NodeId → NodeId → Prop
  | here (node : NodeId) : Below tree 0 node node
  | step {count : Nat} {start child node : NodeId} (first : tree.IsChild child start)
      (rest : Below tree count child node) : Below tree (count + 1) start node

theorem Reaches.refl (root : NodeId) : tree.Reaches root root := Relation.ReflTransGen.refl

/-- The children of what lies at or below a root lie below it. -/
theorem Reaches.child {root node child : NodeId} (h : tree.Reaches root node)
    (hchild : child ∈ tree.children node) : tree.Reaches root child := Relation.ReflTransGen.head hchild h

/-- At or below a root lie the root itself and what lies at or below its children. -/
theorem reaches_iff (root : NodeId) {node : NodeId} :
    tree.Reaches root node ↔ node = root ∨ ∃ child ∈ tree.children root, tree.Reaches child node := by
  rw [Reaches, Relation.ReflTransGen.cases_tail_iff, eq_comm]
  simp only [Reaches, IsChild, and_comm]

/-- Only the places in the arena have children. -/
theorem lt_size_of_isChild {child parent : NodeId} (h : tree.IsChild child parent) :
    parent < tree.size := by
  by_contra hout
  have hnone : tree.get? parent = none := Array.getElem?_eq_none (Nat.le_of_not_lt hout)
  simp [IsChild, children, hnone] at h

/-- A path of child steps from a node to a lower one is a path of links from the lower one up. -/
theorem Below.reflTransGen {count : Nat} {start node : NodeId} (h : tree.Below count start node) :
    Relation.ReflTransGen tree.IsChild node start := by
  induction h with
  | here node => exact Relation.ReflTransGen.refl
  | step first rest ih => exact ih.tail first

/-- A node lies below another when a path of one child step or more leads down to it. -/
theorem transGen_iff_below {node start : NodeId} :
    Relation.TransGen tree.IsChild node start ↔ ∃ count, 0 < count ∧ tree.Below count start node := by
  constructor
  · intro h
    induction h with
    | single first => exact ⟨1, Nat.one_pos, .step first (.here node)⟩
    | tail _ first ih =>
      obtain ⟨count, -, path⟩ := ih
      exact ⟨count + 1, Nat.succ_pos count, .step first path⟩
  · intro hall
    obtain ⟨count, hpos, path⟩ := hall
    cases path with
    | here => exact absurd hpos (Nat.lt_irrefl 0)
    | step first rest => exact Relation.TransGen.tail' rest.reflTransGen first

/-- The nodes that a path leaves behind are distinct places of the arena above its last node, if nothing
lies below itself. -/
theorem Below.exists_nodup (h : tree.Acyclic) {count : Nat} {start node : NodeId}
    (path : tree.Below count start node) :
    ∃ left : List NodeId, left.length = count ∧ left.Nodup ∧
      ∀ other ∈ left, other < tree.size ∧ Relation.ReflTransGen tree.IsChild other start ∧
        Relation.TransGen tree.IsChild node other := by
  induction path with
  | here node => exact ⟨[], rfl, List.nodup_nil, by simp⟩
  | @step count start child node first rest ih =>
    obtain ⟨left, hlength, hnodup, hleft⟩ := ih
    refine ⟨start :: left, by simp [hlength], List.nodup_cons.mpr ⟨?_, hnodup⟩, ?_⟩
    · intro hmem
      exact h start (Relation.TransGen.tail' (hleft start hmem).2.1 first)
    · intro other hother
      rcases List.mem_cons.mp hother with rfl | hother
      · exact ⟨lt_size_of_isChild first, Relation.ReflTransGen.refl,
          Relation.TransGen.tail' rest.reflTransGen first⟩
      · obtain ⟨hlt, habove, hbelow⟩ := hleft other hother
        exact ⟨hlt, habove.tail first, hbelow⟩

/-- Without a cycle a path has at most as many steps as the arena has nodes. -/
theorem Below.le_size (h : tree.Acyclic) {count : Nat} {start node : NodeId}
    (path : tree.Below count start node) : count ≤ tree.size := by
  obtain ⟨left, hlength, hnodup, hleft⟩ := path.exists_nodup h
  have hsub : left ⊆ List.range tree.size := fun other hother =>
    List.mem_range.mpr (hleft other hother).1
  have hle := (hnodup.subperm hsub).length_le
  rwa [hlength, List.length_range] at hle

/-- Without a cycle a path to a node in the arena has fewer steps than the arena has nodes. -/
theorem Below.lt_size (h : tree.Acyclic) {count : Nat} {start node : NodeId}
    (path : tree.Below count start node) (hnode : node < tree.size) : count < tree.size := by
  obtain ⟨left, hlength, hnodup, hleft⟩ := path.exists_nodup h
  have hall : (node :: left).Nodup :=
    List.nodup_cons.mpr ⟨fun hmem => h node (hleft node hmem).2.2, hnodup⟩
  have hsub : node :: left ⊆ List.range tree.size := by
    intro other hother
    rw [List.mem_range]
    rcases List.mem_cons.mp hother with rfl | hother
    · exact hnode
    · exact (hleft other hother).1
  have hle := (hall.subperm hsub).length_le
  rwa [List.length_cons, hlength, List.length_range] at hle

/-- A node from which all paths are short has only accessible nodes below it. -/
theorem acc_of_paths_le {bound : Nat} {start : NodeId}
    (h : ∀ count node, tree.Below count start node → count ≤ bound) : Acc tree.IsChild start := by
  induction bound generalizing start with
  | zero =>
    apply Acc.intro start
    intro child hchild
    have := h 1 child (.step hchild (.here child))
    omega
  | succ bound ih =>
    refine Acc.intro start fun child hchild => ih fun count node hpath => ?_
    have := h (count + 1) node (.step hchild hpath)
    omega

/-- Without a cycle every way down comes to an end. -/
theorem Acyclic.wellFounded (h : tree.Acyclic) : WellFounded tree.IsChild :=
  ⟨fun _ => acc_of_paths_le fun _ _ path => path.le_size h⟩

/-- No node stands before one of its children in an arena whose children all have later places. -/
theorem acyclic_of_ascending
    (h : ∀ parent < tree.size, ∀ child ∈ tree.children parent, parent < child) : tree.Acyclic := by
  have hlt : ∀ {child parent}, Relation.TransGen tree.IsChild child parent → parent < child := by
    intro child parent hpath
    induction hpath with
    | single hchild => exact h _ (lt_size_of_isChild hchild) _ hchild
    | tail _ hchild ih => exact Nat.lt_trans (h _ (lt_size_of_isChild hchild) _ hchild) ih
  exact fun node hcycle => Nat.lt_irrefl node (hlt hcycle)

end TreeQuery.Tree
