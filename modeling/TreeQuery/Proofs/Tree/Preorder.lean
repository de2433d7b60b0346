import Mathlib.Data.List.Flatten
import Mathlib.Data.List.Nodup
import TreeQuery.Proofs.Tree.Descent

/-!
# The nodes below a node in preorder

The descendants of a node are listed in preorder, down to a depth: every child in order, and behind
each child the descendants of the child, with one level less. What the list holds is said by paths
alone, and the order of the whole list is the document order below the node.

In a well-formed tree every node stands in one place at most, so the list has no repetitions, and
the list of every node below is a part of it in the same order.
-/

namespace TreeQuery.Tree

variable {tree : Tree}

/-- Every node stands in at most one list of children, and there only once, and none lies below itself. -/
structure WellFormed (tree : Tree) : Prop where
  acyclic : tree.Acyclic
  nodup : ∀ parent, (tree.children parent).Nodup
  unique : ∀ {child first second : NodeId}, tree.IsChild child first → tree.IsChild child second →
    first = second

/-- One node lies properly below another, by at most so many levels; `none` is any number. -/
def Within (tree : Tree) (depth : Option Nat) (start node : NodeId) : Prop :=
  ∃ count, 0 < count ∧ (∀ bound ∈ depth, count ≤ bound) ∧ tree.Below count start node

/-- The nodes properly below a node in preorder, down to a depth. -/
def Acyclic.descendants (h : tree.Acyclic) (depth : Option Nat) (node : NodeId) : List NodeId :=
  if depth = some 0 then []
  else (tree.children node).attach.flatMap fun child =>
    child.1 :: h.descendants (depth.map (· - 1)) child.1
termination_by h.wellFounded.wrap node
decreasing_by exact child.2

/-- The descendants are the children in order, each with its own descendants behind it. -/
theorem Acyclic.descendants_eq (h : tree.Acyclic) (depth : Option Nat) (node : NodeId) :
    h.descendants depth node =
      if depth = some 0 then []
      else (tree.children node).flatMap fun child => child :: h.descendants (depth.map (· - 1)) child := by
  rw [descendants]
  split
  · rfl
  · have hattach := List.flatMap_map Subtype.val
      (fun child => child :: h.descendants (depth.map (· - 1)) child) (tree.children node).attach
    rw [List.attach_map_subtype_val] at hattach
    exact hattach.symm

/-- A node lies within a depth when it is a child, or lies within one level less below a child. -/
theorem within_iff {depth : Option Nat} {start node : NodeId} :
    tree.Within depth start node ↔
      depth ≠ some 0 ∧ ∃ child, tree.IsChild child start ∧
        (node = child ∨ tree.Within (depth.map (· - 1)) child node) := by
  constructor
  · intro hall
    obtain ⟨count, hpos, hbound, hpath⟩ := hall
    cases hpath with
    | here => exact absurd hpos (Nat.lt_irrefl 0)
    | @step count start child node first rest =>
      refine ⟨?_, child, first, ?_⟩
      · intro heq
        subst heq
        exact absurd (hbound 0 rfl) (by omega)
      · cases rest with
        | here => exact Or.inl rfl
        | @step count child next node second rest =>
          refine Or.inr ⟨count + 1, Nat.succ_pos _, fun bound hmem => ?_, .step second rest⟩
          obtain ⟨levels, hlevels, rfl⟩ := Option.map_eq_some_iff.mp hmem
          have := hbound levels hlevels
          omega
  · intro hall
    obtain ⟨hdepth, child, hchild, rfl | ⟨count, hpos, hbound, hpath⟩⟩ := hall
    · refine ⟨1, Nat.one_pos, fun bound hmem => ?_, .step hchild (.here node)⟩
      have : bound ≠ 0 := by
        intro heq
        subst heq
        exact hdepth hmem
      omega
    · refine ⟨count + 1, Nat.succ_pos _, fun bound hmem => ?_, .step hchild hpath⟩
      have := hbound (bound - 1) (Option.mem_map_of_mem _ hmem)
      omega

/-- The list of descendants holds the nodes within the depth. -/
theorem Acyclic.mem_descendants (h : tree.Acyclic) {depth : Option Nat} {start node : NodeId} :
    node ∈ h.descendants depth start ↔ tree.Within depth start node := by
  induction start using h.wellFounded.induction generalizing depth with
  | h start ih =>
    rw [h.descendants_eq, within_iff]
    by_cases hdepth : depth = some 0
    · simp [hdepth]
    · rw [if_neg hdepth]
      simp only [List.mem_flatMap, List.mem_cons, ne_eq, hdepth, not_false_eq_true, true_and]
      constructor
      · intro hall
        obtain ⟨child, hchild, hnode⟩ := hall
        exact ⟨child, hchild, hnode.imp_right (ih child hchild).mp⟩
      · intro hall
        obtain ⟨child, hchild, hnode⟩ := hall
        exact ⟨child, hchild, hnode.imp_right (ih child hchild).mpr⟩

/-- The list of all descendants holds the nodes below. -/
theorem Acyclic.mem_descendants_none (h : tree.Acyclic) {start node : NodeId} :
    node ∈ h.descendants none start ↔ Relation.TransGen tree.IsChild node start := by
  simp [h.mem_descendants, Within, transGen_iff_below]

/-- A bounded list of descendants is a part of the unbounded one, in the same order. -/
theorem Acyclic.descendants_sublist (h : tree.Acyclic) (depth : Option Nat) (node : NodeId) :
    (h.descendants depth node).Sublist (h.descendants none node) := by
  induction node using h.wellFounded.induction generalizing depth with
  | h node ih =>
    rw [h.descendants_eq depth, h.descendants_eq none]
    split
    · exact List.nil_sublist _
    · rw [if_neg (by simp)]
      exact List.Sublist.flatMap_right _ fun child hchild => (ih child hchild _).cons_cons child

/-- The descendants of a lower node are a part of those of a higher one, in the same order. -/
theorem Acyclic.descendants_sublist_of_below (h : tree.Acyclic) {count : Nat} {start node : NodeId}
    (path : tree.Below count start node) :
    (h.descendants none node).Sublist (h.descendants none start) := by
  induction path with
  | here node => exact List.Sublist.refl _
  | @step count start child node first rest ih =>
    refine ih.trans ((List.sublist_cons_self child _).trans ?_)
    rw [h.descendants_eq none start, if_neg (by simp), List.flatMap_def]
    exact List.sublist_flatten_of_mem (List.mem_map_of_mem first)

/-- A path that is not empty ends with a step to a child. -/
theorem Below.last {count : Nat} {start node : NodeId} (path : tree.Below (count + 1) start node) :
    ∃ parent, tree.Below count start parent ∧ tree.IsChild node parent := by
  induction count generalizing start with
  | zero =>
    cases path with
    | step first rest =>
      cases rest with
      | here => exact ⟨start, .here start, first⟩
  | succ count ih =>
    cases path with
    | step first rest =>
      obtain ⟨parent, hpath, hlast⟩ := ih rest
      exact ⟨parent, .step first hpath, hlast⟩

/-- A path goes on to the children of its last node. -/
theorem Below.snoc {count : Nat} {start parent node : NodeId} (path : tree.Below count start parent)
    (hlast : tree.IsChild node parent) : tree.Below (count + 1) start node := by
  induction path with
  | here parent => exact .step hlast (.here node)
  | step first rest ih => exact .step first (ih hlast)

/-- A path goes on along a path from its last node. -/
theorem Below.trans {first second : Nat} {start middle node : NodeId} (path : tree.Below first start middle)
    (rest : tree.Below second middle node) : tree.Below (first + second) start node := by
  induction path with
  | here middle => rwa [Nat.zero_add]
  | step hchild _ ih =>
    rw [Nat.add_right_comm]
    exact .step hchild (ih rest)

/-- A path of one step more is a path to a parent of its last node. -/
theorem below_succ_iff {count : Nat} {start node : NodeId} :
    tree.Below (count + 1) start node ↔ ∃ parent, tree.Below count start parent ∧ tree.IsChild node parent :=
  ⟨Below.last, fun ⟨_, path, hlast⟩ => path.snoc hlast⟩

/-- A path without steps ends where it begins. -/
theorem below_zero_iff {start node : NodeId} : tree.Below 0 start node ↔ node = start := by
  constructor
  · intro path
    cases path
    rfl
  · rintro rfl
    exact .here node

/-- Of two paths to one node the longer one begins above the beginning of the shorter. -/
theorem WellFormed.below_of_below (h : tree.WellFormed) {first second : Nat} {left right node : NodeId}
    (hleft : tree.Below first left node) (hright : tree.Below (first + second) right node) :
    tree.Below second right left := by
  induction first generalizing node with
  | zero =>
    cases hleft
    rwa [Nat.zero_add] at hright
  | succ first ih =>
    obtain ⟨parent, hparent, hlast⟩ := hleft.last
    rw [Nat.add_right_comm] at hright
    obtain ⟨other, hother, hlast'⟩ := hright.last
    rw [h.unique hlast' hlast] at hother
    exact ih hparent hother

/-- No path without end leads back to where it began. -/
theorem Acyclic.eq_zero_of_below (h : tree.Acyclic) {count : Nat} {node : NodeId}
    (path : tree.Below count node node) : count = 0 := by
  cases path with
  | here => rfl
  | step first rest => exact absurd (Relation.TransGen.tail' rest.reflTransGen first) (h _)

/-- Nothing lies below two children of one node. -/
theorem WellFormed.eq_of_below (h : tree.WellFormed) {first second : Nat}
    {parent left right node : NodeId} (hleft : tree.IsChild left parent)
    (hright : tree.IsChild right parent) (hfirst : tree.Below first left node)
    (hsecond : tree.Below second right node) : left = right := by
  wlog hle : first ≤ second generalizing first second left right
  · exact (this hright hleft hsecond hfirst (Nat.le_of_not_le hle)).symm
  obtain ⟨count, rfl⟩ := Nat.exists_eq_add_of_le hle
  have hpath := h.below_of_below hfirst hsecond
  cases count with
  | zero =>
    cases hpath
    rfl
  | succ count =>
    -- the other child would lie below a child of itself
    obtain ⟨above, habove, hlast⟩ := hpath.last
    rw [h.unique hlast hleft] at habove
    exact absurd (h.acyclic.eq_zero_of_below (Below.step hright habove)) (Nat.succ_ne_zero count)

/-- What stands in the list behind a child lies below that child. -/
theorem Acyclic.exists_below_of_mem (h : tree.Acyclic) {child node : NodeId}
    (hmem : node ∈ child :: h.descendants none child) : ∃ count, tree.Below count child node := by
  rcases List.mem_cons.mp hmem with rfl | hmem
  · exact ⟨0, .here node⟩
  · obtain ⟨count, -, -, hpath⟩ := h.mem_descendants.mp hmem
    exact ⟨count, hpath⟩

/-- No node stands twice among the descendants of a node. -/
theorem WellFormed.nodup_descendants (h : tree.WellFormed) (node : NodeId) :
    (h.acyclic.descendants none node).Nodup := by
  induction node using h.acyclic.wellFounded.induction with
  | h node ih =>
    rw [h.acyclic.descendants_eq, if_neg (by simp), List.nodup_flatMap]
    constructor
    · intro child hchild
      refine List.nodup_cons.mpr ⟨fun hmem => ?_, ih child hchild⟩
      obtain ⟨count, hpos, -, hpath⟩ := h.acyclic.mem_descendants.mp hmem
      exact absurd (h.acyclic.eq_zero_of_below hpath) (Nat.pos_iff_ne_zero.mp hpos)
    · apply (h.nodup node).imp_of_mem
      intro left right hleft hright hne
      refine List.disjoint_left.mpr fun other hfirst hsecond => hne ?_
      obtain ⟨first, hfirst⟩ := h.acyclic.exists_below_of_mem hfirst
      obtain ⟨second, hsecond⟩ := h.acyclic.exists_below_of_mem hsecond
      exact h.eq_of_below hleft hright hfirst hsecond

/-- What makes a tree well-formed can be read off its lists if all children have later places. -/
theorem wellFormed_of_ascending
    (hascending : ∀ parent < tree.size, ∀ child ∈ tree.children parent, parent < child)
    (hnodup : ∀ parent < tree.size, (tree.children parent).Nodup)
    (hunique : ∀ first < tree.size, ∀ second < tree.size, ∀ child ∈ tree.children first,
      child ∈ tree.children second → first = second) : tree.WellFormed where
  acyclic := acyclic_of_ascending hascending
  nodup parent := by
    by_cases hlt : parent < tree.size
    · exact hnodup parent hlt
    · have hnil : tree.children parent = [] := List.eq_nil_iff_forall_not_mem.mpr fun child hchild =>
        hlt (lt_size_of_isChild hchild)
      rw [hnil]
      exact List.nodup_nil
  unique hfirst hsecond :=
    hunique _ (lt_size_of_isChild hfirst) _ (lt_size_of_isChild hsecond) _ hfirst hsecond

/-- One node has its place before another in the preorder of the nodes below a root. -/
def Acyclic.Precedes (h : tree.Acyclic) (root left right : NodeId) : Prop :=
  (h.descendants none root).idxOf left < (h.descendants none root).idxOf right

/-- No node has its place before its own place. -/
theorem Acyclic.precedes_irrefl (h : tree.Acyclic) (root node : NodeId) : ¬ h.Precedes root node node :=
  Nat.lt_irrefl _

/-- The nodes below a root stand in the list in the order of their places. -/
theorem WellFormed.pairwise_precedes (h : tree.WellFormed) (root : NodeId) :
    (h.acyclic.descendants none root).Pairwise (h.acyclic.Precedes root) := by
  rw [List.pairwise_iff_getElem]
  intro i j hi hj hij
  rw [Acyclic.Precedes, (h.nodup_descendants root).idxOf_getElem i hi,
    (h.nodup_descendants root).idxOf_getElem j hj]
  exact hij

end TreeQuery.Tree
