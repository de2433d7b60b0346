import TreeQuery.Proofs.Search.Chains
import TreeQuery.Proofs.Search.Carrying
import TreeQuery.Proofs.Selector.Throughout

/-!
# Searches in a tree that has grown

A tree grows when its nodes keep their data and their children, and there may be more children. Paths stay,
and the descendants of a node stay in their order, with new ones among them. So what holds of a node without
negation still holds: a `has` that found something finds it again. A `not` need not go on to hold, and a
`first` may be used up on a new node.

Main statement: without `first`, `not` and callers' tests all finds of a selector stay, in their order, with
new ones among them.
-/

namespace TreeQuery

/-- A predicate is no `not`. -/
def Predicate.Affirms : Predicate → Prop
  | .not _ => False
  | _ => True

/-- No `not` stands in a selector at any level. -/
def Selector.Affirmative (selector : Selector) : Prop := selector.Throughout Predicate.Affirms AnyDepth

namespace Tree

/-- The nodes of a tree keep their data and their children in another one, where there may be more
children. -/
structure Grows (tree tree' : Tree) : Prop where
  kind : ∀ {node}, node < tree.size → tree'.kind? node = tree.kind? node
  children : ∀ node, (tree.children node).Sublist (tree'.children node)
  inArena : ∀ {child parent}, tree.IsChild child parent → child < tree.size

namespace Grows

variable {tree tree' : Tree} {node : NodeId}

/-- A node keeps its name. -/
theorem nodeName_eq (h : tree.Grows tree') (hnode : node < tree.size) :
    tree'.nodeName node = tree.nodeName node := by
  rw [nodeName, nodeName, h.kind hnode]

/-- A node keeps its attributes. -/
theorem attribute?_eq (h : tree.Grows tree') (hnode : node < tree.size) (name : String) :
    tree'.attribute? node name = tree.attribute? node name := by
  rw [attribute?, attribute?, attributes?, attributes?, h.kind hnode]

/-- A node keeps its class tokens. -/
theorem hasClass_eq (h : tree.Grows tree') (hnode : node < tree.size) (name : String) :
    tree'.hasClass node name = tree.hasClass node name := by
  rw [hasClass, hasClass, classes, classes, attributeValue, attributeValue, h.attribute?_eq hnode]

/-- Paths stay. -/
theorem below (h : tree.Grows tree') {count : Nat} {start : NodeId} (path : tree.Below count start node) :
    tree'.Below count start node := by
  induction path with
  | here node => exact .here node
  | step first _ ih => exact .step ((h.children _).subset first) ih

/-- What lies within a depth stays within it, and is in the arena. -/
theorem within (h : tree.Grows tree') {depth : Option Nat} {start : NodeId}
    (hwithin : tree.Within depth start node) : tree'.Within depth start node ∧ node < tree.size := by
  obtain ⟨count, hpos, hbound, path⟩ := hwithin
  obtain ⟨count, rfl⟩ := Nat.exists_eq_add_of_lt hpos
  obtain ⟨parent, -, hlast⟩ := path.last
  exact ⟨⟨_, hpos, hbound, h.below path⟩, h.inArena hlast⟩

/-- The descendants of a node stay in their order. -/
theorem descendants_sublist (h : tree.Grows tree') (hacyclic : tree.Acyclic) (hacyclic' : tree'.Acyclic)
    (depth : Option Nat) (node : NodeId) :
    (hacyclic.descendants depth node).Sublist (hacyclic'.descendants depth node) := by
  induction node using hacyclic.wellFounded.induction generalizing depth with
  | h node ih =>
    rw [hacyclic.descendants_eq, hacyclic'.descendants_eq]
    split
    · exact List.Sublist.refl []
    · exact (List.Sublist.flatMap_right _ fun child hchild => (ih child hchild _).cons_cons child).trans
        ((h.children node).flatMap _)

end Grows

end Tree

variable {tree tree' : Tree}

mutual

/-- Without negation what holds of a node goes on to hold. -/
theorem Predicate.Holds.grow (hgrows : tree.Grows tree') : ∀ {predicate : Predicate},
    predicate.flags = [] → predicate.CallerFree → predicate.Throughout Predicate.Affirms AnyDepth →
    ∀ {node : NodeId}, node < tree.size → predicate.Holds tree node → predicate.Holds tree' node
  | .always, _, _, _, _, _, _ => trivial
  | .tag _, _, _, _, _, hnode, h => by
    rw [Predicate.Holds, hgrows.nodeName_eq hnode]
    exact h
  | .id _, _, _, _, _, hnode, h => by
    rw [Predicate.Holds, Tree.id?, hgrows.attribute?_eq hnode]
    exact h
  | .hasClass _, _, _, _, _, hnode, h => by
    rw [Predicate.Holds, hgrows.hasClass_eq hnode]
    exact h
  | .all _, hflags, hfree, haffirms, _, hnode, h => HoldAll.grow hgrows hflags hfree haffirms.2 hnode h
  | .not _, _, _, haffirms, _, _, _ => haffirms.1.elim
  | .has _, hflags, hfree, haffirms, _, _, h => by
    obtain ⟨chain, hchain⟩ := h
    exact ⟨chain, Selector.IsChain.grow hgrows hflags hfree haffirms.2 hchain⟩
  | .first _, _, _, _, _, _, h => h.elim
  | .custom _, _, hfree, _, _, _, _ => hfree.elim
termination_by structural predicate => predicate

/-- Without negation tests that all hold of a node go on to hold. -/
theorem HoldAll.grow (hgrows : tree.Grows tree') : ∀ {tests : List Predicate},
    flagsOfTests tests = [] → TestsCallerFree tests → TestsThroughout Predicate.Affirms AnyDepth tests →
    ∀ {node : NodeId}, node < tree.size → HoldAll tree tests node → HoldAll tree' tests node
  | [], _, _, _, _, _, _ => trivial
  | _ :: _, hflags, hfree, haffirms, _, hnode, h => by
    obtain ⟨hfirst, hrest⟩ := List.append_eq_nil_iff.mp hflags
    exact ⟨Predicate.Holds.grow hgrows hfirst hfree.1 haffirms.1 hnode h.1,
      HoldAll.grow hgrows hrest hfree.2 haffirms.2 hnode h.2⟩
termination_by structural tests => tests

/-- Without negation a part goes on to lead where it leads. -/
theorem Part.Leads.grow (hgrows : tree.Grows tree') : ∀ {part : Part},
    part.flags = [] → part.CallerFree → part.Throughout Predicate.Affirms AnyDepth →
    ∀ {start node : NodeId}, part.Leads tree start node → part.Leads tree' start node
  | ⟨_, _⟩, hflags, hfree, haffirms, _, _, h => by
    obtain ⟨hwithin, hnode⟩ := hgrows.within h.1
    exact ⟨hwithin, Predicate.Holds.grow hgrows hflags hfree haffirms.2 hnode h.2⟩
termination_by structural part => part

/-- Without negation the chains of a list of parts stay. -/
theorem IsChainOf.grow (hgrows : tree.Grows tree') : ∀ {parts : List Part},
    flagsOfParts parts = [] → PartsCallerFree parts → PartsThroughout Predicate.Affirms AnyDepth parts →
    ∀ {start : NodeId} {chain : List NodeId}, IsChainOf tree parts start chain →
      IsChainOf tree' parts start chain
  | [], _, _, _, _, _, h => h
  | _ :: _, _, _, _, _, [], h => h.elim
  | _ :: _, hflags, hfree, haffirms, _, _ :: _, h => by
    obtain ⟨hpart, hrest⟩ := List.append_eq_nil_iff.mp hflags
    exact ⟨Part.Leads.grow hgrows hpart hfree.1 haffirms.1 h.1,
      IsChainOf.grow hgrows hrest hfree.2 haffirms.2 h.2⟩
termination_by structural parts => parts

/-- Without negation the chains of a selector stay. -/
theorem Selector.IsChain.grow (hgrows : tree.Grows tree') : ∀ {selector : Selector},
    selector.flags = [] → selector.CallerFree → selector.Throughout Predicate.Affirms AnyDepth →
    ∀ {start : NodeId} {chain : List NodeId}, selector.IsChain tree start chain →
      selector.IsChain tree' start chain
  | ⟨_, _⟩, _, _, _, _, [], h => h.elim
  | ⟨_, _⟩, hflags, hfree, haffirms, _, _ :: _, h => by
    obtain ⟨hhead, hrest⟩ := List.append_eq_nil_iff.mp hflags
    exact ⟨Part.Leads.grow hgrows hhead hfree.1 haffirms.1 h.1,
      IsChainOf.grow hgrows hrest hfree.2 haffirms.2 h.2⟩
termination_by structural selector => selector

end

/-- What passes one test is a part of what passes another, if the other holds wherever the first one does. -/
theorem filter_sublist_filter {α : Type} {p q : α → Bool} {list : List α}
    (h : ∀ a ∈ list, p a = true → q a = true) : (list.filter p).Sublist (list.filter q) := by
  have hboth : list.filter p = (list.filter q).filter p := by
    rw [List.filter_filter]
    refine List.filter_congr fun a ha => ?_
    cases hp : p a with
    | false => rfl
    | true => exact (h a ha hp).symm
  rw [hboth]
  exact List.filter_sublist

namespace Recursive

/-- Without negation the chains below a node stay in their order. -/
theorem chains_sublist (hgrows : tree.Grows tree') (h : tree.Acyclic) (h' : tree'.Acyclic)
    (parts : List Part) (hflags : flagsOfParts parts = []) (hfree : PartsCallerFree parts)
    (haffirms : PartsThroughout Predicate.Affirms AnyDepth parts) (start : NodeId) :
    (chains h parts start).Sublist (chains h' parts start) := by
  induction parts generalizing start with
  | nil => exact List.Sublist.refl [[]]
  | cons part rest ih =>
    obtain ⟨hpart, hrest⟩ := List.append_eq_nil_iff.mp hflags
    obtain ⟨depth, predicate⟩ := part
    have hpasses : ∀ node ∈ h.descendants depth start, predicate.passes tree node = true →
        predicate.passes tree' node = true := by
      intro node hmem hpass
      obtain ⟨-, hnode⟩ := hgrows.within (h.mem_descendants.mp hmem)
      rw [Predicate.passes_iff] at hpass ⊢
      exact Predicate.Holds.grow hgrows hpart hfree.1 haffirms.1.2 hnode hpass
    -- a descendant that passes is still there and still passes
    have hpassing : ((h.descendants depth start).filter (predicate.passes tree)).Sublist
        ((h'.descendants depth start).filter (predicate.passes tree')) :=
      (filter_sublist_filter hpasses).trans ((hgrows.descendants_sublist h h' depth start).filter _)
    have hbelow : ∀ node, ((chains h rest node).map (node :: ·)).Sublist
        ((chains h' rest node).map (node :: ·)) := fun node =>
      (ih hrest hfree.2 haffirms.2 node).map _
    exact (List.Sublist.flatMap_right _ fun node _ => hbelow node).trans (hpassing.flatMap _)

end Recursive

/-- In a tree that has grown all finds of a selector without `first`, `not` and callers' tests stay, in their
order. -/
theorem Selector.findAll_sublist (hgrows : tree.Grows tree') (h : tree.Acyclic) (h' : tree'.Acyclic)
    {selector : Selector} (hflags : selector.flags = []) (hfree : selector.CallerFree)
    (haffirms : selector.Affirmative) (root : NodeId) :
    (selector.findAll tree root).1.Sublist (selector.findAll tree' root).1 := by
  rw [Recursive.findAll_eq h, Recursive.findAll_eq h', Recursive.select, Recursive.select,
    Recursive.nodes_select h 0 selector hflags, Recursive.nodes_select h' 0 selector hflags]
  obtain ⟨head, rest⟩ := selector
  have hchains := Recursive.chains_sublist hgrows h h' (head :: rest) hflags hfree haffirms root
  exact hchains.map _

end TreeQuery
