import Mathlib.Data.Set.Card
import Mathlib.Data.List.Lex
import TreeQuery.Proofs.Search.Pulls
import TreeQuery.Proofs.Tree.Preorder

/-!
# What a selector means

A selector without `first` has a meaning of its own, which knows nothing of walks and stacks. A
predicate holds of a node or not, and a selector links a node with the chains of nodes below it: each
link lies below the one before, within the depth of its part, and the predicate of the part holds of it.

Main statement: in a well-formed tree the finds of a selector are the last links of its chains, one
for each chain, in the lexicographic order of the places that the links have in document order.
-/

namespace TreeQuery

mutual

/-- Whether a predicate holds of a node. A `first` has no meaning of its own. -/
def Predicate.Holds (tree : Tree) : Predicate → NodeId → Prop
  | .always, _ => True
  | .tag name, node => Text.sameIgnoringCase (tree.nodeName node) name = true
  | .id value, node => tree.id? node = some value
  | .hasClass name, node => tree.hasClass node name = true
  | .all tests, node => HoldAll tree tests node
  | .not test, node => ¬ test.Holds tree node
  | .has selector, node => ∃ chain, selector.IsChain tree node chain
  | .first _, _ => False
  | .custom answer, node => answer tree node = true
termination_by structural predicate => predicate

/-- Whether every predicate of a list holds of a node. -/
def HoldAll (tree : Tree) : List Predicate → NodeId → Prop
  | [], _ => True
  | test :: rest, node => test.Holds tree node ∧ HoldAll tree rest node
termination_by structural tests => tests

/-- Whether a part leads from one node to another. -/
def Part.Leads (tree : Tree) : Part → NodeId → NodeId → Prop
  | ⟨depth, predicate⟩, start, node => tree.Within depth start node ∧ predicate.Holds tree node
termination_by structural part => part

/-- Whether a list of parts leads from a node along a chain, one link for every part. -/
def IsChainOf (tree : Tree) : List Part → NodeId → List NodeId → Prop
  | [], _, chain => chain = []
  | _ :: _, _, [] => False
  | part :: rest, start, node :: chain => part.Leads tree start node ∧ IsChainOf tree rest node chain
termination_by structural parts => parts

/-- Whether a selector leads from a node along a chain, one link for every part. -/
def Selector.IsChain (tree : Tree) : Selector → NodeId → List NodeId → Prop
  | _, _, [] => False
  | ⟨head, rest⟩, start, node :: chain => head.Leads tree start node ∧ IsChainOf tree rest node chain
termination_by structural selector => selector

end

/-- The chains of a selector are those of its parts. -/
theorem Selector.isChain_iff {tree : Tree} (selector : Selector) {start : NodeId} {chain : List NodeId} :
    selector.IsChain tree start chain ↔ IsChainOf tree selector.parts start chain := by
  obtain ⟨head, rest⟩ := selector
  cases chain <;> rfl

open Classical in
/-- The answer of a predicate by its meaning. -/
noncomputable def Predicate.passes (tree : Tree) (predicate : Predicate) (node : NodeId) : Bool :=
  decide (predicate.Holds tree node)

@[simp] theorem Predicate.passes_iff {tree : Tree} {predicate : Predicate} {node : NodeId} :
    predicate.passes tree node = true ↔ predicate.Holds tree node := by
  simp [passes]

/-- A part leads to the nodes within its depth of which its predicate holds. -/
theorem Part.leads_iff {tree : Tree} (part : Part) {start node : NodeId} :
    part.Leads tree start node ↔ tree.Within part.depth start node ∧ part.predicate.Holds tree node := by
  cases part
  rfl

namespace Recursive

variable {tree : Tree}

/-- The chains of a list of parts below a node: for every node that the first part leads to, in
preorder, the chains of the other parts below that node. -/
noncomputable def chains (h : tree.Acyclic) : List Part → NodeId → List (List NodeId)
  | [], _ => [[]]
  | part :: rest, start =>
    ((h.descendants part.depth start).filter (part.predicate.passes tree)).flatMap fun node =>
      (chains h rest node).map (node :: ·)

/-- The list of chains holds the chains. -/
theorem mem_chains (h : tree.Acyclic) (parts : List Part) {start : NodeId} {chain : List NodeId} :
    chain ∈ chains h parts start ↔ IsChainOf tree parts start chain := by
  induction parts generalizing start chain with
  | nil => simp [chains, IsChainOf]
  | cons part rest ih =>
    cases chain with
    | nil => simp [chains, IsChainOf]
    | cons node chain =>
      simp only [chains, IsChainOf, part.leads_iff, List.mem_flatMap, List.mem_filter, List.mem_map,
        List.cons.injEq, Predicate.passes_iff, h.mem_descendants]
      constructor
      · intro hall
        obtain ⟨other, hother, tail, htail, rfl, rfl⟩ := hall
        exact ⟨hother, ih.mp htail⟩
      · intro hall
        obtain ⟨hnode, htail⟩ := hall
        exact ⟨node, hnode, chain, ih.mpr htail, rfl, rfl⟩

/-- The list of chains below a node of a well-formed tree is in lexicographic order, where the links
go by their places below a root above it. -/
theorem chains_pairwise (h : tree.WellFormed) (parts : List Part) {root start : NodeId}
    (hstart : (h.acyclic.descendants none start).Sublist (h.acyclic.descendants none root)) :
    (chains h.acyclic parts start).Pairwise (List.Lex (h.acyclic.Precedes root)) := by
  induction parts generalizing start with
  | nil => exact List.pairwise_singleton _ _
  | cons part rest ih =>
    have hsub : ((h.acyclic.descendants part.depth start).filter (part.predicate.passes tree)).Sublist
        (h.acyclic.descendants none root) :=
      List.filter_sublist.trans ((h.acyclic.descendants_sublist part.depth start).trans hstart)
    rw [chains, List.pairwise_flatMap]
    constructor
    · intro node hnode
      obtain ⟨count, -, -, hpath⟩ := h.acyclic.mem_descendants.mp (List.mem_filter.mp hnode).1
      rw [List.pairwise_map]
      exact (ih ((h.acyclic.descendants_sublist_of_below hpath).trans hstart)).imp List.Lex.cons
    · apply ((h.pairwise_precedes root).sublist hsub).imp
      intro left right hlt first hfirst second hsecond
      obtain ⟨_, -, rfl⟩ := List.mem_map.mp hfirst
      obtain ⟨_, -, rfl⟩ := List.mem_map.mp hsecond
      exact List.Lex.rel hlt

/-- The nodes that are found by visits, one after another, when no visit depends on the run. -/
theorem nodes_each {α : Type} {visit : α → Run → Trace} (found : α → List NodeId) {places : List α}
    (h : ∀ place ∈ places, ∀ run, (visit place run).nodes = found place) (run : Run) :
    (Trace.each visit places run).nodes = places.flatMap found := by
  induction places generalizing run with
  | nil => rfl
  | cons place rest ih =>
    have hfirst := h place List.mem_cons_self run
    have hrest := ih (fun other hother => h other (List.mem_cons_of_mem _ hother)) (visit place run).last
    simp only [Trace.nodes] at hfirst hrest
    simp only [Trace.each, Trace.andThen, Trace.nodes, List.map_append, List.flatMap_cons, hfirst, hrest]

/-- Going down with a test that does not depend on the run keeps the descendants that pass. -/
theorem nodes_descend (h : tree.Acyclic) {test : Test} {found : NodeId → Run → Trace}
    {passes : NodeId → Bool} {after : NodeId → List NodeId}
    (htest : ∀ node run, (test node run).1 = passes node)
    (hfound : ∀ node run, (found node run).nodes = after node) (depth : Option Nat) (node : NodeId)
    (run : Run) :
    (descend h test found depth node run).nodes =
      ((h.descendants depth node).filter passes).flatMap after := by
  induction node using h.wellFounded.induction generalizing depth run with
  | h node ih =>
    rw [descend_eq, h.descendants_eq]
    split
    · rfl
    · rw [nodes_each (fun child =>
        ((child :: h.descendants (depth.map (· - 1)) child).filter passes).flatMap after)]
      · rw [List.filter_flatMap, List.flatMap_assoc]
      · intro child hchild run
        have hbelow := ih child hchild (depth.map (· - 1))
        have hhere := hfound child (test child run).2
        simp only [Trace.nodes] at hbelow hhere
        rw [visit, htest]
        cases hpass : passes child <;>
          simp [Trace.nodes, Trace.andThen, Trace.done, hpass, hbelow, hhere]

/-- A stage in front of others finds the last links of the chains of its part in front of theirs, if
its test answers whether the predicate of the part holds. -/
theorem nodes_search_cons (h : tree.Acyclic) {stage : Stage} {stages : List Stage} {part : Part}
    {parts : List Part} (hdepth : stage.depth = part.depth)
    (htest : ∀ node run, (stage.test node run).1 = true ↔ part.predicate.Holds tree node)
    (hfound : ∀ node run, (search h stages node run).nodes =
      (chains h parts node).map (·.getLastD node)) (start : NodeId) (run : Run) :
    (search h (stage :: stages) start run).nodes =
      (chains h (part :: parts) start).map (·.getLastD start) := by
  have hpasses : ∀ node run, (stage.test node run).1 = part.predicate.passes tree node := by
    intro node run
    rw [Bool.eq_iff_iff, htest, Predicate.passes_iff]
  rw [search, nodes_descend h hpasses hfound, hdepth, chains, List.map_flatMap]
  congr 1
  funext node
  rw [List.map_map]
  apply List.map_congr_left
  intro chain _
  change chain.getLastD node = (node :: chain).getLastD start
  rw [List.getLastD_cons]

/-- The stage of a part looks as deep as the part. -/
theorem stage_depth (h : tree.Acyclic) (base : Nat) (part : Part) :
    (stage h base part).depth = part.depth := by
  cases part
  rfl

mutual

/-- Without `first` a test answers whether the predicate holds, whatever the run. -/
theorem test_iff_holds (h : tree.Acyclic) : ∀ (base : Nat) (predicate : Predicate),
    predicate.flags = [] → ∀ node run, (test h base predicate node run).1 = true ↔
      predicate.Holds tree node
  | _, .always, _, _, _ => by simp [test, Predicate.Holds]
  | _, .tag _, _, _, _ => by simp [test, Predicate.Holds]
  | _, .id _, _, _, _ => by simp [test, Predicate.Holds]
  | _, .hasClass _, _, _, _ => by simp [test, Predicate.Holds]
  | base, .all tests, hflags, node, run => by
    rw [test, Predicate.Holds]
    exact testAll_iff_holdAll h base tests hflags node run
  | base, .not inner, hflags, node, run => by
    have hinner := test_iff_holds h base inner hflags node run
    simp only [test, Predicate.Holds]
    rw [← hinner]
    simp
  | base, .has selector, hflags, node, run => by
    have hnodes := nodes_select h base selector hflags node run
    have hempty : (search h (stages h base selector) node run).finds = [] ↔
        chains h selector.parts node = [] := by
      rw [← List.map_eq_nil_iff (f := Prod.fst), ← Trace.nodes, hnodes, List.map_eq_nil_iff]
    simp only [test, Predicate.Holds, selector.isChain_iff, ← mem_chains h]
    rw [Bool.not_eq_true', List.isEmpty_eq_false_iff, ne_eq, hempty]
    exact ⟨List.exists_mem_of_ne_nil _, fun ⟨chain, hchain⟩ => List.ne_nil_of_mem hchain⟩
  | _, .first _, hflags, _, _ => by simp [Predicate.flags] at hflags
  | _, .custom _, _, _, _ => by simp [test, Predicate.Holds]
termination_by structural _ predicate => predicate

/-- Without `first` a list of tests answers whether all of them hold, whatever the run. -/
theorem testAll_iff_holdAll (h : tree.Acyclic) : ∀ (base : Nat) (tests : List Predicate),
    flagsOfTests tests = [] → ∀ node run, (testAll h base tests node run).1 = true ↔
      HoldAll tree tests node
  | _, [], _, _, _ => by simp [testAll, HoldAll]
  | base, first :: rest, hflags, node, run => by
    obtain ⟨hfirst, hrest⟩ := List.append_eq_nil_iff.mp hflags
    have hhead := test_iff_holds h base first hfirst node run
    have htail := testAll_iff_holdAll h (base + first.flags.length) rest hrest node
    rw [testAll, HoldAll, ← hhead]
    rcases test h base first node run with ⟨_ | _, run'⟩
    · simp
    · simp [htail]
termination_by structural _ tests => tests

/-- Without `first` the test of a part answers whether its predicate holds, whatever the run. -/
theorem stage_iff_holds (h : tree.Acyclic) : ∀ (base : Nat) (part : Part), part.flags = [] →
    ∀ node run, ((stage h base part).test node run).1 = true ↔ part.predicate.Holds tree node
  | base, ⟨_, predicate⟩, hflags, node, run => test_iff_holds h base predicate hflags node run
termination_by structural _ part => part

/-- Without `first` a list of stages finds the last links of the chains, in their order. -/
theorem nodes_search (h : tree.Acyclic) : ∀ (base : Nat) (parts : List Part),
    flagsOfParts parts = [] → ∀ start run, (search h (stagesOf h base parts) start run).nodes =
      (chains h parts start).map (·.getLastD start)
  | _, [], _, _, _ => rfl
  | base, part :: rest, hflags, start, run => by
    obtain ⟨hpart, hrest⟩ := List.append_eq_nil_iff.mp hflags
    exact nodes_search_cons h (stage_depth h base _) (stage_iff_holds h base part hpart)
      (nodes_search h (base + part.flags.length) rest hrest) start run
termination_by structural _ parts => parts

/-- Without `first` a selector finds the last links of its chains, in their order. -/
theorem nodes_select (h : tree.Acyclic) : ∀ (base : Nat) (selector : Selector), selector.flags = [] →
    ∀ start run, (search h (stages h base selector) start run).nodes =
      (chains h selector.parts start).map (·.getLastD start)
  | base, ⟨head, rest⟩, hflags, start, run => by
    obtain ⟨hpart, hrest⟩ := List.append_eq_nil_iff.mp hflags
    exact nodes_search_cons h (stage_depth h base _) (stage_iff_holds h base head hpart)
      (nodes_search h (base + head.flags.length) rest hrest) start run
termination_by structural _ selector => selector

end

/-- A list without repetitions has as many members with some last link as there are. -/
theorem count_getLast? {list : List (List NodeId)} (hnodup : list.Nodup) {p : List NodeId → Prop}
    (hmem : ∀ chain, chain ∈ list ↔ p chain) (node : NodeId) :
    (list.map List.getLast?).count (some node) =
      {chain | p chain ∧ chain.getLast? = some node}.ncard := by
  have hset : {chain | p chain ∧ chain.getLast? = some node} =
      ↑(list.filter fun chain => chain.getLast? == some node).toFinset := by
    ext chain
    simp [hmem]
  rw [hset, Set.ncard_coe_finset, List.toFinset_card_of_nodup (hnodup.filter _), List.count,
    List.countP_map, List.countP_eq_length_filter]
  rfl

/-- The chains of a selector have a last link. -/
theorem ne_nil_of_mem_chains (h : tree.Acyclic) {selector : Selector} {start : NodeId}
    {chain : List NodeId} (hchain : chain ∈ chains h selector.parts start) : chain ≠ [] := by
  intro heq
  subst heq
  exact (mem_chains h selector.parts).mp hchain

end Recursive

/-- In a well-formed tree the finds of a selector without `first` are the last links of its chains,
in the lexicographic order of the places of the links in document order. Every chain counts once, so
a node is found as often as chains end in it. -/
theorem findAll_eq_last_links {tree : Tree} (h : tree.WellFormed) (root : NodeId) (selector : Selector)
    (hflags : selector.flags = []) :
    ∃ chains : List (List NodeId),
      (∀ chain, chain ∈ chains ↔ selector.IsChain tree root chain) ∧
      chains.Pairwise (List.Lex (h.acyclic.Precedes root)) ∧
      (selector.findAll tree root).1.map some = chains.map List.getLast? ∧
      ∀ node, (selector.findAll tree root).1.count node =
        {chain | selector.IsChain tree root chain ∧ chain.getLast? = some node}.ncard := by
  have hmem : ∀ chain, chain ∈ Recursive.chains h.acyclic selector.parts root ↔
      selector.IsChain tree root chain := fun chain =>
    (Recursive.mem_chains h.acyclic selector.parts).trans selector.isChain_iff.symm
  have hsorted := Recursive.chains_pairwise h selector.parts
    (List.Sublist.refl (h.acyclic.descendants none root))
  have hfinds : (selector.findAll tree root).1.map some =
      (Recursive.chains h.acyclic selector.parts root).map List.getLast? := by
    rw [Recursive.findAll_eq h.acyclic, Recursive.select, Recursive.nodes_select _ _ _ hflags,
      List.map_map]
    apply List.map_congr_left
    intro chain hchain
    obtain ⟨last, hlast⟩ :=
      Option.isSome_iff_exists.mp (List.getLast?_isSome.mpr (Recursive.ne_nil_of_mem_chains _ hchain))
    simp [hlast]
  refine ⟨Recursive.chains h.acyclic selector.parts root, hmem, hsorted, hfinds, fun node => ?_⟩
  have hnodup : (Recursive.chains h.acyclic selector.parts root).Nodup :=
    hsorted.imp fun hlt heq => by
      subst heq
      exact List.lex_irrefl (h.acyclic.precedes_irrefl root) _ hlt
  rw [← List.count_map_of_injective _ some (Option.some_injective _), hfinds]
  exact Recursive.count_getLast? hnodup hmem node

/-- A document whose first child begins a path of three nodes, and whose second child is a leaf. -/
def pathAndLeaf : Tree :=
  ⟨#[⟨.document, none, [1, 4], none, none⟩, ⟨.text "a", some 0, [2], some 4, none⟩,
    ⟨.text "b", some 1, [3], none, none⟩, ⟨.text "c", some 2, [], none, none⟩,
    ⟨.text "d", some 0, [], none, some 1⟩]⟩

/-- The leaves at most two levels below anything. -/
def nearLeaf : Selector :=
  ⟨⟨none, .always⟩, [⟨some 2, .not (.has (.simple .always))⟩]⟩

/-- Two chains end in the leaf of the path, one through each node between it and the document. -/
theorem findAll_nearLeaf :
    pathAndLeaf.WellFormed ∧ nearLeaf.flags = [] ∧ (nearLeaf.findAll pathAndLeaf 0).1 = [3, 3] ∧
      {chain | nearLeaf.IsChain pathAndLeaf 0 chain ∧ chain.getLast? = some 3}.ncard = 2 := by
  have h : pathAndLeaf.WellFormed :=
    Tree.wellFormed_of_ascending (by decide) (by decide) (by decide)
  obtain ⟨_, _, _, _, hcount⟩ := findAll_eq_last_links h 0 nearLeaf rfl
  have hroot : pathAndLeaf.children 0 = [1, 4] := rfl
  have hfirst : pathAndLeaf.children 1 = [2] := rfl
  have hsecond : pathAndLeaf.children 2 = [3] := rfl
  have hthird : pathAndLeaf.children 3 = [] := rfl
  have hleaf : pathAndLeaf.children 4 = [] := rfl
  have hfinds : (nearLeaf.findAll pathAndLeaf 0).1 = [3, 3] := by
    rw [Recursive.findAll_eq h.acyclic]
    simp [Recursive.select, Recursive.stages, Recursive.stagesOf, Recursive.stage, Recursive.search,
      Recursive.descend_eq, Recursive.visit, Recursive.test, nearLeaf, Selector.simple, hroot, hfirst,
      hsecond, hthird, hleaf, Trace.each, Trace.andThen, Trace.done, Trace.find, Trace.nodes]
  refine ⟨h, rfl, hfinds, ?_⟩
  rw [← hcount, hfinds]
  rfl

end TreeQuery
