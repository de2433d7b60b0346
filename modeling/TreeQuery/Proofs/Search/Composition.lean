import TreeQuery.Proofs.Search.Chains
import TreeQuery.Proofs.Search.Sieve

/-!
# Chains one behind the other

A chain of parts one behind the other is a chain of the first ones and then, below its last link, one of
the others. So without `first` a search along all the parts is a search along the first ones with a
search along the others below every find, and the finds of these searches stand one behind the other.

Main statement: the finds of a selector that continues another one, in terms of the finds of both.
-/

namespace TreeQuery

variable {tree : Tree}

/-- The chains of parts one behind the other. -/
theorem Recursive.chains_append (h : tree.Acyclic) (first second : List Part) (start : NodeId) :
    chains h (first ++ second) start = (chains h first start).flatMap fun chain =>
      (chains h second (chain.getLastD start)).map (chain ++ ·) := by
  induction first generalizing start with
  | nil => simp [chains]
  | cons part rest ih =>
    simp only [List.cons_append, chains, ih, List.flatMap_assoc, List.map_flatMap, List.flatMap_map,
      List.map_map, List.getLastD_cons]
    rfl

/-- Without `first` a selector finds the last links of its chains. -/
theorem Selector.findAll_eq_chains (h : tree.Acyclic) {selector : Selector}
    (hflags : selector.flags = []) (root : NodeId) :
    (selector.findAll tree root).1 =
      (Recursive.chains h selector.parts root).map (·.getLastD root) := by
  rw [Recursive.findAll_eq h, Recursive.select, Recursive.nodes_select h 0 selector hflags]

/-- Where the parts of a selector continue those of another, it finds below every find of the first what
the second finds there. -/
theorem Selector.findAll_append (h : tree.Acyclic) {first second both : Selector}
    (hboth : both.parts = first.parts ++ second.parts) (hfirst : first.flags = [])
    (hsecond : second.flags = []) (root : NodeId) :
    (both.findAll tree root).1 =
      (first.findAll tree root).1.flatMap fun node => (second.findAll tree node).1 := by
  have hflags : both.flags = [] := by
    rw [both.flags_eq, hboth, flagsOfParts_append, ← first.flags_eq, ← second.flags_eq, hfirst, hsecond]
    rfl
  rw [findAll_eq_chains h hflags, findAll_eq_chains h hfirst, hboth, Recursive.chains_append,
    List.map_flatMap, List.flatMap_map]
  congr 1
  funext chain
  rw [findAll_eq_chains h hsecond, List.map_map]
  apply List.map_congr_left
  intro more _
  -- the last link of both chains is that of the second, if there is one
  change (chain ++ more).getLastD root = more.getLastD (chain.getLastD root)
  cases more with
  | nil => rw [List.append_nil]; rfl
  | cons node more => simp [List.getLastD_eq_getLast?]

end TreeQuery
