import TreeQuery.Proofs.Query.Shape
import TreeQuery.Proofs.Selector.Case

/-!
# The case of tags

Tags compare without regard to the case of ASCII letters, in a tree as in a selector text. To say what
that means for queries, both sides are brought into lower case: a tree by the tags of its elements, a text
where it has tags. A walk sees the children of nodes and a test sees names up to case, so a search goes
through the tree in lower case as through the tree itself, find by find and with the same flags raised.

Neither side is asked to be well formed: the links of the tree may make cycles, and the text may fail to
compile.

Main statement: `results_of_tag_case`, that queries on trees and with texts that differ only in the case of
tags have the same outcomes.
-/

namespace TreeQuery

/-- What a node is, with its tag in lower case if it is an element. -/
def NodeKind.lowerTag : NodeKind → NodeKind
  | .element tag attributes => .element (Text.lower tag) attributes
  | .document => .document
  | .text content => .text content
  | .comment content => .comment content

namespace Tree

variable (tree : Tree)

/-- A tree with the tags of its elements in lower case. -/
def lowerTags : Tree := ⟨tree.nodes.map fun node => { node with kind := node.kind.lowerTag }⟩

@[simp] theorem horizon_lowerTags : tree.lowerTags.horizon = tree.horizon := by
  simp [horizon, size, lowerTags]

@[simp] theorem children_lowerTags (node : NodeId) : tree.lowerTags.children node = tree.children node := by
  simp only [children, get?, lowerTags, Array.getElem?_map]
  cases tree.nodes[node]? <;> rfl

theorem kind?_lowerTags (node : NodeId) :
    tree.lowerTags.kind? node = (tree.kind? node).map NodeKind.lowerTag := by
  simp only [kind?, get?, lowerTags, Array.getElem?_map]
  cases tree.nodes[node]? <;> rfl

@[simp] theorem attributes?_lowerTags (node : NodeId) :
    tree.lowerTags.attributes? node = tree.attributes? node := by
  unfold attributes?
  rw [kind?_lowerTags]
  rcases tree.kind? node with _ | kind
  · rfl
  · cases kind <;> rfl

/-- A node has the same name up to case. -/
theorem sameIgnoringCase_lowerTags (node : NodeId) (name : String) :
    Text.sameIgnoringCase (tree.lowerTags.nodeName node) name =
      Text.sameIgnoringCase (tree.nodeName node) name := by
  unfold nodeName
  rw [kind?_lowerTags]
  rcases tree.kind? node with _ | kind
  · rfl
  · cases kind with
    | element tag attributes =>
      simp only [Option.map_some, NodeKind.lowerTag, Text.sameIgnoringCase, Text.lower_lower]
    | document => rfl
    | text content => rfl
    | comment content => rfl

end Tree

section

variable (tree : Tree)

@[simp] theorem Walk.start_lowerTags (node : NodeId) (depth : Option Nat) :
    Walk.start tree.lowerTags node depth = Walk.start tree node depth := by
  simp [Walk.start]

/-- A walk takes the same steps. -/
theorem Walk.advance_lowerTags (walk : Walk) : walk.advance tree.lowerTags = walk.advance tree := by
  induction walk with
  | nil => rfl
  | cons frame below ih =>
    obtain ⟨_ | ⟨node, pending⟩, bound⟩ := frame
    · exact ih
    · simp [Walk.advance]

/-- A walk finds the same node next. -/
theorem Walk.next_lowerTags (test : Test) (walk : Walk) (run : Run) :
    walk.next tree.lowerTags test run = walk.next tree test run := by
  fun_induction Walk.next tree test walk run with
  | case1 walk run hadvance => rw [Walk.next_eq, Walk.advance_lowerTags, hadvance]
  | case2 walk run node after hadvance later htest =>
    rw [Walk.next_eq, Walk.advance_lowerTags, hadvance]
    simp only [htest]
  | case3 walk run node after hadvance later htest ih =>
    rw [Walk.next_eq, Walk.advance_lowerTags, hadvance]
    simp only [htest, ih]

/-- A stage begins with the same walk. -/
theorem Search.enter_lowerTags (node : NodeId) (stage : Stage) (rest : List Stage) :
    Search.enter tree.lowerTags node stage rest = Search.enter tree node stage rest := by
  rw [Search.enter, Search.enter, Walk.start_lowerTags]

/-- A search begins with the same walk. -/
theorem Search.start_lowerTags (node : NodeId) (stage : Stage) (rest : List Stage) :
    Search.start tree.lowerTags node stage rest = Search.start tree node stage rest := by
  rw [Search.start, Search.start, Search.enter_lowerTags]

/-- A search finds the same node next. -/
theorem Search.next_lowerTags (search : Search) (run : Run) :
    search.next tree.lowerTags run = search.next tree run := by
  fun_induction Search.next tree search run with
  | case1 run => simp [Search.next]
  | case2 run level below later hwalk ih =>
    rw [Search.next_cons, Walk.next_lowerTags, hwalk]
    exact ih
  | case3 run level below node walk later hwalk paused hrest =>
    rw [Search.next_cons, Walk.next_lowerTags, hwalk]
    simp only [hrest, paused]
  | case4 run level below node walk later hwalk paused stage rest hrest ih =>
    rw [Search.next_cons, Walk.next_lowerTags, hwalk]
    have hpaused : paused = ⟨level.test, stage :: rest, walk⟩ :: below := hrest ▸ rfl
    rw [hpaused] at ih ⊢
    simp only [hrest, Search.enter_lowerTags]
    exact ih

/-- A search finds the same nodes. -/
theorem Search.collect_lowerTags (search : Search) (run : Run) :
    search.collect tree.lowerTags run = search.collect tree run := by
  fun_induction Search.collect tree search run with
  | case1 search run later hnext => rw [Search.collect_eq, Search.next_lowerTags, hnext]
  | case2 search run node after later hnext nodes last hcollect ih =>
    rw [Search.collect_eq, Search.next_lowerTags, hnext]
    simp only [ih, hcollect]

mutual

/-- A test of the library gives the same answers and leaves the same runs. -/
theorem Predicate.test_lowerTags : ∀ (base : Nat) (predicate : Predicate), predicate.CallerFree →
    predicate.test tree.lowerTags base = predicate.test tree base
  | _, .always, _ => rfl
  | _, .tag name, _ => by
    funext node run
    simp only [Predicate.test, tree.sameIgnoringCase_lowerTags]
  | _, .id value, _ => by
    funext node run
    simp only [Predicate.test, Tree.id?, Tree.attribute?, tree.attributes?_lowerTags]
  | _, .hasClass name, _ => by
    funext node run
    simp only [Predicate.test, Tree.hasClass, Tree.classes, Tree.attributeValue, Tree.attribute?,
      tree.attributes?_lowerTags]
  | base, .all tests, hfree => testAll_lowerTags base tests hfree
  | base, .not inner, hfree => by
    funext node run
    simp only [Predicate.test, Predicate.test_lowerTags base inner hfree]
  | base, .has selector, hfree => by
    funext node run
    simp only [Predicate.test, Selector.stages_lowerTags base selector hfree, Search.start_lowerTags,
      Search.next_lowerTags]
  | _, .first _, _ => rfl
  | _, .custom _, hfree => hfree.elim
termination_by structural _ predicate => predicate

/-- A list of such tests gives the same answers and leaves the same runs. -/
theorem testAll_lowerTags : ∀ (base : Nat) (tests : List Predicate), TestsCallerFree tests →
    testAll tree.lowerTags base tests = testAll tree base tests
  | _, [], _ => rfl
  | base, first :: rest, hfree => by
    funext node run
    simp only [testAll, Predicate.test_lowerTags base first hfree.1,
      testAll_lowerTags (base + first.flags.length) rest hfree.2]
termination_by structural _ tests => tests

/-- The stage of a part is the same. -/
theorem Part.stage_lowerTags : ∀ (base : Nat) (part : Part), part.CallerFree →
    part.stage tree.lowerTags base = part.stage tree base
  | base, ⟨depth, predicate⟩, hfree =>
    congrArg (Stage.mk depth) (Predicate.test_lowerTags base predicate hfree)
termination_by structural _ part => part

/-- The stages of a list of parts are the same. -/
theorem stagesOf_lowerTags : ∀ (base : Nat) (parts : List Part), PartsCallerFree parts →
    stagesOf tree.lowerTags base parts = stagesOf tree base parts
  | _, [], _ => rfl
  | base, part :: rest, hfree =>
    congrArg₂ List.cons (Part.stage_lowerTags base part hfree.1)
      (stagesOf_lowerTags (base + part.flags.length) rest hfree.2)
termination_by structural _ parts => parts

/-- The stages of a selector are the same. -/
theorem Selector.stages_lowerTags : ∀ (base : Nat) (selector : Selector), selector.CallerFree →
    selector.stages tree.lowerTags base = selector.stages tree base
  | base, ⟨head, rest⟩, hfree =>
    congrArg₂ Prod.mk (Part.stage_lowerTags base head hfree.1)
      (stagesOf_lowerTags (base + head.flags.length) rest hfree.2)
termination_by structural _ selector => selector

end

end

section

variable (tree : Tree) (node : NodeId)

/-- A selector of the library begins the same search. -/
theorem Selector.search_lowerTags {selector : Selector} (hfree : selector.CallerFree) (base : Nat) :
    selector.search tree.lowerTags base node = selector.search tree base node := by
  rw [Selector.search, Selector.search, Selector.stages_lowerTags tree base selector hfree]
  exact Search.start_lowerTags tree node _ _

/-- A selector of the library finds the same nodes. -/
theorem Selector.findAll_lowerTags {selector : Selector} (hfree : selector.CallerFree) :
    selector.findAll tree.lowerTags node = selector.findAll tree node := by
  rw [Selector.findAll, Selector.findAll, Selector.search_lowerTags tree node hfree, Search.collect_lowerTags]

/-- A selector of the library finds the same node first. -/
theorem Selector.findFirst_lowerTags {selector : Selector} (hfree : selector.CallerFree) :
    selector.findFirst tree.lowerTags node = selector.findFirst tree node := by
  rw [Selector.findFirst, Selector.findFirst, Selector.search_lowerTags tree node hfree,
    Search.next_lowerTags]

end

/-- After one step, next steps that agree on what it may give make no difference. -/
theorem Plain.bind_congr {α β : Type} {first : Except Selector.Error α}
    {next next' : α → Except Selector.Error β}
    (h : ∀ value, first = .ok value → next value = next' value) :
    first.bind next = first.bind next' := by
  cases first with
  | error error => rfl
  | ok value => exact h value rfl

/-- A text compiles like itself with its tags in lower case. -/
theorem compiled_lowerTags (text : String) : compiled (Text.lowerTags text) = compiled text := by
  have hcompiled (text : String) : compiled text = Plain.compileWithin Functions.nestingLimit text :=
    (Plain.gives_compileWithin Functions.nestingLimit text).outcome
  rw [hcompiled, hcompiled, Plain.compileWithin_lowerTags]

namespace Tree

section

variable (tree : Tree) (root : NodeId) (text : String)

/-- A query for all nodes has the outcome of the selector. -/
theorem selectAll_outcome : (tree.selectAll root (.text text) .empty).outcome.1 =
    (compiled text).bind fun selector => .ok (selector.findAll tree root) :=
  (Compilation.gives_bind (gives_compile text) fun selector =>
    Compilation.gives_pure (selector.findAll tree root)).outcome

/-- A query for the first node has the outcome of the selector. -/
theorem selectFirst_outcome : (tree.selectFirst root (.text text) .empty).outcome.1 =
    (compiled text).bind fun selector => .ok (selector.findFirst tree root) :=
  (Compilation.gives_bind (gives_compile text) fun selector =>
    Compilation.gives_pure (selector.findFirst tree root)).outcome

/-- A test of a node has the outcome of the predicate. -/
theorem nodeMatches_outcome : (tree.nodeMatches root (.text text) .empty).outcome.1 =
    ((compiled text).bind Selector.toPredicate).bind fun predicate => .ok (predicate.answer tree root) :=
  (Compilation.gives_bind (gives_compileSimple text) fun predicate =>
    Compilation.gives_pure (predicate.answer tree root)).outcome

/-- In lower case queries have the same outcomes. -/
theorem outcomes_lowerTags :
    (tree.lowerTags.selectAll root (.text (Text.lowerTags text)) .empty).outcome.1 =
        (tree.selectAll root (.text text) .empty).outcome.1 ∧
      (tree.lowerTags.selectFirst root (.text (Text.lowerTags text)) .empty).outcome.1 =
        (tree.selectFirst root (.text text) .empty).outcome.1 ∧
      (tree.lowerTags.nodeMatches root (.text (Text.lowerTags text)) .empty).outcome.1 =
        (tree.nodeMatches root (.text text) .empty).outcome.1 := by
  rw [selectAll_outcome, selectAll_outcome, selectFirst_outcome, selectFirst_outcome, nodeMatches_outcome,
    nodeMatches_outcome, compiled_lowerTags]
  refine ⟨Plain.bind_congr fun selector h => ?all, Plain.bind_congr fun selector h => ?first,
    Plain.bind_congr fun predicate h => ?test⟩
  case all => rw [Selector.findAll_lowerTags tree root (callerFree_of_compiled h)]
  case first => rw [Selector.findFirst_lowerTags tree root (callerFree_of_compiled h)]
  case test =>
    obtain ⟨selector, hcompiled, hsimple⟩ := Plain.bind_eq_ok_iff.mp h
    have hfree := callerFree_of_compiled hcompiled
    rw [Grammar.toPredicate_eq_ok_iff.mp hsimple] at hfree
    rw [Predicate.answer, Predicate.answer, Predicate.test_lowerTags tree 0 predicate hfree.1]

end

/-- Trees and texts that differ only in the case of tags: the texts compile to the same selector or fail
with the same error, and every query on the one tree with the one text has the outcome of the query on the
other tree with the other text, the flags at the end included. -/
theorem results_of_tag_case {tree tree' : Tree} {text text' : String}
    (htree : tree'.lowerTags = tree.lowerTags) (htext : Text.lowerTags text' = Text.lowerTags text) :
    compiled text' = compiled text ∧
      ∀ root, (tree'.selectAll root (.text text') .empty).outcome.1 =
          (tree.selectAll root (.text text) .empty).outcome.1 ∧
        (tree'.selectFirst root (.text text') .empty).outcome.1 =
          (tree.selectFirst root (.text text) .empty).outcome.1 ∧
        (tree'.nodeMatches root (.text text') .empty).outcome.1 =
          (tree.nodeMatches root (.text text) .empty).outcome.1 := by
  constructor
  · rw [← compiled_lowerTags text', htext, compiled_lowerTags]
  · intro root
    have houtcomes := tree'.outcomes_lowerTags root text'
    rw [htree, htext] at houtcomes
    obtain ⟨hall, hfirst, hmatches⟩ := tree.outcomes_lowerTags root text
    exact ⟨houtcomes.1.symm.trans hall, houtcomes.2.1.symm.trans hfirst,
      houtcomes.2.2.symm.trans hmatches⟩

/-- An element inside of an element, with these tags. -/
def tagged (outer inner : String) : Tree :=
  ⟨#[⟨.document, none, [1], none, none⟩, ⟨.element outer .empty, some 0, [2], none, none⟩,
    ⟨.element inner .empty, some 1, [], none, none⟩]⟩

/-- A text finds the inner element. So does a text with another case inside of a parameter, in a tree with
tags of another case. -/
theorem results_tagged :
    ((tagged "UL" "li").found root "ul > li:not(B):first").toOption = some [2] ∧
      ((tagged "ul" "Li").found root "ul > li:not(b):first").toOption = some [2] := by
  have hlower (outer inner : String) :
      (tagged outer inner).lowerTags = tagged (Text.lower outer) (Text.lower inner) := by
    simp [lowerTags, tagged, NodeKind.lowerTag]
  have htree : (tagged "ul" "Li").lowerTags = (tagged "UL" "li").lowerTags := by
    rw [hlower, hlower]
    exact congrArg₂ tagged (by decide) (by decide)
  have hopens : Text.beginsCompound "ul > li:not(".toList = true := by decide
  have htext : Text.lowerTags ("ul > li:not(" ++ "b" ++ "):first") =
      Text.lowerTags ("ul > li:not(" ++ "B" ++ "):first") :=
    Text.lowerTags_tag "):first" hopens (by decide) (by decide)
  have hsmall : "ul > li:not(" ++ "b" ++ "):first" = "ul > li:not(b):first" := by decide
  have hcapital : "ul > li:not(" ++ "B" ++ "):first" = "ul > li:not(B):first" := by decide
  rw [hsmall, hcapital] at htext
  have hfound : ((tagged "UL" "li").found root "ul > li:not(B):first").toOption = some [2] := by
    decide +kernel
  have hall := ((results_of_tag_case htree htext).2 root).1
  refine ⟨hfound, ?_⟩
  rw [found, hall]
  exact hfound

end Tree

end TreeQuery
