import TreeQuery.Command.Run
import TreeQuery.Proofs.Query.Outcome

/-!
# The modes of a query on the command line

Without `--matches` a command line lists the matches of its selector. Three of its flags say how: all
matches or the first alone, their outer or their inner markup, the markup or the number of lines. All
these runs come to one listing, the tree that is read and the nodes that the selector finds in it: each
fails where the listing fails and shows its own part of it otherwise.

The one flag that reaches into the search is `--first`, which stops it early. What it has found by then
is the beginning of what it would have found in the end, for a search hands out its finds one by one and
every run starts with fresh flags.

Nothing here depends on how a text is decoded, nor on what the decoder has to say about a text that writes
no tree: all runs ask it about the same text, and those that fail there tell its words.

Main statement: `modes_agree`, that a run with neither `--first` nor `--count` tells what all other runs
with the same selector show, and whether they fail or warn.
-/

namespace TreeQuery

section

variable (tree : Tree) (count : Nat)

/-- The first finds of a search are those that all its finds begin with. -/
theorem Search.take_eq (search : Search) (run : Run) :
    (search.take tree count run).1 = (search.collect tree run).1.take count := by
  induction count generalizing search run with
  | zero => rfl
  | succ count ih =>
    rw [Search.take, Search.collect_eq]
    rcases search.next tree run with ⟨_ | ⟨node, after⟩, later⟩
    · rfl
    · exact congrArg (node :: ·) (ih after later)

/-- The first finds of a fresh selector are those that all its finds begin with. -/
theorem Selector.findSome_eq (selector : Selector) (node : NodeId) :
    (selector.findSome tree node count).1 = (selector.findAll tree node).1.take count :=
  Search.take_eq tree count (selector.search tree 0 node) selector.freshRun

/-- The first finds of a text are those that all its finds begin with, and asking for some of them
fails where asking for all does. -/
theorem Tree.selectSome_outcome (node : NodeId) (text : String) :
    (tree.selectSome node (.text text) .empty count).outcome.1.map Prod.fst =
      (tree.found node text).map (List.take count) := by
  have hgives := Compilation.gives_bind (gives_compile text)
    fun selector => Compilation.gives_pure (selector.findSome tree node count)
  have houtcome : (tree.selectSome node (.text text) .empty count).outcome.1 = _ := hgives.outcome
  rw [houtcome, Tree.found_eq_map]
  cases compiled text with
  | error error => rfl
  | ok selector => exact congrArg Except.ok (selector.findSome_eq tree count node)

end

namespace Command

/-- What a failed compilation fails with, once a message is put in front. -/
theorem withContext_eq {α : Type} (message : String) (compilation : Compilation α) :
    withContext message compilation =
      compilation.outcome.1.mapError fun error => ⟨message, some error.message⟩ := by
  rw [withContext]
  cases compilation.outcome.1 <;> rfl

/-- The failure of a query whose selector does not compile. -/
def invalidSelector (selector : String) (error : Selector.Error) : Failure :=
  ⟨"invalid selector '" ++ selector ++ "'", some error.message⟩

section

variable (decode : Decoder)

/-- The tree that a text writes and the nodes that a selector finds in it, or why there are none. -/
def listing (selector : String) (text : Except Failure String) : Except Failure (Tree × List NodeId) :=
  text.bind fun json =>
    ((Tree.ofText decode json).mapError fun error => ⟨error.message, error.cause⟩).bind fun tree =>
      ((tree.found Tree.root selector).mapError (invalidSelector selector)).map (Prod.mk tree)

variable {decode}

/-- A listing holds what the selector finds in the tree that the text writes. -/
theorem listing_eq_ok_iff {selector : String} {text : Except Failure String} {tree : Tree}
    {nodes : List NodeId} :
    listing decode selector text = .ok (tree, nodes) ↔
      ∃ json, text = .ok json ∧ Tree.ofText decode json = .ok tree ∧
        tree.found Tree.root selector = .ok nodes := by
  constructor
  · intro h
    cases text with
    | error failure => nomatch h
    | ok json =>
      rw [listing, Except.bind] at h
      cases hparse : Tree.ofText decode json with
      | error error =>
        rw [hparse] at h
        nomatch h
      | ok parsed =>
        rw [hparse, Except.mapError, Except.bind] at h
        cases hfound : parsed.found Tree.root selector with
        | error error =>
          rw [hfound] at h
          nomatch h
        | ok found =>
          rw [hfound] at h
          cases h
          exact ⟨json, rfl, hparse, hfound⟩
  · rintro ⟨json, rfl, hparse, hfound⟩
    rw [listing, Except.bind, hparse, Except.mapError, Except.bind, hfound]
    rfl

/-- The warning of a run is always new, for a run remembers no warning of another. -/
theorem warning_eq (selector : String) :
    warning selector = [Warnings.line "CLI" ("'" ++ selector ++ "' matched nothing")] :=
  rfl

namespace Options

variable (decode) (options : Options)

/-- What is shown where these are the lines of all matches. -/
def shown (lines : List String) : Output :=
  if options.has .count then .count (if options.has .first then min 1 lines.length else lines.length)
  else .markup (if options.has .first then lines.take 1 else lines)

/-- The lines of nodes. -/
def lines (tree : Tree) (nodes : List NodeId) : List String :=
  nodes.map (if options.has .inner then tree.innerMarkup else tree.outerMarkup)

/-- The nodes that are looked at, of all that could be found. -/
def considered (nodes : List NodeId) : List NodeId := if options.has .first then nodes.take 1 else nodes

/-- A search finds what its text finds, or the first node of that. -/
theorem find_eq (tree : Tree) :
    options.find tree = ((tree.found Tree.root options.selector).map options.considered).mapError
      (invalidSelector options.selector) := by
  have hfind (compilation : Compilation (List NodeId × Run)) :
      (do return (← withContext s!"invalid selector '{options.selector}'" compilation).1) =
        (compilation.outcome.1.map Prod.fst).mapError (invalidSelector options.selector) := by
    rw [withContext_eq]
    cases compilation.outcome.1 <;> rfl
  apply (hfind _).trans
  apply congrArg (Except.mapError (invalidSelector options.selector))
  unfold considered
  cases options.has .first with
  | true => exact tree.selectSome_outcome 1 Tree.root options.selector
  | false => exact (id_map (tree.found Tree.root options.selector)).symm

/-- What is shown of all matches is what has been looked at. -/
theorem shown_lines (tree : Tree) (nodes : List NodeId) :
    options.shown (options.lines tree nodes) =
      if options.has .count then .count (options.considered nodes).length
      else .markup ((options.considered nodes).map (options.markupOf tree)) := by
  have hmarkup : options.markupOf tree =
      if options.has .inner then tree.innerMarkup else tree.outerMarkup := by
    funext node
    rw [markupOf]
    split <;> rfl
  simp only [shown, lines, considered, hmarkup]
  cases options.has .first <;> simp [List.map_take]

/-- A search shows its part of what its text finds, and has nothing to show where that is nothing. -/
theorem search_eq (tree : Tree) :
    options.search tree =
      ((tree.found Tree.root options.selector).mapError (invalidSelector options.selector)).map
        fun nodes => ⟨options.shown (options.lines tree nodes), nodes.isEmpty⟩ := by
  rw [search, find_eq]
  cases tree.found Tree.root options.selector with
  | error error => rfl
  | ok nodes =>
    have hempty : nodes.isEmpty = (options.considered nodes).isEmpty := by
      unfold considered
      cases nodes <;> cases options.has .first <;> rfl
    apply congrArg Except.ok
    dsimp only
    rw [shown_lines, hempty]

/-- Without `--matches` a query shows its part of the listing. -/
theorem answer_eq (h : options.has .matches = false) (text : Except Failure String) :
    text.bind (options.answer decode) = (listing decode options.selector text).map fun listed =>
      ⟨options.shown (options.lines listed.1 listed.2), listed.2.isEmpty⟩ := by
  cases text with
  | error failure => rfl
  | ok json =>
    rw [listing, Except.bind, Except.bind, answer, h]
    cases Tree.ofText decode json with
    | error error => rfl
    | ok tree =>
      apply (options.search_eq tree).trans
      rw [Except.mapError, Except.bind]
      cases tree.found Tree.root options.selector <;> rfl

variable {decode} {options}

/-- A failed query leaves its report behind. -/
theorem run_of_error {text : Except Failure String} {failure : Failure}
    (h : text.bind (options.answer decode) = .error failure) :
    options.run decode text = ⟨1, "", failure.report⟩ := by
  rw [run, h]

/-- A query that gives an answer leaves its lines behind, and a warning where there are none. -/
theorem run_of_ok {text : Except Failure String} {answer : Answer}
    (h : text.bind (options.answer decode) = .ok answer) :
    options.run decode text = ⟨0, unlines answer.output.lines,
      if answer.nothingMatched then
        unlines [Warnings.line "CLI" ("'" ++ options.selector ++ "' matched nothing")]
      else ""⟩ := by
  rw [run, h]
  dsimp only
  rw [warning_eq]
  cases answer.nothingMatched <;> rfl

end Options

end

/-- A run with neither `--first` nor `--count` tells all other runs with the same selector. Where it fails
they fail alike, with the same message and the same cause. Where it lists lines, these are the markup of what the selector finds below the document,
and the other runs show the first of them, their number or both, as their flags say; they warn exactly
where there is no line. -/
theorem modes_agree (decode : Decoder) (plain : Options) (hfirst : plain.has .first = false)
    (hcount : plain.has .count = false) (hmatches : plain.has .matches = false)
    (text : Except Failure String) :
    (∀ failure, text.bind (plain.answer decode) = .error failure →
      ∀ options : Options, options.selector = plain.selector → options.has .matches = false →
        text.bind (options.answer decode) = .error failure ∧
        options.run decode text = ⟨1, "", failure.report⟩) ∧
    (∀ answer, text.bind (plain.answer decode) = .ok answer →
      ∃ json tree nodes, text = .ok json ∧ Tree.ofText decode json = .ok tree ∧
        tree.found Tree.root plain.selector = .ok nodes ∧
        answer.output = .markup (plain.lines tree nodes) ∧
        ∀ options : Options, options.selector = plain.selector → options.has .matches = false →
          text.bind (options.answer decode) =
            .ok ⟨options.shown (options.lines tree nodes), nodes.isEmpty⟩ ∧
          options.run decode text = ⟨0, unlines (options.shown (options.lines tree nodes)).lines,
            if nodes.isEmpty then
              unlines [Warnings.line "CLI" ("'" ++ plain.selector ++ "' matched nothing")]
            else ""⟩) := by
  have hplain := plain.answer_eq decode hmatches text
  -- What the plain run gives decides the listing, and that decides all runs.
  cases hlisting : listing decode plain.selector text with
  | error error =>
    rw [hlisting] at hplain
    constructor
    · intro failure hfails options hselector hlists
      have hanswer : text.bind (options.answer decode) = .error failure := by
        rw [options.answer_eq decode hlists, hselector, hlisting]
        exact hplain.symm.trans hfails
      exact ⟨hanswer, Options.run_of_error hanswer⟩
    · intro answer hgives
      nomatch hplain.symm.trans hgives
  | ok listed =>
    rw [hlisting] at hplain
    constructor
    · intro failure hfails
      nomatch hplain.symm.trans hfails
    · intro answer hgives
      obtain ⟨json, htext, hparse, hfound⟩ := listing_eq_ok_iff.mp hlisting
      have hshown : answer = ⟨plain.shown (plain.lines listed.1 listed.2), listed.2.isEmpty⟩ :=
        Except.ok.inj (hgives.symm.trans hplain)
      refine ⟨json, listed.1, listed.2, htext, hparse, hfound, ?_, ?_⟩
      · rw [hshown, Options.shown, hfirst, hcount]
        rfl
      · intro options hselector hlists
        have hanswer : text.bind (options.answer decode) =
            .ok ⟨options.shown (options.lines listed.1 listed.2), listed.2.isEmpty⟩ := by
          rw [options.answer_eq decode hlists, hselector, hlisting]
          rfl
        have hrun := Options.run_of_ok hanswer
        rw [hselector] at hrun
        exact ⟨hanswer, hrun⟩

/-- A decoder that knows one fault. -/
def endedEarly : Decoder := fun _ => .error (some "EOF while parsing an object at line 1 column 1")

/-- Two texts below a document are two matches of a star, and one if the first alone is asked for. For a text
that ends too early all that the decoder has to say is told. -/
theorem modes_agree_star :
    let json := "[\"document\",[[\"text\",\"x\"],[\"text\",\"y\"]]]"
    (⟨json, "*", [.count]⟩ : Options).answer Outline.ofJson json = .ok ⟨.count 2, false⟩ ∧
      (⟨json, "*", [.first, .count]⟩ : Options).answer Outline.ofJson json = .ok ⟨.count 1, false⟩ ∧
      (⟨"\x7b", "*", [.count]⟩ : Options).run endedEarly (.ok "\x7b") = ⟨1, "",
        "Error: invalid tree JSON\n\nCaused by:\n    EOF while parsing an object at line 1 column 1\n"⟩ := by
  intro json
  have hlisted : (listing Outline.ofJson "*" (.ok json)).toOption.map Prod.snd = some [1, 2] := by
    decide +kernel
  have hplain := (⟨json, "*", []⟩ : Options).answer_eq Outline.ofJson rfl (.ok json)
  have hagree := modes_agree Outline.ofJson ⟨json, "*", []⟩ rfl rfl rfl (.ok json)
  have hended : (⟨"\x7b", "*", [.count]⟩ : Options).run endedEarly (.ok "\x7b") = _ :=
    ((modes_agree endedEarly ⟨"\x7b", "*", []⟩ rfl rfl rfl (.ok "\x7b")).1 _ rfl _ rfl rfl).2
  have hreport : Failure.report ⟨"invalid tree JSON", some "EOF while parsing an object at line 1 column 1"⟩ =
      "Error: invalid tree JSON\n\nCaused by:\n    EOF while parsing an object at line 1 column 1\n" := by
    decide +kernel
  cases hlisting : listing Outline.ofJson "*" (.ok json) with
  | error error =>
    rw [hlisting] at hlisted
    nomatch hlisted
  | ok listed =>
    rw [hlisting] at hplain
    obtain ⟨_, tree, nodes, hjson, hparse, hfound, -, hruns⟩ := hagree.2 _ hplain
    rw [listing_eq_ok_iff.mpr ⟨_, hjson, hparse, hfound⟩] at hlisted
    have hnodes : nodes = [1, 2] := Option.some.inj hlisted
    have hcount := (hruns ⟨json, "*", [.count]⟩ rfl rfl).1
    have hfirst := (hruns ⟨json, "*", [.first, .count]⟩ rfl rfl).1
    rw [hnodes] at hcount hfirst
    exact ⟨hcount, hfirst, hended.trans (congrArg (Outcome.mk 1 "") hreport)⟩

end Command

end TreeQuery
