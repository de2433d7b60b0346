import TreeQuery.Command.Options
import TreeQuery.Command.ReadError
import TreeQuery.Markup
import TreeQuery.Outline.Decode
import TreeQuery.Search.Query
import TreeQuery.Warnings

/-!
# Running a command line

A run is a function of the options and of the text of the tree, which whoever starts the program has
read. It either fails with an error and perhaps the cause of it, or gives one output, and perhaps a
warning. Only then is anything put into words for the terminal.

The decoder of the text is open. What it has to say about a text that writes no tree is the cause of that
failure, and is told as it comes.
-/

namespace TreeQuery.Command

/-- What a query gives. -/
inductive Output where
  /-- Whether the document element passes the selector. -/
  | truth (answer : Bool)
  /-- The number of matches. -/
  | count (matched : Nat)
  /-- The markup of the matches. -/
  | markup (lines : List String)

/-- Why a query fails, and the cause of that. -/
structure Failure where
  message : String
  cause : Option String

/-- What a query gives, and whether it warns that nothing matched. -/
structure Answer where
  output : Output
  nothingMatched : Bool

/-- What the program leaves behind: its exit code and what it writes to its two streams. -/
structure Outcome where
  exit : Nat
  standardOutput : String
  standardError : String

/-- The outcome of a compilation whose failure is told with a message in front. -/
def withContext {α : Type} (message : String) (compilation : Compilation α) : Except Failure α :=
  match compilation.outcome.1 with
  | .ok value => .ok value
  | .error error => .error ⟨message, some error.message⟩

namespace Options

/-- Test the document element of a tree. -/
def testElement (options : Options) (tree : Tree) : Except Failure Answer := do
  let selector := options.selector
  match tree.documentElement with
  | none => throw ⟨"the tree has no element to test", none⟩
  | some element =>
    let (answer, _) ← withContext s!"cannot test selector '{selector}'"
      (tree.nodeMatches element (.text selector) .empty)
    return ⟨.truth answer, false⟩

/-- The nodes that the selector finds in a tree, or the first of them if no more are asked for. -/
def find (options : Options) (tree : Tree) : Except Failure (List NodeId) := do
  let selector := options.selector
  let found ← withContext s!"invalid selector '{selector}'"
    (if options.has .first then tree.selectSome Tree.root (.text selector) .empty 1
    else tree.selectAll Tree.root (.text selector) .empty)
  return found.1

/-- The markup of a match. -/
def markupOf (options : Options) (tree : Tree) (node : NodeId) : String :=
  if options.has .inner then tree.innerMarkup node else tree.outerMarkup node

/-- Search a tree. -/
def search (options : Options) (tree : Tree) : Except Failure Answer := do
  let nodes ← options.find tree
  let output : Output :=
    if options.has .count then .count nodes.length
    else .markup (nodes.map (options.markupOf tree))
  return ⟨output, nodes.isEmpty⟩

/-- Make a query on the text of a tree. -/
def answer (decode : Decoder) (options : Options) (text : String) : Except Failure Answer :=
  match Tree.ofText decode text with
  | .error error => .error ⟨error.message, error.cause⟩
  | .ok tree => if options.has .matches then options.testElement tree else options.search tree

end Options

/-- The lines of an output. -/
def Output.lines : Output → List String
  | .truth true => [Text.coloured .green "true"]
  | .truth false => [Text.coloured .red "false"]
  | .count matched => [toString matched]
  | .markup lines => lines

/-- Lines, each with its end. -/
def unlines (lines : List String) : String := String.join (lines.map (· ++ "\n"))

/-- A text with four blanks in front of every line of it. -/
def indented (text : String) : String :=
  "    " ++ .ofList (text.toList.flatMap fun c => if c = '\n' then "\n    ".toList else [c])

/-- A failure as it is told, with its cause below it. -/
def Failure.report (failure : Failure) : String :=
  let message := failure.message
  match failure.cause with
  | none => s!"Error: {message}\n"
  | some cause =>
    let lines := indented cause
    s!"Error: {message}\n\nCaused by:\n{lines}\n"

/-- The warning that a selector matched nothing, if it is new. -/
def warning (selector : String) : List String :=
  let message := s!"'{selector}' matched nothing"
  if (Warnings.empty.warn "CLI" message).1 then [Warnings.line "CLI" message] else []

/-- The outcome of a query on the text of a tree, or of the failure to read that text. -/
def Options.run (decode : Decoder) (options : Options) (text : Except Failure String) : Outcome :=
  match text.bind (options.answer decode) with
  | .error failure => ⟨1, "", failure.report⟩
  | .ok answer =>
    ⟨0, unlines answer.output.lines,
      unlines (if answer.nothingMatched then warning options.selector else [])⟩

/-- The failure to read a tree from a path. -/
def unreadable (path : String) (cause : ReadError) : Failure :=
  ⟨s!"failed to read tree from '{path}'", some cause.message⟩

/-- The program and its version. -/
def versionLine : String := "thicket 0.1.0"

/-- How the program is used. -/
def helpLines : List String :=
  ["Run Thicket selectors against JSON document trees",
    "",
    "Usage: thicket [OPTIONS] <TREE> <SELECTOR>",
    "",
    "Arguments:",
    "  <TREE>      Path to the JSON tree (or the JSON itself with --html-json)",
    "  <SELECTOR>  Selector to run",
    "",
    "Options:",
    "      --first      Print only the first match",
    "      --matches    Test whether the document element matches a simple selector",
    "      --inner      Print inner HTML instead of outer HTML",
    "      --count      Print the number of matches instead of the matches",
    "      --html-json  Treat TREE as inline JSON instead of a path",
    "  -h, --help       Print help",
    "  -V, --version    Print version",
    "",
    "EXAMPLES:",
    "    # Every span below a .nav element",
    "    thicket page.json '.nav span'",
    "",
    "    # Inner HTML of the first direct child list item",
    "    thicket page.json 'ul > li' --first --inner",
    "",
    "    # Count elements that have no link inside",
    "    thicket page.json 'p:not(:has(a))' --count",
    "",
    "    # Test the document element",
    "    thicket page.json 'html#root' --matches",
    "",
    "    # Inline tree",
    "    thicket --html-json '\x7b\"type\":\"element\",\"tagName\":\"p\"\x7d' p"]

/-- The outcome of a command line; `decode` reads trees from texts, and `read` gives the text at a path,
or the cause why there is none. -/
def Invocation.outcomeWith (decode : Decoder) (invocation : Invocation)
    (read : String → Except ReadError String) : Outcome :=
  match invocation with
  | .version => ⟨0, unlines [versionLine], ""⟩
  | .help => ⟨0, unlines helpLines, ""⟩
  | .misuse error => ⟨2, "", unlines [error.message]⟩
  | .query options =>
    options.run decode
      (if options.has .htmlJson then .ok options.tree
      else (read options.tree).mapError (unreadable options.tree))

/-- The outcome of a command line whose trees are decoded here. -/
def Invocation.outcome (invocation : Invocation) (read : String → Except ReadError String) : Outcome :=
  invocation.outcomeWith Outline.ofJson read

/-- The path that a command line reads its tree from, if it reads one. -/
def Invocation.path? : Invocation → Option String
  | .query options => if options.has .htmlJson then none else some options.tree
  | _ => none

end TreeQuery.Command
