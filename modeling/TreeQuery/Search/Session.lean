import TreeQuery.Search.Query

/-!
# Sessions: selectors shared by many searches

A session holds a tree and selectors that were compiled once. Searches over them are opened,
advanced and dropped in any order, and all of them share the flags of the selectors: a `first` that
has fired in one search is spent for the others. Each selector has a stretch of the flags. Selectors
that have nothing in common have stretches of their own; those of a selector and of a part of it, which
is a selector as well, overlap.
-/

namespace TreeQuery

/-- A search that was opened in a session. -/
inductive Cursor where
  /-- A search for a selector. -/
  | searching (search : Search)
  /-- A walk that keeps the nodes which pass a test. -/
  | walking (test : Test) (walk : Walk)
  /-- Nothing is left of a search that was dropped. -/
  | dropped

/-- The state of a session. -/
structure Session where
  tree : Tree
  /-- The selectors, each with the first of its flags. -/
  selectors : List (Selector × Nat)
  cursors : List Cursor
  run : Run

namespace Cursor

/-- The next node of a cursor. -/
def next (tree : Tree) (run : Run) : Cursor → Option NodeId × Cursor × Run
  | .searching search =>
    match search.next tree run with
    | (none, run) => (none, .searching [], run)
    | (some (node, search), run) => (some node, .searching search, run)
  | .walking test walk =>
    match walk.next tree test run with
    | (none, run) => (none, .walking test [], run)
    | (some (node, walk), run) => (some node, .walking test walk, run)
  | .dropped => (none, .dropped, run)

/-- The next nodes of a cursor, as many as asked for. -/
def take (tree : Tree) : Nat → Run → Cursor → List NodeId × Cursor × Run
  | 0, run, cursor => ([], cursor, run)
  | count + 1, run, cursor =>
    match cursor.next tree run with
    | (none, cursor, run) => ([], cursor, run)
    | (some node, cursor, run) =>
      let (nodes, cursor, run) := take tree count run cursor
      (node :: nodes, cursor, run)

end Cursor

namespace Session

/-- The session that begins with selectors which may overlap, and with their flags as a run has them. -/
def sharing (tree : Tree) (selectors : List (Selector × Nat)) (run : Run) : Session :=
  ⟨tree, selectors, [], run⟩

/-- Selectors without a flag in common: the stretch of each begins where that of the one before ends. -/
def apart (base : Nat) : List Selector → List (Selector × Nat)
  | [] => []
  | selector :: rest => (selector, base) :: apart (base + selector.flags.length) rest

/-- The session that begins with fresh selectors, which have no flag in common. -/
def start (tree : Tree) (selectors : List Selector) : Session :=
  sharing tree (apart 0 selectors) (.ofFlags (selectors.flatMap Selector.flags))

/-- One step of a session, where selectors and cursors go by their place in their list. -/
inductive Step where
  /-- Open a search for a selector below a node. -/
  | select (selector : Nat) (node : NodeId)
  /-- Open a walk that keeps what passes the first predicate of a selector, down to a depth. -/
  | enumerate (selector : Nat) (node : NodeId) (depth : Option Nat)
  | next (cursor : Nat)
  | take (cursor : Nat) (count : Nat)
  | drop (cursor : Nat)
  /-- Collect all finds of a selector below a node. -/
  | all (selector : Nat) (node : NodeId)
  /-- The first find of a selector below a node. -/
  | first (selector : Nat) (node : NodeId)
  /-- Whether a node passes a selector, which has to be a single test. -/
  | nodeMatches (selector : Nat) (node : NodeId)
  /-- Whether a node passes the first predicate of a selector. -/
  | test (selector : Nat) (node : NodeId)
  /-- Look at a selector with its flags as they are. -/
  | look (selector : Nat)

/-- What a step of a session answers. -/
inductive Answer where
  | opened (cursor : Nat)
  | found (node : Option NodeId)
  | collected (nodes : List NodeId)
  | dropped
  | truth (answer : Bool)
  | refused (error : Selector.Error)
  | selector (selector : Selector)
  /-- The step names a selector or cursor that the session does not have. -/
  | missing

/-- Open a cursor, which gets the next free place. -/
def addCursor (session : Session) (cursor : Cursor) : Answer × Session :=
  (.opened session.cursors.length, { session with cursors := session.cursors ++ [cursor] })

/-- Let a step act on a selector. -/
def withSelector (session : Session) (index : Nat)
    (act : Selector → Nat → Answer × Session) : Answer × Session :=
  match session.selectors[index]? with
  | none => (.missing, session)
  | some (selector, base) => act selector base

/-- Let a step act on a cursor, which is put back as the step leaves it. -/
def withCursor (session : Session) (index : Nat)
    (act : Cursor → Answer × Cursor × Run) : Answer × Session :=
  match session.cursors[index]? with
  | none => (.missing, session)
  | some cursor =>
    let (answer, cursor, run) := act cursor
    (answer, { session with cursors := session.cursors.set index cursor, run })

/-- Make one step. -/
def step (session : Session) : Step → Answer × Session
  | .select index node =>
    session.withSelector index fun selector base =>
      session.addCursor (.searching (selector.search session.tree base node))
  | .enumerate index node depth =>
    session.withSelector index fun selector base =>
      session.addCursor
        (.walking (selector.head.predicate.test session.tree base) (.start session.tree node depth))
  | .next index =>
    session.withCursor index fun cursor =>
      let (node, cursor, run) := cursor.next session.tree session.run
      (.found node, cursor, run)
  | .take index count =>
    session.withCursor index fun cursor =>
      let (nodes, cursor, run) := cursor.take session.tree count session.run
      (.collected nodes, cursor, run)
  | .drop index => session.withCursor index fun _ => (.dropped, .dropped, session.run)
  | .all index node =>
    session.withSelector index fun selector base =>
      let (nodes, run) := (selector.search session.tree base node).collect session.tree session.run
      (.collected nodes, { session with run })
  | .first index node =>
    session.withSelector index fun selector base =>
      let (found, run) := (selector.search session.tree base node).next session.tree session.run
      (.found (found.map Prod.fst), { session with run })
  | .nodeMatches index node =>
    session.withSelector index fun selector base =>
      match selector.toPredicate with
      | .error error => (.refused error, session)
      | .ok predicate =>
        let (answer, run) := predicate.test session.tree base node session.run
        (.truth answer, { session with run })
  | .test index node =>
    session.withSelector index fun selector base =>
      let (answer, run) := selector.head.predicate.test session.tree base node session.run
      (.truth answer, { session with run })
  | .look index =>
    session.withSelector index fun selector base =>
      (.selector (selector.withFlags session.run.fired base), session)

/-- Make steps one after another. Each answer comes with the events of its step, in order. -/
def steps (session : Session) : List Step → List (Answer × List Event) × Session
  | [] => ([], session)
  | step :: rest =>
    let (answer, after) := { session with run := session.run.forget }.step step
    let (answers, last) := after.steps rest
    ((answer, after.run.log) :: answers, last)

end Session

end TreeQuery
