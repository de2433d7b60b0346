import TreeQuery.Proofs.Search.Determined
import TreeQuery.Proofs.Search.Pulls
import TreeQuery.Proofs.Tree.Preorder

/-!
# Bounded searches on any arena

Where every part of a selector has a bound, a search comes to its end on every arena, whatever cycles the
children make and however many lists a node stands in. Each layer of a walk has a bound that is one less than
that of the layer underneath, so there are no more layers than the bound of the part. A child that a walk has
still to visit lies at the end of a path, and the levels that its layer may still go down are levels that
this path is shorter than it may be.

Main statement: every call of a bounded search comes to something, after finitely many calls there is no find
left, and each find lies on a path of at least one step for each part and at most as many steps as the bounds
add up to.
-/

namespace TreeQuery

namespace Turns

variable {tree : Tree}

/-- The layers of a walk with a bound. Each has a bound of its own, and one level for each layer underneath
it is used up. -/
def Ladder (depth : Nat) : List Layer → Prop
  | [] => True
  | layer :: below =>
    (∃ levels, layer.bound = some levels ∧ 1 ≤ levels ∧ levels + below.length ≤ depth) ∧ Ladder depth below

/-- A walk that has just begun has one layer at most. -/
theorem ladder_start (node : NodeId) (depth : Nat) : Ladder depth (start tree node (some depth)) := by
  rw [start]
  split
  next => trivial
  next hpos => exact ⟨⟨depth, rfl, Nat.pos_of_ne_zero fun heq => hpos (congrArg some heq), Nat.le_refl depth⟩, trivial⟩

/-- A turn makes layers of layers. -/
theorem Turn.ladder {depth : Nat} {walk after : List Layer} {taken : Option NodeId}
    (turn : Turn tree walk taken after) (h : Ladder depth walk) : Ladder depth after := by
  cases turn with
  | leave => exact h.2
  | down hbound =>
    obtain ⟨⟨levels, rfl, hpos, hle⟩, hbelow⟩ := h
    have hdeeper : 1 < levels := hbound levels rfl
    refine ⟨⟨levels - 1, rfl, ?_, ?_⟩, ⟨levels, rfl, hpos, hle⟩, hbelow⟩
    · omega
    · simp only [List.length_cons]
      omega
  | flat => exact h

/-- A ladder has no more layers than its bound, and the bound of each of them is at least 1. -/
theorem Ladder.bounds {depth : Nat} {walk : List Layer} (h : Ladder depth walk) :
    walk.length ≤ depth ∧
      ∀ layer ∈ walk, ∃ levels, layer.bound = some levels ∧ 1 ≤ levels ∧ levels ≤ depth := by
  induction walk with
  | nil => exact ⟨Nat.zero_le depth, by simp⟩
  | cons layer below ih =>
    obtain ⟨⟨levels, hbound, hpos, hle⟩, hbelow⟩ := h
    refine ⟨?_, List.forall_mem_cons.mpr ⟨⟨levels, hbound, hpos, ?_⟩, (ih hbelow).2⟩⟩
    · rw [List.length_cons]
      omega
    · omega

/-- One walk becomes another by a turn. -/
def Moves (tree : Tree) (walk after : List Layer) : Prop := ∃ taken, Turn tree walk taken after

/-- Whatever turns a walk with a bound takes, it has no more layers than that, and no bound of a layer falls
below 1. -/
theorem bounds_of_moves {node : NodeId} {depth : Nat} {walk : List Layer}
    (h : Relation.ReflTransGen (Moves tree) (start tree node (some depth)) walk) :
    walk.length ≤ depth ∧
      ∀ layer ∈ walk, ∃ levels, layer.bound = some levels ∧ 1 ≤ levels ∧ levels ≤ depth := by
  refine Ladder.bounds ?_
  induction h with
  | refl => exact ladder_start node depth
  | tail _ hturn ih =>
    obtain ⟨taken, hturn⟩ := hturn
    exact hturn.ladder ih

/-- When a walk of the library advances, its layers take turns. -/
theorem moves_of_advance {walk after : Walk} {node : NodeId} (h : walk.advance tree = some (node, after)) :
    Relation.ReflTransGen (Moves tree) (layers walk) (layers after) := by
  obtain ⟨middle, hleaves, hturn⟩ := exists_turn_of_advance h
  exact (Relation.ReflTransGen.mono (fun _ _ hleave => ⟨none, hleave⟩) _ _ hleaves).tail ⟨some node, hturn⟩

/-- However far a walk of the library with a bound has advanced, it has no more frames than that, and no bound
of a frame is below 1. -/
theorem bounds_of_advance {node : NodeId} {depth : Nat} {walk : Walk}
    (h : Relation.ReflTransGen (fun walk after => ∃ found, Walk.advance tree walk = some (found, after))
      (.start tree node (some depth)) walk) :
    walk.length ≤ depth ∧ ∀ frame ∈ walk, 1 ≤ frame.bound ∧ frame.bound ≤ depth := by
  have hmoves : Relation.ReflTransGen (Moves tree) (start tree node (some depth)) (layers walk) := by
    rw [start_eq rfl]
    induction h with
    | refl => exact .refl
    | tail _ hadvance ih =>
      obtain ⟨found, hadvance⟩ := hadvance
      exact ih.trans (moves_of_advance hadvance)
  obtain ⟨hlength, hbounds⟩ := bounds_of_moves hmoves
  refine ⟨by rwa [layers, List.length_map] at hlength, fun frame hframe => ?_⟩
  obtain ⟨levels, heq, hpos, hle⟩ := hbounds _ (List.mem_map_of_mem hframe)
  obtain rfl := Option.some.inj heq
  exact ⟨hpos, hle⟩

/-- A path from the root of a number of steps that is no less than one number and no more than another. -/
def Between (tree : Tree) (root : NodeId) (least most : Nat) (node : NodeId) : Prop :=
  ∃ count, least ≤ count ∧ count ≤ most ∧ tree.Below count root node

/-- The children that a walk has still to visit, and those that it may go down to from there, lie on paths
from a root whose number of steps is between two numbers. -/
def Spans (tree : Tree) (root : NodeId) (least most : Nat) (walk : List Layer) : Prop :=
  ∀ layer ∈ walk, ∃ levels, layer.bound = some levels ∧ 1 ≤ levels ∧
    ∀ child ∈ layer.pending, ∃ count, least ≤ count ∧ count + levels ≤ most + 1 ∧ tree.Below count root child

variable {root : NodeId} {least most : Nat}

/-- A walk that begins at the end of a path goes on from there. -/
theorem spans_start {count depth : Nat} {node : NodeId} (path : tree.Below count root node) :
    Spans tree root (count + 1) (count + depth) (start tree node (some depth)) := by
  intro layer hlayer
  rw [start] at hlayer
  split at hlayer
  next => cases hlayer
  next hpos =>
    obtain rfl := List.mem_singleton.mp hlayer
    refine ⟨depth, rfl, Nat.pos_of_ne_zero fun heq => hpos (congrArg some heq), fun child hchild => ?_⟩
    exact ⟨count + 1, Nat.le_refl _, by omega, path.snoc hchild⟩

/-- The child that a turn takes lies between the two numbers, and what the walk has still to visit does. -/
theorem Turn.spans {walk after : List Layer} {taken : Option NodeId} (turn : Turn tree walk taken after)
    (h : Spans tree root least most walk) :
    (∀ child ∈ taken, Between tree root least most child) ∧ Spans tree root least most after := by
  cases turn with
  | leave => exact ⟨by simp, fun layer hlayer => h layer (List.mem_cons_of_mem _ hlayer)⟩
  | @down child pending bound below hbound =>
    obtain ⟨⟨levels, rfl, hpos, hpending⟩, hbelow⟩ := List.forall_mem_cons.mp h
    obtain ⟨⟨count, hleast, hmost, path⟩, hrest⟩ := List.forall_mem_cons.mp hpending
    have hdeeper : 1 < levels := hbound levels rfl
    refine ⟨fun other hother => ?_, List.forall_mem_cons.mpr
      ⟨⟨levels - 1, rfl, by omega, fun lower hlower => ?_⟩, List.forall_mem_cons.mpr
        ⟨⟨levels, rfl, hpos, hrest⟩, hbelow⟩⟩⟩
    · obtain rfl := Option.mem_some_iff.mp hother
      exact ⟨count, hleast, by omega, path⟩
    · exact ⟨count + 1, by omega, by omega, path.snoc hlower⟩
  | @flat child pending bound below hbound =>
    obtain ⟨⟨levels, heq, hpos, hpending⟩, hbelow⟩ := List.forall_mem_cons.mp h
    obtain ⟨⟨count, hleast, hmost, path⟩, hrest⟩ := List.forall_mem_cons.mp hpending
    refine ⟨fun other hother => ?_, List.forall_mem_cons.mpr ⟨⟨levels, heq, hpos, hrest⟩, hbelow⟩⟩
    obtain rfl := Option.mem_some_iff.mp hother
    exact ⟨count, hleast, by omega, path⟩

/-- A match of a walk lies between the two numbers, and what the walk has still to visit does. -/
theorem NextMatch.spans {asks : Asking} {walk : List Layer} {run last : Run}
    {outcome : Option (NodeId × List Layer)} (hmatch : NextMatch tree asks walk run outcome last)
    (h : Spans tree root least most walk) :
    ∀ found ∈ outcome, Between tree root least most found.1 ∧ Spans tree root least most found.2 := by
  induction hmatch with
  | exhausted => simp
  | leave turn _ ih => exact ih (turn.spans h).2
  | hit turn _ =>
    intro found hfound
    obtain rfl := Option.mem_some_iff.mp hfound
    exact ⟨(turn.spans h).1 _ rfl, (turn.spans h).2⟩
  | miss turn _ _ ih => exact ih (turn.spans h).2

/-- The bounds of parts, added up. -/
def reach (depths : List (Option Nat)) : Nat := (depths.map fun depth => depth.getD 0).foldr (· + ·) 0

/-- What a level has still to visit lies on paths from a root that leave at least one step for each stage
behind it, and the steps that these may go down. -/
def LevelSpans (tree : Tree) (root : NodeId) (least most : Nat) (level : Level) : Prop :=
  (∀ depth ∈ level.rest.map Stage.depth, depth.isSome = true) ∧
    ∃ low high, least ≤ low + level.rest.length ∧ high + reach (level.rest.map Stage.depth) ≤ most ∧
      Spans tree root low high level.walk

/-- A stage with a bound that begins at the end of a path spans what lies a step and more below it. -/
theorem levelSpans_enter {count : Nat} {node : NodeId} {stage : Stage} {rest : List Stage}
    (hdepths : ∀ depth ∈ (stage :: rest).map Stage.depth, depth.isSome = true)
    (path : tree.Below count root node) (hleast : least ≤ count + (stage :: rest).length)
    (hmost : count + reach ((stage :: rest).map Stage.depth) ≤ most) :
    LevelSpans tree root least most (Turns.enter tree node stage rest) := by
  obtain ⟨hstage, hrest⟩ := List.forall_mem_cons.mp hdepths
  obtain ⟨depth, hdepth⟩ := Option.isSome_iff_exists.mp hstage
  rw [List.length_cons] at hleast
  rw [reach, List.map_cons, List.map_cons, List.foldr_cons, hdepth, Option.getD_some, ← reach] at hmost
  refine ⟨hrest, count + 1, count + depth, ?_, ?_, ?_⟩
  · change least ≤ count + 1 + rest.length
    omega
  · change count + depth + reach (rest.map Stage.depth) ≤ most
    omega
  · rw [enter, hdepth]
    exact spans_start path

/-- A find of a search lies between the two numbers, and so does what the search has still to visit. -/
theorem NextFind.spans {levels : List Level} {run last : Run} {outcome : Option (NodeId × List Level)}
    (hfind : NextFind tree levels run outcome last)
    (h : ∀ level ∈ levels, LevelSpans tree root least most level) :
    ∀ found ∈ outcome, Between tree root least most found.1 ∧
      ∀ level ∈ found.2, LevelSpans tree root least most level := by
  induction hfind with
  | exhausted => simp
  | leave _ _ ih => exact ih (List.forall_mem_cons.mp h).2
  | @find level below node after run last hlast walk =>
    intro found hfound
    obtain rfl := Option.mem_some_iff.mp hfound
    obtain ⟨⟨hdepths, low, high, hlow, hhigh, hspans⟩, hbelow⟩ := List.forall_mem_cons.mp h
    obtain ⟨⟨count, hleast, hmost, path⟩, hafter⟩ := walk.spans hspans _ rfl
    refine ⟨⟨count, ?_, ?_, path⟩, List.forall_mem_cons.mpr ⟨⟨hdepths, low, high, hlow, hhigh, hafter⟩, hbelow⟩⟩
    · rw [hlast, List.length_nil] at hlow
      omega
    · omega
  | @enter level below stage rest node after run middle last outcome hnext walk _ ih =>
    obtain ⟨⟨hdepths, low, high, hlow, hhigh, hspans⟩, hbelow⟩ := List.forall_mem_cons.mp h
    obtain ⟨⟨count, hleast, hmost, path⟩, hafter⟩ := walk.spans hspans _ rfl
    have hentered : LevelSpans tree root least most (Turns.enter tree node stage rest) := by
      rw [hnext] at hdepths hlow hhigh
      exact levelSpans_enter hdepths path (by omega) (by omega)
    exact ih (List.forall_mem_cons.mpr ⟨hentered,
      List.forall_mem_cons.mpr ⟨⟨hdepths, low, high, hlow, hhigh, hafter⟩, hbelow⟩⟩)

/-- All finds of a search lie between the two numbers. -/
theorem Exhausts.between {levels : List Level} {run last : Run} {finds : List NodeId}
    (hfinds : Exhausts tree levels run finds last)
    (h : ∀ level ∈ levels, LevelSpans tree root least most level) :
    ∀ node ∈ finds, Between tree root least most node := by
  induction hfinds with
  | done => simp
  | find call _ ih =>
    obtain ⟨hnode, hafter⟩ := call.spans h _ rfl
    exact List.forall_mem_cons.mpr ⟨hnode, ih hafter⟩

/-- The stage of a part has the depth of the part. -/
theorem stage_depth (base : Nat) (part : Part) : (stage tree base part).depth = part.depth := by
  cases part
  rfl

/-- The stages of parts have the depths of the parts. -/
theorem map_depth_stagesOf (base : Nat) (parts : List Part) :
    (stagesOf tree base parts).map Stage.depth = parts.map Part.depth := by
  induction parts generalizing base with
  | nil => rfl
  | cons part rest ih => rw [stagesOf, List.map_cons, List.map_cons, stage_depth, ih]

/-- Every part of a list has a bound if the parts are bounded all through. -/
theorem isSome_depth_of_throughout {parts : List Part}
    (h : PartsThroughout AnyTest (fun depth => depth.isSome = true) parts) :
    ∀ depth ∈ parts.map Part.depth, depth.isSome = true := by
  induction parts with
  | nil => simp
  | cons part rest ih =>
    obtain ⟨depth, predicate⟩ := part
    exact List.forall_mem_cons.mpr ⟨h.1.1, ih h.2⟩

/-- The search for a bounded selector spans what lies at least as many steps below the root as the selector
has parts, and at most as many as its bounds add up to. -/
theorem levelSpans_search {selector : Selector} (hbounded : selector.Bounded) (base : Nat) (root : NodeId) :
    ∀ level ∈ search tree base selector root,
      LevelSpans tree root selector.parts.length (reach (selector.parts.map Part.depth)) level := by
  obtain ⟨head, rest⟩ := selector
  have hdepths : (stage tree base head :: stagesOf tree (base + head.flags.length) rest).map Stage.depth =
      (head :: rest).map Part.depth := map_depth_stagesOf base (head :: rest)
  refine List.forall_mem_singleton.mpr (levelSpans_enter ?_ (.here root) ?_ ?_)
  · rw [hdepths]
    exact isSome_depth_of_throughout hbounded
  · rw [← List.length_map Stage.depth, hdepths, List.length_map, Nat.zero_add]
    rfl
  · rw [hdepths, Nat.zero_add]
    rfl

end Turns

/-- A search gives its finds one by one and then nothing for ever. -/
theorem pulls_searching (tree : Tree) (count : Nat) (paused : Search) (run : Run) :
    (Cursor.pulls tree count run (.searching paused)).1 =
      (List.range count).map ((paused.collect tree run).1[·]?) := by
  induction count generalizing paused run with
  | zero => rfl
  | succ count ih =>
    rw [Search.collect_eq, List.range_succ_eq_map, List.map_cons, List.map_map]
    simp only [Cursor.pulls, Cursor.next]
    rcases paused.next tree run with ⟨_ | ⟨node, after⟩, run'⟩
    · refine congrArg (none :: ·) ((ih [] run').trans ?_)
      simp [Search.collect_eq tree [], Search.next, Function.comp_def]
    · exact congrArg (some node :: ·) (ih after run')

/-- A search for a selector all of whose parts have bounds ends on every arena, whatever its root and its run
are. Its calls come to finitely many finds and then to none, and to nothing else; these are the finds of the
library, which gives them one by one and then nothing for ever. A walk with a bound has no more layers than
that whatever turns it takes, and no layer has a bound below 1; nor has a walk of the library more frames, or
a frame with a bound below 1. Each find lies at the end of a path from the
root with at least one step for each part and no more steps than the bounds add up to. -/
theorem bounded_search_ends (tree : Tree) {selector : Selector} (hbounded : selector.Bounded) (base : Nat)
    (root : NodeId) (run : Run) :
    (∃ finds last,
      Turns.Exhausts tree (Turns.search tree base selector root) run finds last ∧
        (∀ finds' last', Turns.Exhausts tree (Turns.search tree base selector root) run finds' last' →
          finds' = finds ∧ last' = last) ∧
        (selector.search tree base root).collect tree run = (finds, last) ∧
        (∀ count, (Cursor.pulls tree count run (.searching (selector.search tree base root))).1 =
          (List.range count).map (finds[·]?)) ∧
        ∀ node ∈ finds, ∃ count, selector.parts.length ≤ count ∧
          count ≤ (selector.parts.map fun part => part.depth.getD 0).foldr (· + ·) 0 ∧ tree.Below count root node) ∧
      (∀ node depth walk, Relation.ReflTransGen (Turns.Moves tree) (Turns.start tree node (some depth)) walk →
        walk.length ≤ depth ∧
          ∀ layer ∈ walk, ∃ levels, layer.bound = some levels ∧ 1 ≤ levels ∧ levels ≤ depth) ∧
      ∀ node depth walk, Relation.ReflTransGen
          (fun walk after => ∃ found, Walk.advance tree walk = some (found, after))
          (.start tree node (some depth)) walk →
        walk.length ≤ depth ∧ ∀ frame ∈ walk, 1 ≤ frame.bound ∧ frame.bound ≤ depth := by
  have hends : Turns.Exhausts tree (Turns.search tree base selector root) run _ _ :=
    Turns.exhausts_collect (Turns.search_settles hbounded base root) run
  refine ⟨⟨_, _, hends, fun finds last hother => Turns.exhausts_search_unique hother hends, rfl,
    fun count => pulls_searching tree count _ run, fun node hnode => ?_⟩,
    fun _ _ _ => Turns.bounds_of_moves, fun _ _ _ => Turns.bounds_of_advance⟩
  have hbetween := hends.between (Turns.levelSpans_search hbounded base root) node hnode
  rwa [Turns.Between, Turns.reach, List.map_map] at hbetween

/-- A document whose child is its own only child. -/
def ownChild : Tree := ⟨#[⟨.document, none, [1], none, none⟩, ⟨.text "a", some 1, [1], none, none⟩]⟩

/-- A child or grandchild that has a child, and a child of it. -/
def childOfParent : Selector :=
  ⟨⟨some 2, .has ⟨⟨some 1, .always⟩, []⟩⟩, [⟨some 1, .always⟩]⟩

/-- The search below the cycle ends after two finds, one for each time around that the bounds allow. -/
theorem bounded_search_ends_ownChild :
    childOfParent.Bounded ∧ ∃ last,
      Turns.Exhausts ownChild (Turns.search ownChild 0 childOfParent 0) childOfParent.freshRun [1, 1] last := by
  have hbounded : childOfParent.Bounded := by
    simp [childOfParent, Selector.Bounded, Selector.Throughout, Part.Throughout, Predicate.Throughout,
      PartsThroughout, AnyTest]
  have hfinds : ((childOfParent.search ownChild 0 0).collect ownChild childOfParent.freshRun).1 = [1, 1] := by
    have htop : ownChild.children 0 = [1] := rfl
    have hown : ownChild.children 1 = [1] := rfl
    simp [childOfParent, Selector.search, Selector.stages, stagesOf, Part.stage, Search.start,
      Search.enter, Search.collect_eq, Search.next_cons, Search.next, Walk.start, Walk.next_eq,
      Walk.advance, Predicate.test, htop, hown]
  obtain ⟨⟨finds, last, hends, -, hcollect, -⟩, -⟩ :=
    bounded_search_ends ownChild hbounded 0 0 childOfParent.freshRun
  obtain rfl : finds = [1, 1] := by rw [← hfinds, hcollect]
  exact ⟨hbounded, last, hends⟩

end TreeQuery
