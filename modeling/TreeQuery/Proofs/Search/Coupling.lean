import Mathlib.Data.List.GetD
import TreeQuery.Proofs.Search.Confinement
import TreeQuery.Proofs.Search.Recursive

/-!
# Two searches along the same stages

Two searches that go down along the same stages, and do different things only below the last of them,
make the same tests at the same nodes. What is done below in one of them must not disturb these tests:
it asks flags of its own. Then whatever relates what is done below one node in the one and in the other
relates the two searches as a whole, provided it is a relation that goes on from one place to the next.

Main statement: two searches along the same stages are coupled if what follows the stages is.
-/

namespace TreeQuery

/-- Flags that a confined action does not own are as they were. -/
theorem Confined.alike_of_disjoint {α : Type} {own theirs : Nat → Prop} {act : Run → α × Run}
    (h : Confined own act) (hdisjoint : ∀ flag, own flag → ¬ theirs flag) (run : Run) :
    Run.Alike theirs run (act run).2 := by
  obtain ⟨list, hlist, hmoves⟩ := h.exists_moves run
  intro flag hflag
  rw [hmoves]
  exact (run.fired_moves_of_not_own hlist fun hown => hdisjoint flag hown hflag).symm

theorem Run.Alike.trans {own : Nat → Prop} {first second third : Run} (h : Run.Alike own first second)
    (h' : Run.Alike own second third) : Run.Alike own first third := fun flag hflag =>
  (h flag hflag).trans (h' flag hflag)

/-- Flags behind others leave the others as they are. -/
theorem Run.alike_ofFlags_append (first second : List Bool) :
    Run.Alike (Stretch 0 first.length) (.ofFlags first) (.ofFlags (first ++ second)) := by
  intro flag hflag
  exact (List.getD_append _ _ _ _ (by simpa using hflag.2)).symm

/-- The finds of one trace and another are those of the two together. -/
theorem Trace.nodes_andThen (trace : Trace) (next : Run → Trace) :
    (trace.andThen next).nodes = trace.nodes ++ (next trace.last).nodes := List.map_append

namespace Recursive

variable {tree : Tree}

/-- Search below a node along a chain of stages, and go on from every find of the last one. -/
def searchThen (h : tree.Acyclic) (found : NodeId → Run → Trace) : List Stage → NodeId → Run → Trace
  | [], node => found node
  | stage :: rest, node => descend h stage.test (searchThen h found rest) stage.depth node

/-- A search along stages one behind the other goes on along the second ones from the finds of the
first. -/
theorem search_append (h : tree.Acyclic) (first second : List Stage) :
    search h (first ++ second) = searchThen h (search h second) first := by
  induction first with
  | nil => rfl
  | cons stage rest ih =>
    funext node
    rw [List.cons_append, search, searchThen, ih]

/-- A relation between the finds of one search, the run in which another begins, its finds and the run
that it leaves. It holds where nothing is found, goes on from one search to the next, and leaves it open
what is done to other flags than `theirs` before the other search begins. -/
structure Joins (theirs : Nat → Prop) (relation : List NodeId → Run → List NodeId → Run → Prop) : Prop where
  done : ∀ run, relation [] run [] run
  append : ∀ {finds run others between more others' last}, relation finds run others between →
    relation more between others' last → relation (finds ++ more) run (others ++ others') last
  before : ∀ {first run finds others last}, Run.Alike theirs first run → relation finds run others last →
    relation finds first others last

/-- Two searches are coupled by a relation when it holds of what they do in runs with the same flags up,
and these flags develop alike in both. -/
def Coupled (own : Nat → Prop) (relation : List NodeId → Run → List NodeId → Run → Prop)
    (one other : Run → Trace) : Prop :=
  ∀ left right, Run.Alike own left right →
    relation (one left).nodes right (other right).nodes (other right).last ∧
      Run.Alike own (one left).last (other right).last

variable {own theirs : Nat → Prop} {relation : List NodeId → Run → List NodeId → Run → Prop}

namespace Coupled

/-- Two searches that find nothing are coupled. -/
theorem done (hjoins : Joins theirs relation) : Coupled own relation .done .done :=
  fun _ right halike => ⟨hjoins.done right, halike⟩

/-- Coupled searches one after another are coupled. -/
theorem andThen (hjoins : Joins theirs relation) {one other one' other' : Run → Trace}
    (h : Coupled own relation one other) (h' : Coupled own relation one' other') :
    Coupled own relation (fun run => (one run).andThen one') (fun run => (other run).andThen other') := by
  intro left right halike
  obtain ⟨hnodes, hlast⟩ := h left right halike
  obtain ⟨hnodes', hlast'⟩ := h' (one left).last (other right).last hlast
  rw [Trace.nodes_andThen, Trace.nodes_andThen]
  exact ⟨hjoins.append hnodes hnodes', hlast'⟩

/-- Searches that are coupled at every place of a list are coupled. -/
theorem each {α : Type} (hjoins : Joins theirs relation) {one other : α → Run → Trace} {places : List α}
    (h : ∀ place ∈ places, Coupled own relation (one place) (other place)) :
    Coupled own relation (Trace.each one places) (Trace.each other places) := by
  induction places with
  | nil => exact .done hjoins
  | cons place rest ih =>
    have hrest := ih fun other hother => h other (List.mem_cons_of_mem place hother)
    exact (h place List.mem_cons_self).andThen hjoins hrest

/-- What follows a test that holds may be coupled, if the test asks none of `theirs`. -/
theorem of_test (hjoins : Joins theirs relation) (hdisjoint : ∀ flag, own flag → ¬ theirs flag)
    {act : Run → Bool × Run} (hact : Confined own act) {one other : Run → Trace}
    (h : Coupled own relation one other) :
    Coupled own relation (fun run => if (act run).1 then one (act run).2 else .done (act run).2)
      (fun run => if (act run).1 then other (act run).2 else .done (act run).2) := by
  intro left right halike
  obtain ⟨hvalue, hruns⟩ := hact left right halike
  have hown := hruns.alike halike
  -- the test may put up flags of its own, which the relation does not look at
  have hframe := hact.alike_of_disjoint hdisjoint right
  simp only [← hvalue]
  cases (act left).1 with
  | false => exact ⟨hjoins.before hframe (hjoins.done _), hown⟩
  | true =>
    obtain ⟨hnodes, hlast⟩ := h (act left).2 (act right).2 hown
    exact ⟨hjoins.before hframe hnodes, hlast⟩

/-- Ways down are coupled where what is done at every child is. -/
theorem descend (h : tree.Acyclic) (hjoins : Joins theirs relation) {test test' : Test}
    {found found' : NodeId → Run → Trace}
    (hhere : ∀ child, Coupled own relation
      (fun run => if (test child run).1 then found child (test child run).2 else .done (test child run).2)
      (fun run => if (test' child run).1 then found' child (test' child run).2
        else .done (test' child run).2))
    (depth : Option Nat) (node : NodeId) :
    Coupled own relation (Recursive.descend h test found depth node)
      (Recursive.descend h test' found' depth node) := by
  -- a child is searched one level less deep, so the depth stays open on the way down
  induction node using h.wellFounded.induction generalizing depth with
  | h node ih =>
    rw [descend_eq, descend_eq]
    split
    · exact .done hjoins
    · exact .each hjoins fun child hchild => (hhere child).andThen hjoins (ih child hchild _)

/-- Two searches along the same stages are coupled where what follows the stages is. -/
theorem searchThen (h : tree.Acyclic) (hjoins : Joins theirs relation)
    (hdisjoint : ∀ flag, own flag → ¬ theirs flag) {stages : List Stage}
    (hstages : ∀ stage ∈ stages, stage.test.Confined own) {found found' : NodeId → Run → Trace}
    (hfound : ∀ node, Coupled own relation (found node) (found' node)) (node : NodeId) :
    Coupled own relation (Recursive.searchThen h found stages node)
      (Recursive.searchThen h found' stages node) := by
  induction stages generalizing node with
  | nil => exact hfound node
  | cons stage rest ih =>
    obtain ⟨hstage, hrest⟩ := List.forall_mem_cons.mp hstages
    exact .descend h hjoins (fun child => .of_test hjoins hdisjoint (hstage child) (ih hrest child)) _ node

end Coupled

end Recursive

end TreeQuery
