import TreeQuery.Proofs.Search.Turns

/-!
# Searches that leave no choice

The turns of a walk, the tests of a predicate and the calls of a search are said by what they may come to.
They never have a choice: at most one turn goes on from the layers of a walk, and so a test, a call, or all
calls up to the first without a find come to one thing at most. What comes to something has then no other way
to go, and no way to go on for ever.

Main statement: all calls of a search come to the same finds, however they are said to.
-/

namespace TreeQuery.Turns

/-- Testing a node comes to one answer at most, and leaves one run at most. -/
def Determined (asks : Asking) : Prop :=
  ∀ ⦃node : NodeId⦄ ⦃run last last' : Run⦄ ⦃answer answer' : Bool⦄,
    asks node run answer last → asks node run answer' last' → answer = answer' ∧ last = last'

/-- The test of a level and those of the stages behind it have no choice. -/
def Level.Determined (level : Level) : Prop :=
  Turns.Determined level.asks ∧ ∀ stage ∈ level.rest, Turns.Determined stage.asks

variable {tree : Tree}

/-- No two turns go on from the same layers. -/
theorem Turn.unique {walk after after' : List Layer} {taken taken' : Option NodeId}
    (turn : Turn tree walk taken after) (other : Turn tree walk taken' after') :
    taken = taken' ∧ after = after' := by
  cases turn with
  | leave =>
    cases other
    exact ⟨rfl, rfl⟩
  | down hbound =>
    cases other with
    | down => exact ⟨rfl, rfl⟩
    | flat hlevels => exact absurd hlevels (Nat.not_le_of_lt (hbound _ rfl))
  | flat hlevels =>
    cases other with
    | down hbound => exact absurd hlevels (Nat.not_le_of_lt (hbound _ rfl))
    | flat => exact ⟨rfl, rfl⟩

/-- Looking for the next match of a walk comes to one thing at most. -/
theorem NextMatch.unique {asks : Asking} (hasks : Determined asks) {walk : List Layer} {run last last' : Run}
    {outcome outcome' : Option (NodeId × List Layer)} (hmatch : NextMatch tree asks walk run outcome last)
    (other : NextMatch tree asks walk run outcome' last') : outcome = outcome' ∧ last = last' := by
  induction hmatch with
  | exhausted =>
    cases other with
    | exhausted => exact ⟨rfl, rfl⟩
    | leave turn | hit turn | miss turn => cases turn
  | leave turn _ ih =>
    cases other with
    | exhausted => cases turn
    | leave turn' rest' =>
      obtain ⟨-, rfl⟩ := turn.unique turn'
      exact ih rest'
    | hit turn' | miss turn' => cases (turn.unique turn').1
  | hit turn answer =>
    cases other with
    | exhausted => cases turn
    | leave turn' => cases (turn.unique turn').1
    | hit turn' answer' =>
      obtain ⟨⟨⟩, rfl⟩ := turn.unique turn'
      exact ⟨rfl, (hasks answer answer').2⟩
    | miss turn' answer' =>
      obtain ⟨⟨⟩, rfl⟩ := turn.unique turn'
      cases (hasks answer answer').1
  | miss turn answer _ ih =>
    cases other with
    | exhausted => cases turn
    | leave turn' => cases (turn.unique turn').1
    | hit turn' answer' =>
      obtain ⟨⟨⟩, rfl⟩ := turn.unique turn'
      cases (hasks answer answer').1
    | miss turn' answer' rest' =>
      obtain ⟨⟨⟩, rfl⟩ := turn.unique turn'
      obtain ⟨-, rfl⟩ := hasks answer answer'
      exact ih rest'

/-- A level that begins with a stage has no choice if the stages of the chain have none. -/
theorem determined_enter (tree : Tree) {stage : Stage} {rest : List Stage}
    (h : ∀ stage' ∈ stage :: rest, Determined stage'.asks) (node : NodeId) :
    (enter tree node stage rest).Determined :=
  List.forall_mem_cons.mp h

/-- After a call that came to a find the levels have no choice either. -/
theorem NextFind.determined {levels : List Level} {run last : Run} {outcome : Option (NodeId × List Level)}
    (hfind : NextFind tree levels run outcome last) (h : ∀ level ∈ levels, level.Determined) :
    ∀ found ∈ outcome, ∀ level ∈ found.2, level.Determined := by
  induction hfind with
  | exhausted => simp
  | leave _ _ ih => exact ih (List.forall_mem_cons.mp h).2
  | find =>
    intro found hfound
    obtain rfl := Option.mem_some_iff.mp hfound
    exact List.forall_mem_cons.mpr ⟨(List.forall_mem_cons.mp h).1, (List.forall_mem_cons.mp h).2⟩
  | enter hnext _ _ ih =>
    obtain ⟨hlevel, hbelow⟩ := List.forall_mem_cons.mp h
    exact ih (List.forall_mem_cons.mpr
      ⟨determined_enter tree (hnext ▸ hlevel.2) _, List.forall_mem_cons.mpr ⟨hlevel, hbelow⟩⟩)

/-- A call for the next find comes to one thing at most. -/
theorem NextFind.unique {levels : List Level} {run last last' : Run}
    {outcome outcome' : Option (NodeId × List Level)} (hfind : NextFind tree levels run outcome last)
    (h : ∀ level ∈ levels, level.Determined) (other : NextFind tree levels run outcome' last') :
    outcome = outcome' ∧ last = last' := by
  induction hfind with
  | exhausted =>
    cases other
    exact ⟨rfl, rfl⟩
  | leave walk _ ih =>
    obtain ⟨hlevel, hbelow⟩ := List.forall_mem_cons.mp h
    cases other with
    | leave walk' others' =>
      obtain ⟨-, rfl⟩ := walk.unique hlevel.1 walk'
      exact ih hbelow others'
    | find _ walk' | enter _ walk' => cases (walk.unique hlevel.1 walk').1
  | find hlast walk =>
    obtain ⟨hlevel, -⟩ := List.forall_mem_cons.mp h
    cases other with
    | leave walk' => cases (walk.unique hlevel.1 walk').1
    | find _ walk' =>
      obtain ⟨⟨⟩, rfl⟩ := walk.unique hlevel.1 walk'
      exact ⟨rfl, rfl⟩
    | enter hnext => cases hlast.symm.trans hnext
  | enter hnext walk _ ih =>
    obtain ⟨hlevel, hbelow⟩ := List.forall_mem_cons.mp h
    cases other with
    | leave walk' => cases (walk.unique hlevel.1 walk').1
    | find hlast => cases hlast.symm.trans hnext
    | enter hnext' walk' others' =>
      obtain ⟨⟨⟩, rfl⟩ := walk.unique hlevel.1 walk'
      obtain ⟨⟨⟩⟩ := hnext.symm.trans hnext'
      exact ih (List.forall_mem_cons.mpr
        ⟨determined_enter tree (hnext ▸ hlevel.2) _, List.forall_mem_cons.mpr ⟨hlevel, hbelow⟩⟩) others'

/-- Calls up to the first one without a find come to the same finds and the same run. -/
theorem Exhausts.unique {levels : List Level} {run last last' : Run} {finds finds' : List NodeId}
    (hfinds : Exhausts tree levels run finds last) (h : ∀ level ∈ levels, level.Determined)
    (other : Exhausts tree levels run finds' last') : finds = finds' ∧ last = last' := by
  induction hfinds generalizing finds' with
  | done call =>
    cases other with
    | done call' => exact ⟨rfl, (call.unique h call').2⟩
    | find call' => cases (call.unique h call').1
  | find call _ ih =>
    cases other with
    | done call' => cases (call.unique h call').1
    | find call' others' =>
      obtain ⟨⟨⟩, rfl⟩ := call.unique h call'
      obtain ⟨rfl, rfl⟩ := ih (call.determined h _ rfl) others'
      exact ⟨rfl, rfl⟩

mutual

/-- Testing a node with a predicate has no choice. -/
theorem determined_answers : ∀ (base : Nat) (predicate : Predicate), Determined (Answers tree base predicate)
  | _, .always | _, .tag _ | _, .id _ | _, .hasClass _ | _, .custom _ => fun _ _ _ _ _ _ h h' =>
    ⟨h.1.trans h'.1.symm, h.2.trans h'.2.symm⟩
  | base, .all tests => determined_answersAll base tests
  | base, .not inner => fun _ _ _ _ _ _ h h' =>
    (determined_answers base inner h h').imp_left Bool.not_inj
  | base, .has selector => fun node _ _ _ _ _ h h' => by
    obtain ⟨found, hfind, rfl⟩ := h
    obtain ⟨found', hfind', rfl⟩ := h'
    have hlevel := determined_enter tree (determined_stages base selector) node
    obtain ⟨rfl, rfl⟩ := hfind.unique (List.forall_mem_singleton.mpr hlevel) hfind'
    exact ⟨rfl, rfl⟩
  | _, .first _ => fun _ _ _ _ _ _ h h' => Prod.mk.inj (h.trans h'.symm)
termination_by structural _ predicate => predicate

/-- Making tests in order has no choice. -/
theorem determined_answersAll : ∀ (base : Nat) (tests : List Predicate),
    Determined (AnswersAll tree base tests)
  | _, [] => fun _ _ _ _ _ _ h h' => ⟨h.1.trans h'.1.symm, h.2.trans h'.2.symm⟩
  | base, first :: rest => fun _ _ _ _ _ _ h h' => by
    have hfirst : Determined (Answers tree base first) := determined_answers base first
    rcases h with ⟨middle, hpass, hrest⟩ | ⟨hfail, rfl⟩ <;>
      rcases h' with ⟨middle', hpass', hrest'⟩ | ⟨hfail', rfl⟩
    · obtain ⟨-, rfl⟩ := hfirst hpass hpass'
      exact determined_answersAll (base + first.flags.length) rest hrest hrest'
    · cases (hfirst hpass hfail').1
    · cases (hfirst hfail hpass').1
    · exact ⟨rfl, (hfirst hfail hfail').2⟩
termination_by structural _ tests => tests

/-- The test of a part has no choice. -/
theorem determined_stage : ∀ (base : Nat) (part : Part), Determined (stage tree base part).asks
  | base, ⟨_, predicate⟩ => determined_answers base predicate
termination_by structural _ part => part

/-- The tests of parts have no choice. -/
theorem determined_stagesOf : ∀ (base : Nat) (parts : List Part),
    ∀ stage ∈ stagesOf tree base parts, Determined stage.asks
  | _, [] => fun _ h => by cases h
  | base, part :: rest => List.forall_mem_cons.mpr
    ⟨determined_stage base part, determined_stagesOf (base + part.flags.length) rest⟩
termination_by structural _ parts => parts

/-- The tests of a selector have no choice. -/
theorem determined_stages : ∀ (base : Nat) (selector : Selector),
    ∀ stage ∈ (stages tree base selector).1 :: (stages tree base selector).2, Determined stage.asks
  | base, ⟨head, rest⟩ => List.forall_mem_cons.mpr
    ⟨determined_stage base head, determined_stagesOf (base + head.flags.length) rest⟩
termination_by structural _ selector => selector

end

/-- Whatever the calls of a search come to, they come to nothing else. -/
theorem exhausts_search_unique {base : Nat} {selector : Selector} {node : NodeId} {run last last' : Run}
    {finds finds' : List NodeId} (h : Exhausts tree (search tree base selector node) run finds last)
    (h' : Exhausts tree (search tree base selector node) run finds' last') : finds = finds' ∧ last = last' :=
  h.unique (List.forall_mem_singleton.mpr (determined_enter tree (determined_stages base selector) node)) h'

end TreeQuery.Turns
