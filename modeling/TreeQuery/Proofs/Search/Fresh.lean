import TreeQuery.Proofs.Search.Ownership

/-!
# Fresh selectors

A session may begin with selectors as they come from the compiler. No two of them share a flag, and the
flags are as the selectors say. So a look at one of them shows it as it was compiled, until a step on it
asks one of its flags.

This is a result about sessions in its own right, and nothing else is derived from it: whoever compiles
selectors and shows them later may rely on what they look like, whatever has been done with other selectors
in the meantime.

Main statements: what a fresh selector looks like, and which steps leave the flags of a selector alone.
-/

namespace TreeQuery

/-- From some place on, the flags are as in a list. -/
def FlagsAt (fired : Nat → Bool) (base : Nat) (flags : List Bool) : Prop :=
  ∀ offset flag, flags[offset]? = some flag → fired (base + offset) = flag

section

variable {fired : Nat → Bool} {base : Nat} {first rest : List Bool}

/-- The flags of the first part of a list. -/
theorem FlagsAt.left (h : FlagsAt fired base (first ++ rest)) : FlagsAt fired base first :=
  fun offset flag hflag => h offset flag (List.getElem?_append_left
    (List.getElem?_eq_some_iff.mp hflag).1 ▸ hflag)

/-- The flags of the part of a list behind a first part. -/
theorem FlagsAt.right (h : FlagsAt fired base (first ++ rest)) : FlagsAt fired (base + first.length) rest := by
  intro offset flag hflag
  rw [Nat.add_assoc]
  apply h
  rwa [List.getElem?_append_right (Nat.le_add_right _ _), Nat.add_sub_cancel_left]

end

mutual

/-- Where the flags are as a predicate says, it is shown as it is. -/
theorem Predicate.withFlags_self {fired : Nat → Bool} : ∀ (base : Nat) (predicate : Predicate),
    FlagsAt fired base predicate.flags → predicate.withFlags fired base = predicate
  | _, .always, _ => rfl
  | _, .tag _, _ => rfl
  | _, .id _, _ => rfl
  | _, .hasClass _, _ => rfl
  | base, .all tests, h => congrArg Predicate.all (testsWithFlags_self base tests h)
  | base, .not inner, h => congrArg Predicate.not (Predicate.withFlags_self base inner h)
  | base, .has selector, h => congrArg Predicate.has (Selector.withFlags_self base selector h)
  | _, .first _, h => congrArg Predicate.first (h 0 _ rfl)
  | _, .custom _, _ => rfl
termination_by structural _ predicate => predicate

/-- Where the flags are as tests say, the tests are shown as they are. -/
theorem testsWithFlags_self {fired : Nat → Bool} : ∀ (base : Nat) (tests : List Predicate),
    FlagsAt fired base (flagsOfTests tests) → testsWithFlags fired base tests = tests
  | _, [], _ => rfl
  | base, first :: rest, h => by
    rw [testsWithFlags, Predicate.withFlags_self base first h.left, testsWithFlags_self _ rest h.right]
termination_by structural _ tests => tests

/-- Where the flags are as a part says, it is shown as it is. -/
theorem Part.withFlags_self {fired : Nat → Bool} : ∀ (base : Nat) (part : Part),
    FlagsAt fired base part.flags → part.withFlags fired base = part
  | base, ⟨depth, predicate⟩, h => congrArg (Part.mk depth) (Predicate.withFlags_self base predicate h)
termination_by structural _ part => part

/-- Where the flags are as parts say, the parts are shown as they are. -/
theorem partsWithFlags_self {fired : Nat → Bool} : ∀ (base : Nat) (parts : List Part),
    FlagsAt fired base (flagsOfParts parts) → partsWithFlags fired base parts = parts
  | _, [], _ => rfl
  | base, part :: rest, h => by
    rw [partsWithFlags, Part.withFlags_self base part h.left, partsWithFlags_self _ rest h.right]
termination_by structural _ parts => parts

/-- Where the flags are as a selector says, it is shown as it is. -/
theorem Selector.withFlags_self {fired : Nat → Bool} : ∀ (base : Nat) (selector : Selector),
    FlagsAt fired base selector.flags → selector.withFlags fired base = selector
  | base, ⟨head, rest⟩, h => by
    rw [Selector.withFlags, Part.withFlags_self base head h.left, partsWithFlags_self _ rest h.right]
termination_by structural _ selector => selector

end

namespace Session

/-- Each selector of a list stands at its place, behind the flags of those before it. -/
theorem getElem?_apart (base index : Nat) (selectors : List Selector) :
    (apart base selectors)[index]? = selectors[index]?.map fun selector =>
      (selector, base + ((selectors.take index).flatMap Selector.flags).length) := by
  induction selectors generalizing base index with
  | nil => rfl
  | cons first rest ih =>
    cases index with
    | zero => rfl
    | succ index => simp [apart, ih, Nat.add_assoc]

/-- Every selector of a list is there, and no others. -/
theorem length_apart (base : Nat) (selectors : List Selector) :
    (apart base selectors).length = selectors.length := by
  induction selectors generalizing base with
  | nil => rfl
  | cons first rest ih => exact congrArg (· + 1) (ih _)

/-- A fresh selector is the one of the list, behind the flags of those before it. -/
theorem selectors_start (tree : Tree) (selectors : List Selector) (index : Nat) :
    (start tree selectors).selectors[index]? = selectors[index]?.map fun selector =>
      (selector, ((selectors.take index).flatMap Selector.flags).length) := by
  simpa only [start, sharing, Nat.zero_add] using getElem?_apart 0 index selectors

/-- The flags of fresh selectors are as the selectors say. -/
theorem flagsAt_start {tree : Tree} {selectors : List Selector} {index : Nat} {entry : Selector × Nat}
    (h : (start tree selectors).selectors[index]? = some entry) :
    FlagsAt (start tree selectors).run.fired entry.2 entry.1.flags := by
  rw [selectors_start] at h
  obtain ⟨selector, hselector, rfl⟩ := Option.map_eq_some_iff.mp h
  obtain ⟨hlt, hget⟩ := List.getElem?_eq_some_iff.mp hselector
  have hsplit : selectors.flatMap Selector.flags = (selectors.take index).flatMap Selector.flags ++
      (selector.flags ++ (selectors.drop (index + 1)).flatMap Selector.flags) := by
    rw [← List.flatMap_cons, ← hget, List.getElem_cons_drop, ← List.flatMap_append, List.take_append_drop]
  have hall : FlagsAt (start tree selectors).run.fired 0 (selectors.flatMap Selector.flags) := by
    intro offset flag hflag
    simp [start, sharing, Run.ofFlags, List.getD, hflag]
  rw [hsplit] at hall
  simpa only [Nat.zero_add] using hall.right.left

/-- Fresh selectors look as they were compiled. -/
theorem look_start (tree : Tree) (selectors : List Selector) (index : Nat) :
    ((start tree selectors).step (.look index)).1 = selectors[index]?.elim .missing .selector := by
  rw [step, withSelector]
  cases hentry : (start tree selectors).selectors[index]? with
  | none =>
    rw [selectors_start, Option.map_eq_none_iff] at hentry
    rw [hentry]
    rfl
  | some entry =>
    have hsame := entry.1.withFlags_self entry.2 (flagsAt_start hentry)
    rw [selectors_start] at hentry
    obtain ⟨selector, hselector, rfl⟩ := Option.map_eq_some_iff.mp hentry
    rw [hselector]
    exact congrArg Answer.selector hsame

/-- No stretch begins before the first one. -/
theorem le_of_mem_apart {base : Nat} {selectors : List Selector} {entry : Selector × Nat}
    (h : entry ∈ apart base selectors) : base ≤ entry.2 := by
  induction selectors generalizing base with
  | nil => simp [apart] at h
  | cons first rest ih =>
    rcases List.mem_cons.mp h with rfl | h
    · exact Nat.le_refl base
    · exact Nat.le_trans (Nat.le_add_right _ _) (ih h)

/-- Each stretch ends before those behind it begin. -/
theorem pairwise_apart (base : Nat) (selectors : List Selector) :
    (apart base selectors).Pairwise fun before after => before.2 + before.1.flags.length ≤ after.2 := by
  induction selectors generalizing base with
  | nil => exact .nil
  | cons first rest ih => exact .cons (fun _ hafter => le_of_mem_apart hafter) (ih _)

/-- No two fresh selectors share a flag. -/
theorem not_flagsOf_start {tree : Tree} {selectors : List Selector} {index other flag : Nat}
    (h : (start tree selectors).flagsOf index flag) (hne : index ≠ other) :
    ¬ (start tree selectors).flagsOf other flag := by
  have hpairwise := List.pairwise_iff_getElem.mp (pairwise_apart 0 selectors)
  obtain ⟨entry, hentry, hfirst, hlast⟩ := h
  rintro ⟨entry', hentry', hfirst', hlast'⟩
  obtain ⟨hlt, rfl⟩ := List.getElem?_eq_some_iff.mp hentry
  obtain ⟨hlt', rfl⟩ := List.getElem?_eq_some_iff.mp hentry'
  rcases Nat.lt_or_gt_of_ne hne with hbefore | hafter
  · have hle := hpairwise index other hlt hlt' hbefore
    exact absurd (Nat.lt_of_lt_of_le hlast hle) (Nat.not_lt.mpr hfirst')
  · have hle := hpairwise other index hlt' hlt hafter
    exact absurd (Nat.lt_of_lt_of_le hlast' hle) (Nat.not_lt.mpr hfirst)

/-- Steps none of which is on a selector, by itself or by a cursor over it, leave the flags that no other
selector has. -/
theorem Owned.fired_steps_of_not_on {session : Session} {owners : List Nat} {index flag : Nat}
    (howned : session.Owned owners) (hothers : ∀ other, index ≠ other → ¬ session.flagsOf other flag)
    (list : List Step) (hlist : ∀ before step after, list = before ++ step :: after →
      index ∉ step.action.on? (owners ++ ownersOf session.selectors.length before)) :
    (session.steps list).2.run.fired flag = session.run.fired flag := by
  induction list generalizing session owners with
  | nil => rfl
  | cons step rest ih =>
    have hselectors := (session.make_frame step).2
    have hstep : (session.make step).2.run.fired flag = session.run.fired flag := by
      refine howned.fired_make_of_not_flagsOf fun other hother => hothers other fun heq => ?_
      refine hlist [] step rest rfl ?_
      rwa [ownersOf, List.filterMap_nil, List.append_nil, heq]
    rw [steps_cons]
    refine (ih (howned.make step) (fun other hne => ?_) fun before next after heq => ?_).trans hstep
    · rw [flagsOf, hselectors]
      exact hothers other hne
    · have hnext := hlist (step :: before) next after (congrArg (step :: ·) heq)
      rwa [hselectors, List.append_assoc, ← ownersOf_cons]

/-- Steps none of which is on a fresh selector, by itself or by a cursor over it, leave the selector as
it looks. -/
theorem look_steps_start (tree : Tree) (selectors : List Selector) (index : Nat) (list : List Step)
    (hlist : ∀ before step after, list = before ++ step :: after →
      index ∉ step.action.on? (ownersOf selectors.length before)) :
    (((start tree selectors).steps list).2.step (.look index)).1 = selectors[index]?.elim .missing .selector := by
  rw [← look_start tree, step, step, withSelector, withSelector, steps_selectors]
  cases hentry : (start tree selectors).selectors[index]? with
  | none => rfl
  | some entry =>
    refine congrArg Answer.selector (entry.1.withFlags_congr entry.2 fun flag hflag => ?_)
    have hown : (start tree selectors).flagsOf index flag := ⟨entry, hentry, hflag⟩
    refine (owned_sharing tree _ _).fired_steps_of_not_on (fun other => not_flagsOf_start hown) list ?_
    intro before step after heq
    have hstep := hlist before step after heq
    rwa [← length_apart 0 selectors] at hstep

end Session

end TreeQuery
