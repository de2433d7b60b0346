/-!
# Attributes

A map from attribute names to values, kept as its entries in the order of their names. Two maps
with the same values are the same list of entries, so nothing that is read from a map can depend
on the order in which it was filled.

Main statements: `get?_insert` says what one insertion does to every name, `get?_ofList` that of a
repeated name the last value counts, and `ext_get?` that a map is what its names have for values.
-/

namespace TreeQuery

/-- Put a value under a name, keeping the names in order. -/
def insertEntry (name value : String) : List (String × String) → List (String × String)
  | [] => [(name, value)]
  | entry :: rest =>
    if name < entry.1 then (name, value) :: entry :: rest
    else if name = entry.1 then (name, value) :: rest
    else entry :: insertEntry name value rest

/-- The names after an insertion are the names before it and the new one. -/
theorem mem_insertEntry {name value : String} {entries : List (String × String)}
    {entry : String × String} (h : entry ∈ insertEntry name value entries) :
    entry = (name, value) ∨ entry ∈ entries := by
  induction entries with
  | nil => simpa [insertEntry] using h
  | cons first rest ih =>
    unfold insertEntry at h
    split at h
    · simpa using h
    · split at h
      · rcases List.mem_cons.mp h with h | h
        · exact Or.inl h
        · exact Or.inr (List.mem_cons_of_mem _ h)
      · rcases List.mem_cons.mp h with h | h
        · exact Or.inr (h ▸ List.mem_cons_self)
        · exact (ih h).imp_right (List.mem_cons_of_mem _)

/-- Insertion keeps the names in strictly ascending order. -/
theorem insertEntry_ordered {name value : String} {entries : List (String × String)}
    (h : entries.Pairwise fun a b => a.1 < b.1) :
    (insertEntry name value entries).Pairwise fun a b => a.1 < b.1 := by
  induction entries with
  | nil => simp [insertEntry]
  | cons first rest ih =>
    obtain ⟨hfirst, hrest⟩ := List.pairwise_cons.mp h
    unfold insertEntry
    split
    next hlt =>
      refine List.pairwise_cons.mpr ⟨fun entry hentry => ?_, h⟩
      rcases List.mem_cons.mp hentry with rfl | hentry
      · exact hlt
      · exact String.lt_trans hlt (hfirst entry hentry)
    next hnot =>
      split
      next heq => exact List.pairwise_cons.mpr ⟨fun entry hentry => heq ▸ hfirst entry hentry, hrest⟩
      next hne =>
        refine List.pairwise_cons.mpr ⟨fun entry hentry => ?_, ih hrest⟩
        rcases mem_insertEntry hentry with rfl | hentry
        · exact Classical.byContradiction fun hge =>
            hne (String.le_antisymm (String.not_lt.mp hge) (String.not_lt.mp hnot))
        · exact hfirst entry hentry

/-- A map from attribute names to values. -/
structure Attributes where
  entries : List (String × String)
  ordered : entries.Pairwise fun a b => a.1 < b.1

namespace Attributes

/-- The map without names. -/
def empty : Attributes := ⟨[], List.Pairwise.nil⟩

/-- The map with one more value, which replaces an earlier value of the same name. -/
def insert (attributes : Attributes) (name value : String) : Attributes :=
  ⟨insertEntry name value attributes.entries, insertEntry_ordered attributes.ordered⟩

/-- The map of a list of names and values, in which the last value of a name counts. -/
def ofList (pairs : List (String × String)) : Attributes :=
  pairs.foldl (fun attributes pair => attributes.insert pair.1 pair.2) empty

/-- The value of a name. -/
def get? (attributes : Attributes) (name : String) : Option String :=
  attributes.entries.lookup name

/-- Looking a name up compares it with the first entry, then goes on with the others. -/
theorem lookup_cons_ite (name : String) (entry : String × String) (rest : List (String × String)) :
    (entry :: rest).lookup name = if name = entry.1 then some entry.2 else rest.lookup name := by
  by_cases h : name = entry.1
  · rw [if_pos h, List.lookup_cons, beq_iff_eq.mpr h]
  · rw [if_neg h, List.lookup_cons, beq_eq_false_iff_ne.mpr h]

/-- A new value is found under its name, and every other name keeps its own. -/
theorem get?_insert (attributes : Attributes) (name value other : String) :
    (attributes.insert name value).get? other =
      if other = name then some value else attributes.get? other := by
  simp only [insert, get?]
  induction attributes.entries with
  | nil => simp [insertEntry]
  | cons first rest ih =>
    unfold insertEntry
    split
    next => simp only [lookup_cons_ite]
    next =>
      split
      next heq => by_cases h : other = name <;> simp [lookup_cons_ite, h, ← heq]
      next hne =>
        by_cases h : other = first.1
        · simp [lookup_cons_ite, h, Ne.symm hne]
        · simpa only [lookup_cons_ite, if_neg h] using ih

/-- The map of a list holds the last value that the list gives to a name. -/
theorem get?_ofList (pairs : List (String × String)) (name : String) :
    (ofList pairs).get? name = pairs.reverse.lookup name := by
  have fold : ∀ (pairs : List (String × String)) (start : Attributes),
      (pairs.foldl (fun attributes pair => attributes.insert pair.1 pair.2) start).get? name =
        (pairs.reverse.lookup name).or (start.get? name) := by
    intro pairs
    induction pairs with
    | nil => intro start; simp
    | cons pair rest ih =>
      intro start
      rw [List.foldl_cons, ih, get?_insert, List.reverse_cons, List.lookup_append, Option.or_assoc]
      by_cases h : name = pair.1 <;> simp [lookup_cons_ite, h]
  rw [ofList, fold]
  simp [empty, get?]

/-- A name that stands before all names of a list has no value there. -/
theorem lookup_eq_none_of_lt {name : String} {entries : List (String × String)}
    (h : ∀ entry ∈ entries, name < entry.1) : entries.lookup name = none := by
  rw [List.lookup_eq_none_iff]
  intro entry hentry
  exact bne_iff_ne.mpr (String.ne_of_lt (h entry hentry))

/-- Ordered lists of names that give every name the same value are the same. -/
theorem eq_of_lookup_eq {first second : List (String × String)}
    (hfirst : first.Pairwise fun a b => a.1 < b.1) (hsecond : second.Pairwise fun a b => a.1 < b.1)
    (h : ∀ name, first.lookup name = second.lookup name) : first = second := by
  induction first generalizing second with
  | nil =>
    cases second with
    | nil => rfl
    | cons entry rest => simpa [lookup_cons_ite] using h entry.1
  | cons entry rest ih =>
    cases second with
    | nil => simpa [lookup_cons_ite] using h entry.1
    | cons entry' rest' =>
      obtain ⟨habove, hrest⟩ := List.pairwise_cons.mp hfirst
      obtain ⟨habove', hrest'⟩ := List.pairwise_cons.mp hsecond
      -- the smaller one of the first names would have no value in the other list
      have hname : entry.1 = entry'.1 := by
        refine String.le_antisymm (String.not_lt.mp fun hlt => ?_) (String.not_lt.mp fun hlt => ?_)
        · have hnone : (entry :: rest).lookup entry'.1 = none :=
            lookup_eq_none_of_lt (List.forall_mem_cons.mpr
              ⟨hlt, fun other hother => String.lt_trans hlt (habove other hother)⟩)
          simpa [lookup_cons_ite, hnone] using h entry'.1
        · have hnone : (entry' :: rest').lookup entry.1 = none :=
            lookup_eq_none_of_lt (List.forall_mem_cons.mpr
              ⟨hlt, fun other hother => String.lt_trans hlt (habove' other hother)⟩)
          simpa [lookup_cons_ite, hnone] using h entry.1
      have hvalue : entry.2 = entry'.2 := by simpa [lookup_cons_ite, hname] using h entry.1
      have htail : rest = rest' := by
        refine ih hrest hrest' fun name => ?_
        by_cases heq : name = entry.1
        · rw [heq, lookup_eq_none_of_lt habove, hname, lookup_eq_none_of_lt habove']
        · simpa [lookup_cons_ite, heq, ← hname] using h name
      rw [Prod.ext hname hvalue, htail]

/-- Maps in which every name has the same value are the same. -/
theorem ext_get? {first second : Attributes} (h : ∀ name, first.get? name = second.get? name) :
    first = second := by
  cases first
  cases second
  congr 1
  exact eq_of_lookup_eq ‹_› ‹_› h

end Attributes

end TreeQuery
