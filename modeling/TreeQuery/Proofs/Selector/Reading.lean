import TreeQuery.Proofs.Selector.Parentheses
import TreeQuery.Proofs.Selector.Plain

/-!
# Reading a test

The reader of components and the relation of the grammar agree on every single test: a component that
is read at the beginning of a text and compiles chains a test of the grammar to what stands in front of
it, and every test of the grammar is read so. Parameters are left to whatever compiles them.
-/

namespace TreeQuery.Grammar

/-- What a text denotes if it is compiled. -/
def Compiles (compile : String → Except Selector.Error Selector) (raw : List Char) (selector : Selector) :
    Prop := compile (.ofList raw) = .ok selector

variable {compile : String → Except Selector.Error Selector}

/-- A built-in function is found under its own name only. -/
theorem ofName?_eq_some_iff {name : String} {builtin : Builtin} :
    Builtin.ofName? name = some builtin ↔ name = builtin.name := by
  constructor
  · intro h
    have := List.find?_some h
    exact (beq_iff_eq.mp this).symm
  · intro heq
    subst heq
    exact Builtin.ofName?_name builtin

/-- A selector is a single test exactly when it is that test alone. -/
theorem toPredicate_eq_ok_iff {selector : Selector} {predicate : Predicate} :
    selector.toPredicate = .ok predicate ↔ selector = .simple predicate := by
  obtain ⟨⟨depth, head⟩, rest⟩ := selector
  cases depth <;> cases rest <;> simp [Selector.toPredicate, Selector.isSimple, Selector.simple]

/-- Behind a mark a maximal identifier is read. -/
theorem Name.readNamed {name rest : List Char} (h : Name name rest) (mark : Char) (position : Nat)
    (make : String → Remaining → Component × Remaining) :
    Component.readNamed mark ⟨position, name ++ rest⟩ make =
      make (.ofList name) ⟨position + Text.byteLength name, rest⟩ := by
  have hne : name.isEmpty = false := by simpa using h.ne_nil
  simp only [Component.readNamed, Remaining.skip, h.takeWhile_eq, h.dropWhile_eq, hne]
  rfl

/-- Behind a mark without an identifier nothing is read. -/
theorem readNamed_none {text : List Char} (h : ∀ c ∈ text.head?, Text.isIdentifierChar c = false)
    (mark : Char) (position : Nat) (make : String → Remaining → Component × Remaining) :
    Component.readNamed mark ⟨position, text⟩ make =
      (.unreadable (.missingIdentifier mark) position, ⟨position, []⟩) := by
  have hname : text.takeWhile Text.isIdentifierChar = [] := by
    cases text with
    | nil => rfl
    | cons c rest => simp [h c rfl]
  simp only [Component.readNamed, hname]
  rfl

/-- An id is read up to its end. -/
theorem Name.read_id {name rest : List Char} (h : Name name rest) (position : Nat) :
    Component.read position '#' (name ++ rest) =
      (.id (.ofList name), ⟨position + ('#').utf8Size + Text.byteLength name, rest⟩) :=
  h.readNamed '#' (position + ('#').utf8Size) fun name left => (.id name, left)

/-- A class is read up to its end. -/
theorem Name.read_hasClass {name rest : List Char} (h : Name name rest) (position : Nat) :
    Component.read position '.' (name ++ rest) =
      (.hasClass (.ofList name), ⟨position + ('.').utf8Size + Text.byteLength name, rest⟩) :=
  h.readNamed '.' (position + ('.').utf8Size) fun name left => (.hasClass name, left)

/-- A function is read with the parameter behind its name. -/
theorem Name.read_function {name text : List Char} (h : Name name text) (position : Nat) :
    Component.read position ':' (name ++ text) =
      (.call (.ofList name)
          (Component.readParameter ⟨position + (':').utf8Size + Text.byteLength name, text⟩).1,
        (Component.readParameter ⟨position + (':').utf8Size + Text.byteLength name, text⟩).2) :=
  h.readNamed ':' (position + (':').utf8Size) fun name left =>
    (.call name (Component.readParameter left).1, (Component.readParameter left).2)

/-- What is read behind a mark compiles only if it begins with an identifier. -/
theorem readNamed_of_ok {mark : Char} {input : Remaining} {earlier : Option Predicate}
    {make : String → Remaining → Component × Remaining} {predicate : Predicate}
    (h : Plain.component compile earlier (Component.readNamed mark input make).1 = .ok predicate) :
    ∃ name rest after, input.text = name ++ rest ∧ Name name rest ∧
      Component.readNamed mark input make = make (.ofList name) ⟨after, rest⟩ := by
  by_cases hname : input.text.takeWhile Text.isIdentifierChar = []
  · simp [Component.readNamed, hname, Plain.component] at h
  · have hread := (name_takeWhile hname).readNamed mark input.position make
    rw [List.takeWhile_append_dropWhile] at hread
    exact ⟨_, _, _, List.takeWhile_append_dropWhile.symm, name_takeWhile hname, hread⟩

/-- A call without parentheses compiles for `first` alone. -/
theorem call_none_eq_ok {name : String} {earlier : Option Predicate} {builtin : Builtin}
    {predicate : Predicate} (h : Plain.call compile name earlier builtin none = .ok predicate) :
    builtin = .first ∧ predicate = .chain earlier (.first false) := by
  cases builtin with
  | first => exact ⟨rfl, (Except.ok.inj h).symm⟩
  | not => simp [Plain.call] at h
  | has => simp [Plain.call] at h

/-- A call of a name with a parameter that could be read. -/
theorem component_call_eq_ok {name : String} {earlier : Option Predicate}
    {parameter : Except (Fault × Nat) (Option String)} {predicate : Predicate}
    (h : Plain.component compile earlier (.call name parameter) = .ok predicate) :
    ∃ builtin value, name = Builtin.name builtin ∧ parameter = .ok value ∧
      Plain.call compile name earlier builtin value = .ok predicate := by
  simp only [Plain.component] at h
  split at h
  next => simp at h
  next => simp at h
  next builtin value hname => exact ⟨builtin, value, ofName?_eq_some_iff.mp hname, rfl, h⟩

/-- A call of a built-in function with a parameter that could be read. -/
theorem component_builtin {earlier : Option Predicate} (builtin : Builtin) (value : Option String) :
    Plain.component compile earlier (.call builtin.name (.ok value)) =
      Plain.call compile builtin.name earlier builtin value := by
  simp only [Plain.component, Builtin.ofName?_name]

/-- Without a parenthesis behind its name a function has no parameter. -/
theorem readParameter_none {text : List Char} (h : ∀ c ∈ text.head?, c ≠ '(') (position : Nat) :
    Component.readParameter ⟨position, text⟩ = (.ok none, ⟨position, text⟩) := by
  unfold Component.readParameter
  split
  next inside heq =>
    subst heq
    exact absurd rfl (h '(' rfl)
  next => rfl

/-- A parameter behind an open parenthesis, as it is read. -/
theorem readParameter_cases (position : Nat) (text : List Char) :
    (∃ fault, (Component.readParameter ⟨position, text⟩).1 = .error fault) ∨
      (Component.readParameter ⟨position, text⟩ = (.ok none, ⟨position, text⟩) ∧
        ∀ c ∈ text.head?, c ≠ '(') ∨
      ∃ raw rest after, text = '(' :: (raw ++ ')' :: rest) ∧ Balanced 31 raw ∧
        Component.readParameter ⟨position, text⟩ =
          (.ok (if raw.all Text.isBlank then none else some (.ofList raw)), ⟨after, rest⟩) := by
  by_cases hopen : ∃ inside, text = '(' :: inside
  · obtain ⟨inside, rfl⟩ := hopen
    simp only [Component.readParameter]
    rcases hread : Component.balanced position 1 (position + 1) inside with fault | ⟨raw, ⟨after, rest⟩⟩
    · exact Or.inl ⟨fault, rfl⟩
    · refine Or.inr (Or.inr ⟨raw, rest, after, ?_, ?_, rfl⟩)
      · rw [Component.balanced_eq hread]
      · exact closes_one_iff.mp (closes_of_balanced Nat.one_pos (by omega) hread)
  · have hhead : ∀ c ∈ text.head?, c ≠ '(' := by
      intro c hc heq
      subst heq
      cases text with
      | nil => simp at hc
      | cons c inside => exact hopen ⟨inside, by simp_all⟩
    exact Or.inr (Or.inl ⟨readParameter_none hhead position, hhead⟩)

/-- Parameters in balanced parentheses are read. -/
theorem Balanced.readParameter {raw : List Char} (h : Balanced 31 raw) (position : Nat)
    (rest : List Char) :
    Component.readParameter ⟨position, '(' :: (raw ++ ')' :: rest)⟩ =
      (.ok (if raw.all Text.isBlank then none else some (.ofList raw)),
        ⟨position + 1 + Text.byteLength raw + 1, rest⟩) := by
  simp only [Component.readParameter, (closes_one_iff.mpr h).balanced_eq]

/-- A call that is read and compiles chains a test of the grammar. -/
theorem test_of_readParameter {name : List Char} {position : Nat} {rest : List Char}
    {earlier : Option Predicate} {predicate : Predicate} (hname : Name name rest)
    (h : Plain.component compile earlier
      (.call (.ofList name) (Component.readParameter ⟨position, rest⟩).1) = .ok predicate) :
    ∃ test, predicate = .chain earlier test ∧
      Test (Compiles compile) (':' :: (name ++ rest)) test
        (Component.readParameter ⟨position, rest⟩).2.text := by
  obtain ⟨builtin, value, hbuiltin, hvalue, hcall⟩ := component_call_eq_ok h
  have hlist : name = builtin.name.toList := by rw [← hbuiltin, String.toList_ofList]
  subst hlist
  rcases readParameter_cases position rest with ⟨fault, herror⟩ | ⟨hnone, hopen⟩ |
    ⟨raw, left, after, rfl, hraw, hread⟩
  · simp [herror] at hvalue
  · rw [hnone] at hvalue ⊢
    cases hvalue
    obtain ⟨rfl, rfl⟩ := call_none_eq_ok hcall
    exact ⟨.first false, rfl, .first hname hopen⟩
  · rw [hread] at hvalue ⊢
    cases hvalue
    cases builtin with
    | first =>
      cases hcall
      exact ⟨.first false, rfl, .firstOf hraw⟩
    | not =>
      split at hcall
      · simp [Plain.call] at hcall
      · obtain ⟨selector, hcompile, hcall⟩ := Plain.bind_eq_ok_iff.mp hcall
        obtain ⟨inner, hinner, hcall⟩ := Plain.bind_eq_ok_iff.mp hcall
        cases hcall
        rw [toPredicate_eq_ok_iff.mp hinner] at hcompile
        exact ⟨.not inner, rfl, .not hraw hcompile⟩
    | has =>
      split at hcall
      · simp [Plain.call] at hcall
      · obtain ⟨selector, hcompile, hcall⟩ := Plain.bind_eq_ok_iff.mp hcall
        cases hcall
        exact ⟨.has selector, rfl, .has hraw hcompile⟩

/-- A component that is read and compiles chains a test of the grammar. -/
theorem test_of_read {position : Nat} {mark : Char} {rest : List Char} {earlier : Option Predicate}
    {predicate : Predicate}
    (h : Plain.component compile earlier (Component.read position mark rest).1 = .ok predicate) :
    ∃ test, predicate = .chain earlier test ∧
      Test (Compiles compile) (mark :: rest) test (Component.read position mark rest).2.text := by
  simp only [Component.read] at h ⊢
  split at h
  next =>
    obtain ⟨name, left, after, rfl, hname, hread⟩ := readNamed_of_ok h
    rw [hread] at h ⊢
    cases h
    exact ⟨.id (.ofList name), rfl, .id hname⟩
  next =>
    obtain ⟨name, left, after, rfl, hname, hread⟩ := readNamed_of_ok h
    rw [hread] at h ⊢
    cases h
    exact ⟨.hasClass (.ofList name), rfl, .hasClass hname⟩
  next =>
    obtain ⟨name, left, after, rfl, hname, hread⟩ := readNamed_of_ok h
    rw [hread] at h ⊢
    exact test_of_readParameter hname h
  next => simp [Plain.component] at h

/-- The identifiers of the built-in functions end before an open parenthesis. -/
theorem name_builtin (builtin : Builtin) (rest : List Char) :
    Name builtin.name.toList ('(' :: rest) where
  ne_nil := by cases builtin <;> decide
  all := List.all_eq_true.mp (by cases builtin <;> decide)
  maximal := by
    intro c hc
    cases hc
    decide

/-- A call of a built-in function is read with its parameter. -/
theorem read_call (builtin : Builtin) {raw : List Char} (hraw : Balanced 31 raw) (position : Nat)
    (rest : List Char) :
    ∃ after, Component.read position ':' (builtin.name.toList ++ '(' :: (raw ++ ')' :: rest)) =
      (.call builtin.name (.ok (if raw.all Text.isBlank then none else some (.ofList raw))),
        ⟨after, rest⟩) := by
  rw [(name_builtin builtin (raw ++ ')' :: rest)).read_function, String.ofList_toList, hraw.readParameter]
  exact ⟨_, rfl⟩

/-- The compiled parameters are not blank. -/
def NoneBlank (compile : String → Except Selector.Error Selector) : Prop :=
  ∀ raw selector, Compiles compile raw selector → raw.all Text.isBlank = false

/-- A test of the grammar is read as a component that compiles, and chained. -/
theorem Test.read {mark : Char} {tail rest : List Char} {predicate : Predicate}
    (h : Test (Compiles compile) (mark :: tail) predicate rest) (hblank : NoneBlank compile)
    (earlier : Option Predicate) (position : Nat) :
    Plain.component compile earlier (Component.read position mark tail).1 = .ok (.chain earlier predicate) ∧
      (Component.read position mark tail).2.text = rest := by
  cases h with
  | id hname =>
    rw [hname.read_id]
    exact ⟨rfl, rfl⟩
  | hasClass hname =>
    rw [hname.read_hasClass]
    exact ⟨rfl, rfl⟩
  | first hname hopen =>
    rw [hname.read_function, readParameter_none hopen]
    exact ⟨component_builtin .first none, rfl⟩
  | firstOf hraw =>
    obtain ⟨after, hread⟩ := read_call .first hraw position rest
    simp only [Builtin.name] at hread
    rw [hread]
    exact ⟨component_builtin .first _, rfl⟩
  | not hraw hinner =>
    obtain ⟨after, hread⟩ := read_call .not hraw position rest
    rw [if_neg (by simp [hblank _ _ hinner])] at hread
    simp only [Builtin.name] at hread
    rw [hread]
    refine ⟨(component_builtin .not _).trans ?_, rfl⟩
    rw [Plain.call, hinner]
    rfl
  | has hraw hinner =>
    obtain ⟨after, hread⟩ := read_call .has hraw position rest
    rw [if_neg (by simp [hblank _ _ hinner])] at hread
    simp only [Builtin.name] at hread
    rw [hread]
    refine ⟨(component_builtin .has _).trans ?_, rfl⟩
    rw [Plain.call, hinner]
    rfl

end TreeQuery.Grammar
