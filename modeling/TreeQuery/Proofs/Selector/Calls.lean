import TreeQuery.Proofs.Selector.Course

/-!
# Compilations and the calls that they make

A compilation adds calls to a log, whatever the log holds already, and keeps them when it fails. Reading
goes on behind a component that fails to compile, but compiling does not, so what was read there makes no
difference.

Main statement: with any functions a text compiles to what it comes to on its course, with the same calls
in the same order.
-/

namespace TreeQuery

/-- A compilation has a result and makes calls, in order, whatever the log holds. -/
def Compilation.Comes {α : Type} (compilation : Compilation α) (result : Except Selector.Error α)
    (calls : List Call) : Prop := ∀ log, compilation.run log = (result, calls.reverse ++ log)

namespace Compilation

variable {α β : Type}

theorem comes_pure (value : α) : Comes (pure value) (.ok value) [] := fun _ => rfl

theorem comes_throw (error : Selector.Error) : Comes (α := α) (throw error) (.error error) [] := fun _ => rfl

theorem comes_log (call : Call) : Comes (Compilation.log call) (.ok ()) [call] := fun _ => rfl

/-- A compilation has one outcome. -/
theorem Comes.outcome {compilation : Compilation α} {result : Except Selector.Error α} {calls : List Call}
    (h : compilation.Comes result calls) : compilation.outcome = (result, calls) := by
  rw [Compilation.outcome, h []]
  simp

/-- Behind a compilation that has a value another one goes on. -/
theorem Comes.bind {first : Compilation α} {next : α → Compilation β} {value : α} {calls later : List Call}
    {result : Except Selector.Error β} (hfirst : first.Comes (.ok value) calls)
    (hnext : (next value).Comes result later) : (first >>= next).Comes result (calls ++ later) := by
  intro log
  have hrun := hfirst log
  have hlater := hnext (calls.reverse ++ log)
  simp only [Bind.bind, ExceptT.bind, ExceptT.run, ExceptT.mk, StateT.bind] at hrun hlater ⊢
  rw [hrun, List.reverse_append, List.append_assoc]
  exact hlater

/-- Behind a compilation that fails nothing goes on. -/
theorem Comes.bind_error {first : Compilation α} (next : α → Compilation β) {error : Selector.Error}
    {calls : List Call} (hfirst : first.Comes (.error error) calls) :
    (first >>= next).Comes (.error error) calls := by
  intro log
  have hrun := hfirst log
  simp only [Bind.bind, ExceptT.bind, ExceptT.run, ExceptT.mk, StateT.bind] at hrun ⊢
  rw [hrun]
  rfl

/-- A compilation whose value is mapped makes the same calls. -/
theorem Comes.map {first : Compilation α} {result : Except Selector.Error α} {calls : List Call}
    (h : first.Comes result calls) (f : α → β) :
    (first >>= fun value => pure (f value)).Comes (result.map f) calls := by
  cases result with
  | error error => exact h.bind_error _
  | ok value =>
    have hbind : (first >>= fun value => pure (f value)).Comes (.ok (f value)) (calls ++ []) :=
      h.bind (comes_pure (f value))
    rwa [List.append_nil] at hbind

/-- Behind a compilation whose outcome is looked at another one goes on in any case. -/
theorem Comes.lift_bind {first : Compilation α} {next : Except Selector.Error α → Compilation β}
    {outcome : Except Selector.Error α} {calls later : List Call} {result : Except Selector.Error β}
    (hfirst : first.Comes outcome calls) (hnext : (next outcome).Comes result later) :
    Comes (α := β) (do next (← ExceptT.lift first.run)) result (calls ++ later) := by
  intro log
  have hrun := hfirst log
  have hlater := hnext (calls.reverse ++ log)
  simp only [Bind.bind, ExceptT.bind, ExceptT.run, ExceptT.mk, ExceptT.lift, StateT.bind, Functor.map,
    StateT.map] at hrun hlater ⊢
  rw [hrun, List.reverse_append, List.append_assoc]
  exact hlater

end Compilation

namespace Functions

/-- The selector of a list of parts. -/
def assemble : List Part → Compilation Selector
  | [] => throw (.invalid .empty 0)
  | head :: rest => pure ⟨head, rest⟩

/-- Compounds are compiled one after another, and their parts make the selector. -/
theorem compileCompounds_eq (functions : Functions) (compile : String → Compilation Selector)
    (compounds : List Compound) :
    functions.compileCompounds compile compounds =
      compounds.mapM (functions.compileCompound compile) >>= assemble := by
  cases compounds with
  | nil => rfl
  | cons first rest => simp [compileCompounds, assemble]

end Functions

namespace Course

open Grammar

/-- A mark without an identifier behind it is read as a fault, right behind the mark. -/
theorem read_nameless {mark : Char} {rest : List Char} (hmark : mark ∈ marks)
    (hrest : ∀ c ∈ rest.head?, Text.isIdentifierChar c = false) (position : Nat) :
    Component.read position mark rest =
      (.unreadable (.missingIdentifier mark) (position + mark.utf8Size),
        ⟨position + mark.utf8Size, []⟩) := by
  simp only [marks, List.mem_cons, List.not_mem_nil, or_false] at hmark
  rcases hmark with rfl | rfl | rfl <;> simp only [Component.read, readNamed_none hrest]

/-- What is no mark is read as a fault, at its own position. -/
theorem read_unexpected {c : Char} (hmark : c ∉ marks) (position : Nat) (rest : List Char) :
    Component.read position c rest =
      (.unreadable .unexpectedCharacter position, ⟨position + c.utf8Size, []⟩) := by
  simp only [Component.read]
  split
  next => exact absurd (by decide) hmark
  next => exact absurd (by decide) hmark
  next => exact absurd (by decide) hmark
  next => rfl

/-- A rest of a text begins at a position. -/
def Stands (whole : List Char) (position : Nat) (rest : List Char) : Prop :=
  position + Text.byteLength rest = Text.byteLength whole

/-- What is left is the rest, at its position, where there is one. -/
def Leaves {α : Type} (whole : List Char) (outcome : Except Selector.Error (α × List Char))
    (left : Remaining) : Prop :=
  ∀ value rest, outcome = .ok (value, rest) → left.text = rest ∧ Stands whole left.position rest

section

variable {whole : List Char} {position : Nat}

theorem Stands.offset_eq {rest : List Char} (h : Stands whole position rest) :
    offset whole rest = position := by
  rw [offset, ← h, Nat.add_sub_cancel]

/-- Behind a piece that stands at a position its rest stands. -/
theorem Stands.append {piece rest : List Char} (h : Stands whole position (piece ++ rest)) :
    Stands whole (position + Text.byteLength piece) rest := by
  rw [Stands, Text.byteLength_append] at h
  rw [Stands, Nat.add_assoc, h]

/-- Behind a character that stands at a position its rest stands. -/
theorem Stands.cons {c : Char} {rest : List Char} (h : Stands whole position (c :: rest)) :
    Stands whole (position + c.utf8Size) rest := by
  rw [Stands, Text.byteLength_cons] at h
  rw [Stands, Nat.add_assoc, h]

/-- Behind characters that are skipped their rest stands. -/
theorem Stands.skip {text : List Char} (h : Stands whole position text) (p : Char → Bool) :
    Stands whole (Remaining.skip ⟨position, text⟩ p).position (text.dropWhile p) := by
  rw [← List.takeWhile_append_dropWhile (p := p) (l := text)] at h
  exact h.append

/-- What fails leaves nothing. -/
theorem leaves_error {α : Type} (error : Selector.Error) (left : Remaining) :
    Leaves (α := α) whole (.error error) left := by
  intro value rest houtcome
  cases houtcome

/-- What has a value leaves its rest. -/
theorem leaves_ok {α : Type} {value : α} {rest : List Char} (h : Stands whole position rest) :
    Leaves whole (.ok (value, rest)) ⟨position, rest⟩ := by
  intro other behind houtcome
  cases houtcome
  exact ⟨rfl, h⟩

/-- What is mapped leaves the same. -/
theorem Leaves.map {α β : Type} {outcome : Except Selector.Error (α × List Char)} {left : Remaining}
    (h : Leaves whole outcome left) (f : α × List Char → β × List Char)
    (hrest : ∀ found, (f found).2 = found.2) : Leaves whole (outcome.map f) left := by
  intro value rest houtcome
  cases outcome with
  | error error => cases houtcome
  | ok found =>
    have hfound := h found.1 found.2 rfl
    have heq : f found = (value, rest) := Except.ok.inj houtcome
    rwa [← hrest found, heq] at hfound

/-- What is read behind the name of a function. -/
theorem Parameter.read {text : List Char} {outcome : Except (Fault × List Char) (Option String × List Char)}
    (h : Parameter text outcome) (hstands : Stands whole position text) :
    match outcome with
    | .error (fault, place) =>
      (Component.readParameter ⟨position, text⟩).1 = .error (fault, offset whole place)
    | .ok (value, rest) => ∃ after, Stands whole after rest ∧
        Component.readParameter ⟨position, text⟩ = (.ok value, ⟨after, rest⟩) := by
  have hone : ∀ {c : Char} {rest : List Char} {place : Nat}, c.utf8Size = 1 →
      Stands whole place (c :: rest) → Stands whole (place + 1) rest := by
    intro c rest place hsize hplace
    rw [← hsize]
    exact hplace.cons
  cases h with
  | absent hopen => exact ⟨position, hstands, readParameter_none hopen position⟩
  | @blank raw rest hraw hblank =>
    refine ⟨_, hone (c := ')') rfl (hone rfl hstands).append, ?_⟩
    rw [hraw.readParameter, if_pos hblank]
  | @present raw rest hraw hblank =>
    refine ⟨_, hone (c := ')') rfl (hone rfl hstands).append, ?_⟩
    rw [hraw.readParameter, hblank]
    rfl
  | unclosed hraw =>
    simp only [Component.readParameter, hraw.balanced_eq, hstands.offset_eq]
  | @tooDeep raw rest hraw hdeep =>
    have hplace := (hone rfl hstands).append
    simp only [Component.readParameter, hraw.balanced_too_deep hdeep, hplace.offset_eq]

end

section

variable {functions : Functions} {Inner : String → Except Selector.Error Selector → List Call → Prop}
variable {whole : List Char} {compile : String → Compilation Selector}
variable (hcompile : ∀ text outcome calls, Inner text outcome calls → (compile text).Comes outcome calls)
include hcompile

/-- Following a recipe has the result and makes the calls that it comes to. -/
theorem Follows.comes {recipe : Recipe} {result : Except Selector.Error Predicate} {calls : List Call}
    (h : Follows Inner recipe result calls) : (recipe.follow compile).Comes result calls := by
  induction h with
  | done predicate => exact Compilation.comes_pure predicate
  | fail error => exact Compilation.comes_throw error
  | compile inner _ ih => exact (hcompile _ _ _ inner).lift_bind ih

/-- A component has the result and makes the calls that it comes to, and the rest is left behind it. -/
theorem Step.comes {position : Nat} {mark : Char} {tail : List Char} {earlier : Option Predicate}
    {outcome : Except Selector.Error (Predicate × List Char)} {calls : List Call}
    (h : Step functions Inner whole (mark :: tail) earlier outcome calls)
    (hstands : Stands whole position (mark :: tail)) :
    (functions.compileComponent compile earlier (Component.read position mark tail).1).Comes
        (outcome.map Prod.fst) calls ∧
      Leaves whole outcome (Component.read position mark tail).2 := by
  cases h with
  | id hname =>
    rw [hname.read_id]
    exact ⟨Compilation.comes_pure _, leaves_ok hstands.cons.append⟩
  | hasClass hname =>
    rw [hname.read_hasClass]
    exact ⟨Compilation.comes_pure _, leaves_ok hstands.cons.append⟩
  | nameless hmark hrest =>
    rw [read_nameless hmark hrest, hstands.cons.offset_eq]
    exact ⟨Compilation.comes_throw _, leaves_error _ _⟩
  | unknown hname hresolve =>
    rw [hname.read_function]
    simp only [Functions.compileComponent, Functions.call, Functions.resolve, hresolve]
    exact ⟨Compilation.comes_throw _, leaves_error _ _⟩
  | parentheses hname hresolve hparameter =>
    have hfault := hparameter.read hstands.cons.append
    rw [hname.read_function]
    simp only [Functions.compileComponent, Functions.call, Functions.resolve, hresolve, hfault]
    exact ⟨Compilation.comes_throw _, leaves_error _ _⟩
  | @call _ _ _ rest _ _ _ result _ hname hresolve hparameter hfollows =>
    obtain ⟨after, hafter, hread⟩ := hparameter.read hstands.cons.append
    rw [hname.read_function]
    simp only [hread, Functions.compileComponent, Functions.call, Functions.resolve, hresolve]
    have hresult : (result.map fun predicate => (predicate, rest)).map Prod.fst = result := by
      cases result <;> rfl
    rw [hresult]
    refine ⟨(Compilation.comes_log _).bind (hfollows.comes hcompile), ?_⟩
    cases result with
    | error error => exact leaves_error _ _
    | ok predicate => exact leaves_ok hafter
  | unexpected hmark hends =>
    rw [read_unexpected hmark, hstands.offset_eq]
    exact ⟨Compilation.comes_throw _, leaves_error _ _⟩

/-- The components up to the end of a compound have the result and make the calls that they come to. -/
theorem Steps.comes {text : List Char} {earlier : Option Predicate}
    {outcome : Except Selector.Error (Option Predicate × List Char)} {calls : List Call}
    (h : Steps functions Inner whole text earlier outcome calls) {position : Nat}
    (hstands : Stands whole position text) :
    (functions.compileComponents compile earlier (Component.readAll ⟨position, text⟩).1).Comes
        (outcome.map Prod.fst) calls ∧
      Leaves whole outcome (Component.readAll ⟨position, text⟩).2 := by
  induction h generalizing position with
  | @done text earlier hends =>
    rw [hends.readAll position]
    exact ⟨Compilation.comes_pure _, leaves_ok (hstands.skip _)⟩
  | fail first =>
    obtain ⟨mark, tail, rfl, hchild, hblank⟩ := first.exists_mark
    obtain ⟨hfirst, -⟩ := first.comes hcompile hstands
    -- others may be read behind this one, but they are never compiled
    rw [readAll_cons position tail hchild hblank]
    exact ⟨hfirst.bind_error _, leaves_error _ _⟩
  | @more _ middle _ predicate _ _ _ first _ ih =>
    obtain ⟨mark, tail, rfl, hchild, hblank⟩ := first.exists_mark
    obtain ⟨hfirst, hleaves⟩ := first.comes hcompile hstands
    -- the others are read where this one leaves off, and their rest begins at the position there
    obtain ⟨htext, hmiddle⟩ := hleaves predicate middle rfl
    obtain ⟨hothers, hrest⟩ := ih hmiddle
    rw [readAll_cons position tail hchild hblank]
    rw [← htext] at hothers hrest
    exact ⟨hfirst.bind hothers, hrest⟩

/-- What stands behind a child mark has the result and makes the calls that it comes to. -/
theorem Body.comes {text : List Char} {outcome : Except Selector.Error (Option Predicate × List Char)}
    {calls : List Call} (h : Body functions Inner whole text outcome calls) {position : Nat}
    (hstands : Stands whole position text) :
    (functions.compileComponents compile none (readBody ⟨position, text⟩).1).Comes (outcome.map Prod.fst)
        calls ∧
      Leaves whole outcome (readBody ⟨position, text⟩).2 := by
  cases h with
  | any steps => exact steps.comes hcompile hstands.cons
  | @tag name text _ _ hname steps =>
    obtain ⟨hsteps, hleaves⟩ := steps.comes hcompile hstands.append
    simp only [readBody, hname.readTag position, List.singleton_append]
    exact ⟨(Compilation.comes_pure _).bind hsteps, hleaves⟩
  | bare hbare steps =>
    simp only [readBody, readTag_none hbare position, List.nil_append]
    exact steps.comes hcompile hstands

/-- A compound has the part and makes the calls that it comes to. -/
theorem Compound.comes {text : List Char} {outcome : Except Selector.Error (Part × List Char)}
    {calls : List Call} (h : Compound functions Inner whole text outcome calls) {position : Nat}
    (hstands : Stands whole position text) :
    (functions.compileCompound compile (TreeQuery.Compound.read ⟨position, text⟩).1).Comes
        (outcome.map Prod.fst) calls ∧
      Leaves whole outcome (TreeQuery.Compound.read ⟨position, text⟩).2 := by
  have hpart : ∀ (child : Bool) (outcome : Except Selector.Error (Option Predicate × List Char)),
      (outcome.map (part child)).map Prod.fst = (outcome.map Prod.fst).map fun predicate =>
        (⟨if child then some 1 else none, predicate.getD .always⟩ : Part) := by
    intro child outcome
    cases outcome <;> rfl
  rw [read_eq]
  cases h with
  | @child text outcome calls body =>
    obtain ⟨hbody, hleaves⟩ := body.comes hcompile (hstands.cons.skip Text.isAsciiBlank)
    rw [hpart]
    exact ⟨hbody.map _, hleaves.map _ fun _ => rfl⟩
  | @plain _ outcome _ hplain body =>
    obtain ⟨hbody, hleaves⟩ := body.comes hcompile hstands
    have hchild : TreeQuery.Compound.readChild ⟨position, text⟩ = (false, ⟨position, text⟩) := by
      cases text with
      | nil => rfl
      | cons c tail => exact readChild_none (hplain c rfl) position tail
    rw [hpart, hchild]
    exact ⟨hbody.map _, hleaves.map _ fun _ => rfl⟩

/-- Compounds have the parts and make the calls that they come to. -/
theorem Compounds.comes {text : List Char} {outcome : Except Selector.Error (List Part)}
    {calls : List Call} (h : Compounds functions Inner whole text outcome calls) {position : Nat}
    (hstands : Stands whole position text) :
    ((TreeQuery.Compound.readAll ⟨position, text⟩).mapM (functions.compileCompound compile)).Comes outcome
      calls := by
  induction h generalizing position with
  | done =>
    rw [compounds_readAll_nil]
    exact Compilation.comes_pure []
  | fail hne first =>
    rw [compounds_readAll _ hne, List.mapM_cons]
    exact (first.comes hcompile hstands).1.bind_error _
  | @more _ rest found _ _ _ hne first _ ih =>
    obtain ⟨hfirst, hleaves⟩ := first.comes hcompile hstands
    obtain ⟨htext, hrest⟩ := hleaves found rest rfl
    rw [compounds_readAll _ hne, List.mapM_cons, compounds_readAll_of_text htext]
    exact hfirst.bind ((ih hrest).map _)

/-- A text has the result and makes the calls that it comes to. -/
theorem Compiles.comes {text : String} {result : Except Selector.Error Selector} {calls : List Call}
    (h : Compiles functions Inner text result calls) :
    (functions.compileCompounds compile (TreeQuery.Compound.ofText (Text.trimChars text.toList))).Comes
      result calls := by
  have hstands : Stands (Text.trimChars text.toList) 0 (Text.trimChars text.toList) := Nat.zero_add _
  rw [TreeQuery.Compound.ofText_eq_readAll, Functions.compileCompounds_eq]
  cases h with
  | blank hblank =>
    rw [Text.trimChars_eq_nil_iff.mpr hblank, compounds_readAll_nil]
    exact Compilation.comes_throw _
  | fail hblank compounds => exact (compounds.comes hcompile hstands).bind_error _
  | @selector selector _ hblank compounds =>
    have hassemble : (Functions.assemble selector.parts).Comes (.ok selector) [] := by
      obtain ⟨head, rest⟩ := selector
      exact Compilation.comes_pure _
    have hbind := (compounds.comes hcompile hstands).bind hassemble
    rwa [List.append_nil] at hbind

end

end Course

namespace Functions

/-- On every number of levels a text has the result and makes the calls that it comes to. -/
theorem comes_compileWithin (functions : Functions) {levels : Nat} {text : String}
    {result : Except Selector.Error Selector} {calls : List Call}
    (h : Course.CompilesWithin functions levels text result calls) :
    (functions.compileWithin levels text).Comes result calls := by
  induction levels generalizing text result calls with
  | zero =>
    obtain ⟨rfl, rfl⟩ := h
    exact Compilation.comes_throw _
  | succ levels ih =>
    have hcompiles : Course.Compiles functions (Course.CompilesWithin functions levels) text result calls := h
    exact hcompiles.comes fun _ _ _ hinner => ih hinner

/-- With any functions a text compiles to the result that it comes to on its course, and to no other, and
the calls on its course are made, in their order, and no others. -/
theorem outcome_compile_iff (functions : Functions) (text : String)
    (result : Except Selector.Error Selector) (calls : List Call) :
    (functions.compile (.text text)).outcome = (result, calls) ↔
      Course.CompilesWithin functions nestingLimit text result calls := by
  constructor
  · intro houtcome
    obtain ⟨result', calls', hcourse⟩ := Course.exists_compilesWithin functions nestingLimit text
    have hsame := houtcome.symm.trans (functions.comes_compileWithin hcourse).outcome
    obtain ⟨rfl, rfl⟩ := Prod.mk.inj hsame
    exact hcourse
  · intro hcourse
    exact (functions.comes_compileWithin hcourse).outcome

end Functions

end TreeQuery
