import TreeQuery.Proofs.Selector.Glance

/-!
# No compilation crashes

Compiling byte by byte makes of every piece of a text what its course comes to, makes the calls on that course,
and leaves the index in front of the rest, which is the end of the text or the beginning of a character. All
checks pass on the way.

Main statements: with any functions every text compiles byte by byte, without a crash, to what it compiles to;
and a text that is not blank compiles to what a fresh cursor makes of it, however it is recognised.
-/

namespace TreeQuery

namespace Checked

open Grammar Course

/-- A compilation has a result and makes calls, in order, whatever the log holds, and does not crash. -/
def Comes {α : Type} (compilation : Checked α) (result : Except Selector.Error α) (calls : List Call) : Prop :=
  ∀ log, compilation.run log = .ok (result, calls.reverse ++ log)

variable {α β σ : Type}

theorem comes_pure (value : α) : Comes (pure value) (.ok value) [] := fun _ => rfl

theorem comes_throw (error : Selector.Error) : Comes (α := α) (throw error) (.error error) [] := fun _ => rfl

theorem comes_log (call : Call) : Comes (Checked.log call) (.ok ()) [call] := fun _ => rfl

/-- A compilation that comes to something has that outcome. -/
theorem Comes.outcome {compilation : Checked α} {result : Except Selector.Error α} {calls : List Call}
    (h : Comes compilation result calls) : compilation.outcome = .ok (result, calls) := by
  rw [Checked.outcome, h []]
  simp [Except.map]

/-- Behind a compilation that has a value another one goes on. -/
theorem Comes.bind {first : Checked α} {next : α → Checked β} {value : α} {calls later : List Call}
    {result : Except Selector.Error β} (hfirst : Comes first (.ok value) calls)
    (hnext : Comes (next value) result later) : Comes (first >>= next) result (calls ++ later) := by
  intro log
  have hrun := hfirst log
  have hlater := hnext (calls.reverse ++ log)
  simp only [Bind.bind, ExceptT.bind, ExceptT.run, ExceptT.mk, StateT.bind] at hrun hlater ⊢
  rw [hrun, List.reverse_append, List.append_assoc]
  exact hlater

/-- Behind a compilation that fails nothing goes on. -/
theorem Comes.bind_error {first : Checked α} (next : α → Checked β) {error : Selector.Error}
    {calls : List Call} (hfirst : Comes first (.error error) calls) :
    Comes (first >>= next) (.error error) calls := by
  intro log
  have hrun := hfirst log
  simp only [Bind.bind, ExceptT.bind, ExceptT.run, ExceptT.mk, StateT.bind] at hrun ⊢
  rw [hrun]
  rfl

/-- A compilation whose value is mapped makes the same calls. -/
theorem Comes.map {first : Checked α} {result : Except Selector.Error α} {calls : List Call}
    (h : Comes first result calls) (f : α → β) :
    Comes (first >>= fun value => pure (f value)) (result.map f) calls := by
  cases result with
  | error error => exact h.bind_error _
  | ok value =>
    have hbind : Comes (first >>= fun value => pure (f value)) (.ok (f value)) (calls ++ []) :=
      h.bind (comes_pure _)
    rwa [List.append_nil] at hbind

/-- Behind a compilation whose outcome is looked at another one goes on in any case. -/
theorem Comes.lift_bind {first : Checked α} {next : Except Selector.Error α → Checked β}
    {outcome : Except Selector.Error α} {calls later : List Call} {result : Except Selector.Error β}
    (hfirst : Comes first outcome calls) (hnext : Comes (next outcome) result later) :
    Comes (α := β) (do next (← ExceptT.lift first.run)) result (calls ++ later) := by
  intro log
  have hrun := hfirst log
  have hlater := hnext (calls.reverse ++ log)
  simp only [Bind.bind, ExceptT.bind, ExceptT.run, ExceptT.mk, ExceptT.lift, StateT.bind, Functor.map,
    StateT.map] at hrun hlater ⊢
  rw [hrun, List.reverse_append, List.append_assoc]
  exact hlater

/-- A compilation fails as an outcome does, or it gives what `give` makes of the value and of an index that
stands in front of the rest. -/
def Reads (source : List Char) (compilation : Checked β) (give : α → Nat → β)
    (outcome : Except Selector.Error (α × List Char)) (calls : List Call) : Prop :=
  match outcome with
  | .error error => Comes compilation (.error error) calls
  | .ok (value, rest) => ∃ index, At source index rest ∧ Comes compilation (.ok (give value index)) calls

variable {source : List Char}

/-- What is made of the value and the index afterwards. -/
theorem Reads.bind_pure {γ : Type} {compilation : Checked β} {give : α → Nat → β}
    {outcome : Except Selector.Error (α × List Char)} {calls : List Call}
    (h : Reads source compilation give outcome calls) (f : β → γ) :
    Reads source (compilation >>= fun found => pure (f found)) (fun value index => f (give value index))
      outcome calls := by
  cases outcome with
  | error error => exact Comes.map h f
  | ok found =>
    obtain ⟨index, hat, hcomes⟩ := h
    exact ⟨index, hat, hcomes.map f⟩

/-- A value that is given with an index in front of a rest. -/
theorem Comes.reads {compilation : Checked α} {result : Except Selector.Error α} {calls : List Call}
    {index : Nat} {rest : List Char} (h : Comes compilation result calls) (hat : At source index rest) :
    Reads source (compilation >>= fun value => pure (value, index)) Prod.mk
      (result.map fun value => (value, rest)) calls := by
  have hmap := h.map fun value => (value, index)
  cases result with
  | error error => exact hmap
  | ok value => exact ⟨index, hat, hmap⟩

/-- Behind a compilation that has a value another one reads on. -/
theorem Comes.bind_reads {γ : Type} {first : Checked γ} {next : γ → Checked β} {value : γ} {give : α → Nat → β}
    {outcome : Except Selector.Error (α × List Char)} {calls later : List Call}
    (hfirst : Comes first (.ok value) calls) (hnext : Reads source (next value) give outcome later) :
    Reads source (first >>= next) give outcome (calls ++ later) := by
  cases outcome with
  | error error => exact hfirst.bind hnext
  | ok found =>
    obtain ⟨index, hat, hcomes⟩ := hnext
    exact ⟨index, hat, hfirst.bind hcomes⟩

/-- What is made of the value of the outcome. -/
theorem Reads.map {γ : Type} {compilation : Checked β} {give : α → Nat → β} {give' : γ → Nat → β}
    {outcome : Except Selector.Error (α × List Char)} {calls : List Call}
    (h : Reads source compilation give outcome calls) (f : α × List Char → γ × List Char)
    (hrest : ∀ found, (f found).2 = found.2) (hgive : ∀ found index, give' (f found).1 index = give found.1 index) :
    Reads source compilation give' (outcome.map f) calls := by
  cases outcome with
  | error error => exact h
  | ok found =>
    obtain ⟨index, hat, hcomes⟩ := h
    rw [← hrest found] at hat
    rw [← hgive found] at hcomes
    exact ⟨index, hat, hcomes⟩

end Checked

namespace Course

open Grammar Checked

/-- What is left behind a parameter stands at the end of the text. -/
theorem Parameter.suffix {text rest : List Char} {value : Option String}
    (h : Parameter text (.ok (value, rest))) : rest <:+ text := by
  have hbehind : ∀ raw : List Char, rest <:+ '(' :: (raw ++ ')' :: rest) := fun raw =>
    ⟨'(' :: (raw ++ [')']), by simp⟩
  cases h with
  | absent => exact List.suffix_rfl
  | blank => exact hbehind _
  | present => exact hbehind _

/-- What is eaten behind the name of a function. -/
theorem Parameter.checked {source text : List Char} {index : Nat}
    {outcome : Except (Fault × List Char) (Option String × List Char)} (h : Parameter text outcome)
    (hat : At source index text) :
    match outcome with
    | .error (fault, place) => eatParameter source index = throw (.invalid fault (offset source place))
    | .ok (value, rest) => ∃ after, At source after rest ∧ eatParameter source index = pure (value, after) := by
  have hread := h.read hat.stands
  rcases outcome with ⟨fault, place⟩ | ⟨value, rest⟩
  · rw [hat.eatParameter_eq]
    rcases hfound : Component.readParameter ⟨index, text⟩ with ⟨found, left⟩
    obtain rfl : found = .error (fault, offset source place) := by rw [← hread, hfound]
    rfl
  · obtain ⟨after, hafter, hread⟩ := hread
    refine ⟨after, ⟨h.suffix.trans hat.suffix, hafter⟩, ?_⟩
    rw [hat.eatParameter_eq, hread]

section

variable {functions : Functions} {Inner : String → Except Selector.Error Selector → List Call → Prop}
variable {source : List Char} {compile : String → Checked Selector}
variable (hcompile : ∀ text outcome calls, Inner text outcome calls → Comes (compile text) outcome calls)
include hcompile

/-- Following a recipe has the result and makes the calls that it comes to. -/
theorem Follows.checked {recipe : Recipe} {result : Except Selector.Error Predicate} {calls : List Call}
    (h : Follows Inner recipe result calls) : Checked.Comes (follow compile recipe) result calls := by
  induction h with
  | done predicate => exact comes_pure predicate
  | fail error => exact comes_throw error
  | compile inner _ ih => exact (hcompile _ _ _ inner).lift_bind ih

/-- The call of a function has the result and makes the calls that it comes to. -/
theorem eatCall_reads {name text rest : List Char} {index : Nat} {origin : Origin} {factory : Factory}
    {earlier : Option Predicate} {value : Option String} {result : Except Selector.Error Predicate}
    {calls : List Call} (hname : Name name text)
    (hresolve : functions.resolve? (.ofList name) = some (origin, factory))
    (hparameter : Parameter text (.ok (value, rest)))
    (hfollows : Follows Inner (factory (.ofList name) value earlier) result calls)
    (hat : At source index (name ++ text)) :
    Reads source (eatCall source functions compile earlier index) Prod.mk
      (result.map fun predicate => (predicate, rest)) (⟨origin, .ofList name, value, earlier⟩ :: calls) := by
  obtain ⟨after, hafter, hread⟩ := hparameter.checked hat.append
  rw [eatCall, hat.expectIdentifier_eq hname, pure_bind]
  simp only [Functions.resolve, hresolve, hread, pure_bind]
  exact (comes_log _).bind_reads ((hfollows.checked hcompile).reads hafter)

/-- A component has the result and makes the calls that it comes to. -/
theorem Step.checked {text : List Char} {earlier : Option Predicate}
    {outcome : Except Selector.Error (Predicate × List Char)} {calls : List Call} {index : Nat}
    (h : Step functions Inner source text earlier outcome calls) (hat : At source index text) :
    Reads source (eatComponent source functions compile (earlier, index))
      (fun predicate index => .inl (some predicate, index)) outcome calls := by
  cases h with
  | id hname =>
    rw [hat.eatComponent_id functions compile earlier hname]
    exact ⟨_, (hat.cons rfl).append, comes_pure _⟩
  | hasClass hname =>
    rw [hat.eatComponent_hasClass functions compile earlier hname]
    exact ⟨_, (hat.cons rfl).append, comes_pure _⟩
  | nameless hmark hrest =>
    rw [hat.eatComponent_nameless functions compile earlier hmark hrest,
      (hat.cons (utf8Size_of_mem_marks hmark)).stands.offset_eq]
    exact comes_throw _
  | unknown hname hresolve =>
    rw [hat.eatComponent_call, eatCall, (hat.cons rfl).expectIdentifier_eq hname, pure_bind]
    simp only [Functions.resolve, hresolve, throw_bind]
    exact comes_throw _
  | parentheses hname hresolve hparameter =>
    have hfault := hparameter.checked (hat.cons rfl).append
    rw [hat.eatComponent_call, eatCall, (hat.cons rfl).expectIdentifier_eq hname, pure_bind]
    simp only [Functions.resolve, hresolve, hfault, throw_bind]
    exact comes_throw _
  | call hname hresolve hparameter hfollows =>
    rw [hat.eatComponent_call]
    exact (eatCall_reads hcompile hname hresolve hparameter hfollows (hat.cons rfl)).bind_pure _
  | @unexpected _ c rest hmark hends =>
    have hunmarked : ∀ d ∈ (c :: rest).head?, d ∉ marks := by
      rintro d ⟨⟩
      exact hmark
    rw [hat.eatComponent_unmarked functions compile earlier hunmarked, hat.eatEnd_throw hends, throw_bind,
      hat.stands.offset_eq]
    exact comes_throw _

/-- The components up to the end of a compound have the result and make the calls that they come to, in no
more rounds than there are characters, and one more. -/
theorem Steps.checked {text : List Char} {earlier : Option Predicate}
    {outcome : Except Selector.Error (Option Predicate × List Char)} {calls : List Call} {index rounds : Nat}
    (h : Steps functions Inner source text earlier outcome calls) (hat : At source index text)
    (hrounds : text.length < rounds) :
    Reads source (loop (eatComponent source functions compile) rounds (earlier, index)) Prod.mk outcome
      calls := by
  obtain ⟨rounds, rfl⟩ := Nat.exists_eq_add_one_of_ne_zero (Nat.ne_zero_of_lt hrounds)
  induction h generalizing index rounds with
  | @done text earlier hends =>
    rw [hat.loop_eatComponent_end functions compile earlier hends]
    exact ⟨_, hat.skip _, comes_pure _⟩
  | fail first =>
    have hfirst := first.checked hcompile hat
    exact Comes.bind_error _ hfirst
  | @more text middle _ predicate _ _ _ first _ ih =>
    obtain ⟨after, hafter, hfirst⟩ := first.checked hcompile hat
    have hlt := first.length_lt
    obtain ⟨others, rfl⟩ : ∃ others, rounds = others + 1 := ⟨rounds - 1, by omega⟩
    exact hfirst.bind_reads (ih hafter others (by omega))

/-- What stands behind a child mark has the result and makes the calls that it comes to. -/
theorem Body.checked {text : List Char} {outcome : Except Selector.Error (Option Predicate × List Char)}
    {calls : List Call} {index : Nat} (h : Body functions Inner source text outcome calls)
    (hat : At source index text) :
    Reads source (eatBody source functions compile index) Prod.mk outcome calls := by
  cases h with
  | any steps =>
    rw [eatBody, hat.eatTag_star, pure_bind]
    exact steps.checked hcompile (hat.cons rfl) (hat.cons rfl).length_lt_roundsFrom
  | tag hname steps =>
    rw [eatBody, hat.eatTag_name hname, pure_bind]
    exact steps.checked hcompile hat.append hat.append.length_lt_roundsFrom
  | bare hbare steps =>
    rw [eatBody, hat.eatTag_none hbare, pure_bind]
    exact steps.checked hcompile hat hat.length_lt_roundsFrom

/-- A compound has the part and makes the calls that it comes to. -/
theorem Compound.checked {text : List Char} {outcome : Except Selector.Error (Part × List Char)}
    {calls : List Call} {index : Nat} (h : Compound functions Inner source text outcome calls)
    (hat : At source index text) :
    Reads source (eatCompound source functions compile index) Prod.mk outcome calls := by
  cases h with
  | child body =>
    have hinside := hat.cons rfl
    have hbody := body.checked hcompile (hinside.skip Text.isAsciiBlank)
    rw [eatCompound, hat.eat_eq rfl, pure_bind]
    simp only [if_true, hinside.eatBlanks_eq, pure_bind]
    exact (hbody.bind_pure _).map (part true) (fun _ => rfl) fun _ _ => rfl
  | plain hplain body =>
    have hbody := body.checked hcompile hat
    rw [eatCompound, hat.eat_ne rfl hplain, pure_bind]
    simp only [Bool.false_eq_true, if_false, pure_bind]
    exact (hbody.bind_pure _).map (part false) (fun _ => rfl) fun _ _ => rfl

/-- Compounds up to the end of the text have the parts and make the calls that they come to, behind those of
earlier ones. -/
theorem Compounds.checked {text : List Char} {outcome : Except Selector.Error (List Part)}
    {calls : List Call} {index rounds : Nat} (h : Compounds functions Inner source text outcome calls)
    (hat : At source index text) (hrounds : text.length < rounds) (earlier : List Part) :
    Checked.Comes (loop (eatNext source functions compile) rounds (earlier, index))
      (outcome.map (earlier ++ ·)) calls := by
  obtain ⟨rounds, rfl⟩ := Nat.exists_eq_add_one_of_ne_zero (Nat.ne_zero_of_lt hrounds)
  induction h generalizing index rounds earlier with
  | done =>
    rw [hat.loop_eatNext_end]
    simpa [Except.map] using comes_pure earlier
  | @fail text error calls hne first =>
    obtain ⟨c, tail, rfl⟩ := List.exists_cons_of_ne_nil hne
    have hround : Checked.Comes (eatNext source functions compile (earlier, index)) (.error error) calls := by
      rw [hat.eatNext_eq]
      exact (first.checked hcompile hat).bind_error _
    exact hround.bind_error _
  | @more text rest found outcome calls later hne first _ ih =>
    obtain ⟨after, hafter, hfirst⟩ := first.checked hcompile hat
    have hlt := first.length_lt hne
    obtain ⟨c, tail, rfl⟩ := List.exists_cons_of_ne_nil hne
    obtain ⟨others, rfl⟩ : ∃ others, rounds = others + 1 := ⟨rounds - 1, by omega⟩
    have hround : Checked.Comes (eatNext source functions compile (earlier, index))
        (.ok (.inl (earlier ++ [found], after))) calls := by
      rw [hat.eatNext_eq]
      exact hfirst.map _
    have hrest := ih hafter (earlier ++ [found]) others (by omega)
    have houtcome : (outcome.map fun parts => found :: parts).map (earlier ++ ·) =
        outcome.map (earlier ++ [found] ++ ·) := by
      cases outcome <;> simp [Except.map]
    rw [houtcome]
    exact hround.bind hrest

/-- The compounds of a text from an index on have the selector and make the calls that they come to. -/
theorem Compounds.checked_cursor {text : List Char} {outcome : Except Selector.Error (List Part)}
    {calls : List Call} {index : Nat} (h : Compounds functions Inner source text outcome calls)
    (hne : text ≠ []) (hat : At source index text) {result : Except Selector.Error Selector}
    (hresult : outcome = result.map Selector.parts) :
    Checked.Comes (compileCursor source functions compile index) result calls := by
  cases h with
  | done => exact absurd rfl hne
  | fail hne first =>
    cases result with
    | error error =>
      obtain ⟨⟩ := hresult
      exact (first.checked hcompile hat).bind_error _
    | ok selector => cases hresult
  | @more _ rest found outcome _ _ hne first others =>
    obtain ⟨after, hafter, hfirst⟩ := first.checked hcompile hat
    have hothers := others.checked hcompile hafter hafter.length_lt_roundsFrom []
    have hmap := hothers.map fun rest => (⟨found, rest⟩ : Selector)
    have hselector : ((outcome.map ([] ++ ·)).map fun rest => (⟨found, rest⟩ : Selector)) = result := by
      rcases outcome with error | rest <;> rcases result with error' | ⟨head, rest'⟩
      · obtain ⟨⟩ := hresult
        rfl
      · cases hresult
      · cases hresult
      · obtain ⟨rfl, rfl⟩ := List.cons.inj (Except.ok.inj hresult)
        rfl
    rw [hselector] at hmap
    exact hfirst.bind hmap

end

/-- A text compiles byte by byte to what it comes to, with the calls on its course. -/
theorem Compiles.checked {functions : Functions}
    {Inner : String → Except Selector.Error Selector → List Call → Prop} {compile : String → Checked Selector}
    (hcompile : ∀ text outcome calls, Inner text outcome calls → Checked.Comes (compile text) outcome calls)
    {text : String} {result : Except Selector.Error Selector} {calls : List Call}
    (h : Compiles functions Inner text result calls) :
    Checked.Comes (compileText functions compile text) result calls := by
  cases h with
  | blank hblank =>
    rw [compileText, Text.trimChars_eq_nil_iff.mpr hblank]
    exact comes_throw _
  | fail hblank compounds =>
    rw [compileText_eq_compileCursor functions compile hblank]
    exact compounds.checked_cursor hcompile (trimChars_ne_nil hblank) (at_zero _) rfl
  | selector hblank compounds =>
    rw [compileText_eq_compileCursor functions compile hblank]
    exact compounds.checked_cursor hcompile (trimChars_ne_nil hblank) (at_zero _) rfl

end Course

namespace Checked

/-- On every number of levels a text compiles byte by byte to what it comes to. -/
theorem comes_compileWithin (functions : Functions) {levels : Nat} {text : String}
    {result : Except Selector.Error Selector} {calls : List Call}
    (h : Course.CompilesWithin functions levels text result calls) :
    Comes (compileWithin functions levels text) result calls := by
  induction levels generalizing text result calls with
  | zero =>
    obtain ⟨rfl, rfl⟩ := h
    exact comes_throw _
  | succ levels ih =>
    have hcompiles : Course.Compiles functions (Course.CompilesWithin functions levels) text result calls := h
    exact hcompiles.checked fun _ _ _ hinner => ih hinner

end Checked

/-- With any functions every text, whatever characters it is made of, compiles byte by byte to what it compiles
to, with the same calls, and no check fails on the way. The index never goes up past the end of the text, no
number is taken from zero, no piece of the text begins or ends inside of a character, no fault has a position
inside of a character or past the end of the text that is read, and no loop goes on for longer than there are
bytes. -/
theorem compiling_never_crashes (functions : Functions) (text : String) :
    (Checked.compileWithin functions Functions.nestingLimit text).outcome =
      .ok (functions.compile (.text text)).outcome := by
  obtain ⟨result, calls, hcourse⟩ := Course.exists_compilesWithin functions Functions.nestingLimit text
  rw [(Checked.comes_compileWithin functions hcourse).outcome,
    (functions.outcome_compile_iff text result calls).mpr hcourse]

/-- A text that is not blank compiles to what a fresh cursor makes of it without its blanks around it, selector
or error, with the same calls: that a text of one component is recognised at a glance changes nothing. -/
theorem fresh_cursor_compiles (functions : Functions) {text : String}
    (hblank : text.toList.all Text.isBlank = false) :
    Checked.compileWithin functions Functions.nestingLimit text =
        Checked.compileCursor (Text.trimChars text.toList) functions
          (Checked.compileWithin functions (Functions.nestingLimit - 1)) 0 ∧
      (Checked.compileCursor (Text.trimChars text.toList) functions
          (Checked.compileWithin functions (Functions.nestingLimit - 1)) 0).outcome =
        .ok (functions.compile (.text text)).outcome := by
  have hcursor : Checked.compileWithin functions (Functions.nestingLimit - 1 + 1) text = _ :=
    Checked.compileText_eq_compileCursor functions _ hblank
  have hlevels : Functions.nestingLimit - 1 + 1 = Functions.nestingLimit := by decide
  rw [hlevels] at hcursor
  exact ⟨hcursor, hcursor ▸ compiling_never_crashes functions text⟩

/-- The built-in functions and one more, which holds of the nodes that have no children. -/
def withLeaf : Functions :=
  Functions.empty.register "leaf" fun _ _ earlier => .done (.chain earlier (.not (.has (.simple .always))))

/-- A fresh cursor calls the registered function of a text that is nothing else. -/
theorem fresh_cursor_compiles_leaf :
    " :leaf".toList.all Text.isBlank = false ∧
      (Checked.compileCursor ":leaf".toList withLeaf
          (Checked.compileWithin withLeaf (Functions.nestingLimit - 1)) 0).outcome =
        .ok (.ok (.simple (.not (.has (.simple .always)))), [⟨.registered, "leaf", none, none⟩]) := by
  have hblank : " :leaf".toList.all Text.isBlank = false := by decide
  have htrim : Text.trimChars " :leaf".toList = ":leaf".toList := by decide
  have hcompiled : (withLeaf.compile (.text " :leaf")).outcome =
      (.ok (.simple (.not (.has (.simple .always)))), [⟨.registered, "leaf", none, none⟩]) := by
    rfl
  have hcursor := (fresh_cursor_compiles withLeaf hblank).2
  rw [htrim, hcompiled] at hcursor
  exact ⟨hblank, hcursor⟩

end TreeQuery
